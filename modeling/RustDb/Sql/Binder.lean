import RustDb.Sql.Coercion

/-!
# Building expressions

The constructors of `sql/binder.rs` that choose types, with the coercions of
`sql/coercion.rs` they use.

* `makeBinary`: a binary operator on operands cast to the types it takes.
* `makeCase`: `CASE` with its branches cast to one type.
-/

namespace RustDb.Sql

open RustDb.Execution

/-- How an operator is written. -/
def BinaryOp.display : BinaryOp → String
  | .eq => "="
  | .notEq => "!="
  | .lt => "<"
  | .ltEq => "<="
  | .gt => ">"
  | .gtEq => ">="
  | .and => "AND"
  | .or => "OR"
  | .add => "+"
  | .subtract => "-"
  | .multiply => "*"
  | .divide => "/"
  | .modulo => "%"

namespace Coercion

/-! ## Result types -/

/-- `i8::saturating_add`. -/
def saturatingAdd (a b : Int8) : Int8 := .ofInt (max (-128) (min 127 (a.toInt + b.toInt)))

/-- The type of an operation on decimals, cut to 38 digits. -/
def decimalArithmeticType (left right : DataType) (op : BinaryOp) : Except Error DataType := do
  let (leftPrecision, leftScale) ← decimalParts left
  let (rightPrecision, rightScale) ← decimalParts right
  let leftInteger := (leftPrecision.toNat : Int) - leftScale.toInt
  let rightInteger := (rightPrecision.toNat : Int) - rightScale.toInt
  match op with
  | .add | .subtract =>
    let scale := max leftScale rightScale
    .ok (.decimal128 (.ofInt (min (scale.toInt + max leftInteger rightInteger + 1) 38)) scale)
  | .multiply =>
    let scale := saturatingAdd leftScale rightScale
    if 38 < scale then
      .error (.invalidArgument "DECIMAL multiplication result scale exceeds 38")
    else
      .ok (.decimal128 (.ofNat (min (leftPrecision.toNat + (rightPrecision.toNat + 1)) 38)) scale)
  | .divide =>
    let scale := min (saturatingAdd leftScale 4) 38
    let multiplier := scale - leftScale + rightScale
    .ok (.decimal128 (.ofNat (min (multiplier.toUInt8.toNat + leftPrecision.toNat) 38)) scale)
  | .modulo =>
    let scale := max leftScale rightScale
    .ok (.decimal128 (.ofInt (min (scale.toInt + min leftInteger rightInteger) 38)) scale)
  | op => .error (.internal s!"{op.display} is not a DECIMAL arithmetic operator")

/-- The type of integer and float operators. -/
def numericTarget (left right : DataType) : DataType :=
  if isFloat left || isFloat right then .float64
  else if isUnsigned left && isUnsigned right then .uint64
  else .int64

/-- The timestamps. -/
def isTimestamp : DataType → Bool
  | .timestamp .. => true
  | _ => false

/-- The two operators of intervals. -/
def isAddOrSubtract : BinaryOp → Bool
  | .add | .subtract => true
  | _ => false

/-- Both operands with the types that the operator takes, and the type of the result; the first rule
that applies. -/
def coerceArithmetic (left right : BoundExpr) (op : BinaryOp) :
    Except Error (BoundExpr × BoundExpr × DataType) :=
  if isTimestamp left.dataType && isInterval right.dataType && isAddOrSubtract op then
    .ok (left, right, left.dataType)
  else if isInterval left.dataType && isTimestamp right.dataType && op = .add then
    .ok (left, right, right.dataType)
  else if left.dataType = .date32 && isInterval right.dataType && isAddOrSubtract op then
    if right.dataType = .interval .monthDayNano then
      .ok (castIfNeeded left (.timestamp .microsecond none), right, .timestamp .microsecond none)
    else .ok (left, right, .date32)
  else if isInterval left.dataType && right.dataType = .date32 && op = .add then
    if left.dataType = .interval .monthDayNano then
      .ok (left, castIfNeeded right (.timestamp .microsecond none), .timestamp .microsecond none)
    else .ok (left, right, .date32)
  else if left.dataType = .interval .dayTime && right.dataType = .interval .dayTime &&
      isAddOrSubtract op then
    .ok (left, right, .interval .dayTime)
  else if left.dataType = .interval .yearMonth && right.dataType = .interval .yearMonth &&
      isAddOrSubtract op then
    .ok (left, right, .interval .yearMonth)
  else if isInterval left.dataType && isInterval right.dataType && isAddOrSubtract op then
    .ok (castIfNeeded left (.interval .monthDayNano), castIfNeeded right (.interval .monthDayNano),
      .interval .monthDayNano)
  else if isDecimal left.dataType || isDecimal right.dataType then
    if op = .divide || isFloat left.dataType || isFloat right.dataType then
      .ok (castIfNeeded left .float64, castIfNeeded right .float64, .float64)
    else do
      let left ← decimalOperand left
      let right ← decimalOperand right
      let dataType ← decimalArithmeticType left.dataType right.dataType op
      .ok (left, right, dataType)
  else if !isNumeric left.dataType || !isNumeric right.dataType then
    .error (.unsupported s!"operator {op.display} does not support {left.dataType.display} and {right.dataType.display}")
  else
    let target := if op = .divide then .float64 else numericTarget left.dataType right.dataType
    .ok (castIfNeeded left target, castIfNeeded right target, target)

/-! ## The branches of `CASE` -/

/-- The decimal type of two; an error if it loses digits. -/
def commonDecimal (left right : DataType) : Except Error DataType := do
  match ← losslessCommonDecimal left right with
  | some dataType => .ok dataType
  | none =>
    .error (.invalidArgument
      "DECIMAL values require more than 38 digits for a lossless common type")

/-- The decimal type for the values of an integer type. -/
def integerDecimalType : DataType → Except Error DataType
  | .int8 | .uint8 => .ok (.decimal128 3 0)
  | .int16 | .uint16 => .ok (.decimal128 5 0)
  | .int32 | .uint32 => .ok (.decimal128 10 0)
  | .int64 => .ok (.decimal128 19 0)
  | .uint64 => .ok (.decimal128 20 0)
  | other => .error (.internal s!"expected integer CASE operand, got {other.display}")

/-- The common type of dates and timestamps. -/
def commonTemporal (left right : DataType) : Except Error DataType :=
  match left, right with
  | .date32, .timestamp unit none | .timestamp unit none, .date32 => .ok (.timestamp unit none)
  | .timestamp leftUnit leftZone, .timestamp rightUnit rightZone =>
    if leftZone.isSome = rightZone.isSome then
      .ok (.timestamp (finerTimeUnit leftUnit rightUnit) (commonTimezone leftZone rightZone))
    else
      .error (.invalidArgument s!"CASE branches have incompatible types {left.display} and {right.display}")
  | _, _ =>
    .error (.invalidArgument s!"CASE branches have incompatible types {left.display} and {right.display}")

/-- The type of a `CASE` for the types of two of its branches. -/
def commonCaseType (left right : DataType) : Except Error DataType :=
  if left = right ∨ right = .null then .ok left
  else if left = .null then .ok right
  else if (isDecimal left || isDecimal right) && (isFloat left || isFloat right) then .ok .float64
  else if isDecimal left && isDecimal right then commonDecimal left right
  else if isDecimal left && isInteger right then do
    let right ← integerDecimalType right
    commonDecimal left right
  else if isInteger left && isDecimal right then do
    let left ← integerDecimalType left
    commonDecimal left right
  else if isNumeric left && isNumeric right then .ok (numericTarget left right)
  else if isString left && isString right then .ok .utf8
  else if isInterval left && isInterval right then .ok (.interval .monthDayNano)
  else commonTemporal left right

end Coercion

/-! ## Expressions -/

open Coercion

/-- `BoundExpr::column`. -/
def columnExpr (index : Nat) (dataType : DataType) (name : String) : BoundExpr :=
  .column ⟨dataType, name⟩ index

/-- The literal that `CASE` takes for a missing `ELSE`. -/
def nullLiteral : BoundExpr := .literal ⟨.null, "NULL"⟩ .null

/-- An integer literal. -/
def int64Literal (value : Int64) : BoundExpr := .literal ⟨.int64, toString value⟩ (.int64 value)

/-- A condition is Boolean or the constant null. -/
def ensureBoolean (expr : BoundExpr) : Except Error Unit :=
  if expr.dataType = .boolean ∨ expr.dataType = .null then .ok ()
  else .error (.invalidArgument s!"expected BOOLEAN expression, got {expr.dataType.display}")

/-- The operands of an operator, cast to the types it takes, and the type of its result. -/
def coerceOperands (left : BoundExpr) (op : BinaryOp) (right : BoundExpr) :
    Except Error (BoundExpr × BoundExpr × DataType) :=
  match op with
  | .eq | .notEq | .lt | .ltEq | .gt | .gtEq => do
    let (left, right) ← coerceComparison left right
    .ok (left, right, .boolean)
  | .and | .or => do
    ensureBoolean left
    ensureBoolean right
    .ok (castIfNeeded left .boolean, castIfNeeded right .boolean, .boolean)
  | .add | .subtract | .multiply | .divide | .modulo => coerceArithmetic left right op

/-- An operation with its operands coerced and its name made from theirs. -/
def makeBinary (left : BoundExpr) (op : BinaryOp) (right : BoundExpr) : Except Error BoundExpr := do
  let (left, right, dataType) ← coerceOperands left op right
  .ok (.binary ⟨dataType, s!"{left.displayName} {op.display} {right.displayName}"⟩ left op right)

/-- The condition of a branch; with an operand it is an equality. -/
def caseCondition (operand : Option BoundExpr) (condition : BoundExpr) : Except Error BoundExpr :=
  match operand with
  | some operand => makeBinary operand .eq condition
  | none => do
    ensureBoolean condition
    .ok (castIfNeeded condition .boolean)

/-- A `CASE` whose conditions and results are coerced to common types. -/
def makeCase (operand : Option BoundExpr) (whenThen : List (BoundExpr × BoundExpr))
    (elseExpr : Option BoundExpr) : Except Error BoundExpr :=
  if whenThen = [] then .error (.invalidArgument "CASE requires at least one WHEN branch")
  else do
    let branches ← whenThen.mapM fun (condition, result) => do
      let condition ← caseCondition operand condition
      .ok (condition, result)
    let elseExpr := elseExpr.getD nullLiteral
    let dataType ← branches.foldlM (fun dataType branch =>
      commonCaseType dataType branch.2.dataType) elseExpr.dataType
    .ok (.case ⟨dataType, "CASE"⟩
      (branches.map fun branch => (branch.1, castIfNeeded branch.2 dataType))
      (castIfNeeded elseExpr dataType))

end RustDb.Sql
