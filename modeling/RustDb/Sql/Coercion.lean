import RustDb.Execution.Decimal
import RustDb.Execution.Error

/-!
# Coercion of comparison operands

`sql/coercion.rs`, the decimal literals of `sql/literal.rs` and the comparison of
`execution/expr.rs`.

* `coerceComparison`: the operands of a comparison, cast to a common type where there is
  one.
* `losslessCommonDecimal`: the smallest decimal type that holds two others, if 38 digits
  are enough.
* `evaluateComparison`: a comparison of numbers, with the path for a literal operand.
* `parseDecimal`: fixed-point literals.
-/

namespace RustDb.Sql

open RustDb.Lib RustDb.Execution List Option

/-! ## Texts of types -/

/-- How Arrow writes a unit. -/
def TimeUnit.display : TimeUnit → String
  | .second => "s"
  | .millisecond => "ms"
  | .microsecond => "µs"
  | .nanosecond => "ns"

/-- How Arrow writes the kind of an interval. -/
def IntervalUnit.display : IntervalUnit → String
  | .yearMonth => "YearMonth"
  | .dayTime => "DayTime"
  | .monthDayNano => "MonthDayNano"

/-- How Arrow writes a type. -/
def DataType.display : DataType → String
  | .null => "Null"
  | .boolean => "Boolean"
  | .int8 => "Int8"
  | .int16 => "Int16"
  | .int32 => "Int32"
  | .int64 => "Int64"
  | .uint8 => "UInt8"
  | .uint16 => "UInt16"
  | .uint32 => "UInt32"
  | .uint64 => "UInt64"
  | .float16 => "Float16"
  | .float32 => "Float32"
  | .float64 => "Float64"
  | .decimal128 precision scale => s!"Decimal128({precision}, {scale})"
  | .date32 => "Date32"
  | .date64 => "Date64"
  | .time32 unit => s!"Time32({unit.display})"
  | .time64 unit => s!"Time64({unit.display})"
  | .timestamp unit none => s!"Timestamp({unit.display})"
  | .timestamp unit (some timezone) => s!"Timestamp({unit.display}, \"{timezone}\")"
  | .duration unit => s!"Duration({unit.display})"
  | .interval unit => s!"Interval({unit.display})"
  | .utf8 => "Utf8"
  | .largeUtf8 => "LargeUtf8"
  | .binary => "Binary"
  | .largeBinary => "LargeBinary"
  | .fixedSizeBinary size => s!"FixedSizeBinary({size})"
  | .dictionary key value => s!"Dictionary({key.display}, {value.display})"
  | .nested name => name

namespace Coercion

/-! ## Kinds of types -/

/-- The decimal types. -/
def isDecimal : DataType → Bool
  | .decimal128 .. => true
  | _ => false

/-- The integer types. -/
def isInteger : DataType → Bool
  | .int8 | .int16 | .int32 | .int64 | .uint8 | .uint16 | .uint32 | .uint64 => true
  | _ => false

/-- The unsigned integer types. -/
def isUnsigned : DataType → Bool
  | .uint8 | .uint16 | .uint32 | .uint64 => true
  | _ => false

/-- The floating-point types. -/
def isFloat : DataType → Bool
  | .float16 | .float32 | .float64 => true
  | _ => false

/-- The types of numbers. -/
def isNumeric (dataType : DataType) : Bool :=
  isInteger dataType || isFloat dataType || isDecimal dataType

/-- The types of text. -/
def isString : DataType → Bool
  | .utf8 | .largeUtf8 => true
  | _ => false

/-- The types of intervals. -/
def isInterval : DataType → Bool
  | .interval _ => true
  | _ => false

/-- A text that stands in the query. -/
def isUtf8Literal : BoundExpr → Bool
  | .literal _ (.utf8 _) => true
  | _ => false

/-! ## Coercion -/

/-- The expression with the target type, cast if it has another one. -/
def castIfNeeded (expr : BoundExpr) (target : DataType) : BoundExpr :=
  if expr.dataType = target then expr
  else .cast ⟨target, expr.displayName⟩ expr

/-- The number of decimal digits, at least one. -/
def decimalDigits (value : Nat) : Nat :=
  if 10 ≤ value then decimalDigits (value / 10) + 1 else 1

/-- The precision at which an integer operand becomes a decimal. -/
def decimalOperandPrecision (expr : BoundExpr) : Except Error UInt8 :=
  match expr with
  | .literal _ (.int64 value) => .ok (.ofNat (decimalDigits value.toInt.natAbs))
  | .literal _ (.uint64 value) => .ok (.ofNat (decimalDigits value.toNat))
  | _ =>
    if isUnsigned expr.dataType then .ok 20
    else if isInteger expr.dataType then .ok 19
    else if isFloat expr.dataType then
      .error (.invalidArgument
        "mixing DECIMAL and floating-point values requires an explicit CAST")
    else
      .error (.invalidArgument s!"cannot use {expr.dataType.display} as a DECIMAL operand")

/-- An operand as a decimal: an integer becomes one without fraction digits, a null of one digit. -/
def decimalOperand (expr : BoundExpr) : Except Error BoundExpr :=
  if isDecimal expr.dataType then .ok expr
  else if expr.dataType = .null then .ok (castIfNeeded expr (.decimal128 1 0))
  else do
    let precision ← decimalOperandPrecision expr
    .ok (castIfNeeded expr (.decimal128 precision 0))

/-- The precision and the scale of a decimal type. -/
def decimalParts : DataType → Except Error (UInt8 × Int8)
  | .decimal128 precision scale => .ok (precision, scale)
  | other => .error (.internal s!"expected DECIMAL, got {other.display}")

/-- The decimal type that holds the digits of both, if 38 digits are enough. -/
def losslessCommonDecimal (left right : DataType) : Except Error (Option DataType) := do
  let (leftPrecision, leftScale) ← decimalParts left
  let (rightPrecision, rightScale) ← decimalParts right
  let scale := max leftScale rightScale
  let integer := max ((leftPrecision.toNat : Int) - leftScale.toInt)
    (rightPrecision.toNat - rightScale.toInt)
  let precision := scale.toInt + integer
  if 38 < precision then .ok none
  else .ok (some (.decimal128 (.ofNat (max precision 1).toNat) scale))

/-- The finer of two units. -/
def finerTimeUnit : TimeUnit → TimeUnit → TimeUnit
  | .nanosecond, _ | _, .nanosecond => .nanosecond
  | .microsecond, _ | _, .microsecond => .microsecond
  | .millisecond, _ | _, .millisecond => .millisecond
  | .second, .second => .second

/-- The time zone of two timestamps: `UTC` for two zones, none if one has none. -/
def commonTimezone : Option String → Option String → Option String
  | some left, some right => if left = right then some left else some "UTC"
  | _, _ => none

/-- The operands, cast to one type. -/
def castBoth (left right : BoundExpr) (target : DataType) : BoundExpr × BoundExpr :=
  (castIfNeeded left target, castIfNeeded right target)

/-- A decimal with another number. -/
def coerceDecimals (left right : BoundExpr) : Except Error (BoundExpr × BoundExpr) :=
  if isFloat left.dataType || isFloat right.dataType then .ok (castBoth left right .float64)
  else do
    let left ← decimalOperand left
    let right ← decimalOperand right
    match ← losslessCommonDecimal left.dataType right.dataType with
    | some target => .ok (castBoth left right target)
    | none => .ok (left, right)

/-- Dates and timestamps. -/
def coerceTemporal (left right : BoundExpr) : Except Error (BoundExpr × BoundExpr) :=
  match left.dataType, right.dataType with
  | .date32, .timestamp unit none => .ok (castIfNeeded left (.timestamp unit none), right)
  | .timestamp unit none, .date32 => .ok (left, castIfNeeded right (.timestamp unit none))
  | .timestamp leftUnit leftZone, .timestamp rightUnit rightZone =>
    if leftZone.isSome ≠ rightZone.isSome then
      .error (.invalidArgument
        "cannot compare TIMESTAMP WITH TIME ZONE to TIMESTAMP WITHOUT TIME ZONE")
    else
      .ok (castBoth left right
        (.timestamp (finerTimeUnit leftUnit rightUnit) (commonTimezone leftZone rightZone)))
  | leftType, rightType =>
    .error (.invalidArgument s!"cannot compare {leftType.display} with {rightType.display}")

/-- The timestamps in no time zone. -/
def isTimestampWithoutZone : DataType → Bool
  | .timestamp _ none => true
  | _ => false

/-- `coerce_comparison`: both operands with a type in which they can be compared.  A null takes the
type of the other side; decimals and integers meet in a decimal without loss where there is one. -/
def coerceComparison (left right : BoundExpr) : Except Error (BoundExpr × BoundExpr) :=
  if left.dataType = right.dataType then .ok (left, right)
  else if left.dataType = .null then .ok (castIfNeeded left right.dataType, right)
  else if right.dataType = .null then .ok (left, castIfNeeded right left.dataType)
  else if isDecimal left.dataType || isDecimal right.dataType then coerceDecimals left right
  else if isNumeric left.dataType && isNumeric right.dataType then
    .ok (castBoth left right
      (if isFloat left.dataType || isFloat right.dataType then .float64
       else if isUnsigned left.dataType && isUnsigned right.dataType then .uint64
       else .int64))
  else if isString left.dataType && isString right.dataType then
    .ok (castBoth left right .utf8)
  else if isInterval left.dataType && isInterval right.dataType then
    .ok (castBoth left right (.interval .monthDayNano))
  else if left.dataType = .date32 && isUtf8Literal right then
    .ok (left, castIfNeeded right .date32)
  else if right.dataType = .date32 && isUtf8Literal left then
    .ok (castIfNeeded left .date32, right)
  else if isTimestampWithoutZone left.dataType && isUtf8Literal right then
    .ok (left, castIfNeeded right left.dataType)
  else if isTimestampWithoutZone right.dataType && isUtf8Literal left then
    .ok (castIfNeeded left right.dataType, right)
  else coerceTemporal left right

/-! ## Comparison of numbers -/

/-- The meaning of a comparison operator. -/
def holds : BinaryOp → Ordering → Bool
  | .eq, ordering => ordering.isEq
  | .notEq, ordering => !ordering.isEq
  | .lt, ordering => ordering.isLT
  | .ltEq, ordering => !ordering.isGT
  | .gt, ordering => ordering.isGT
  | .gtEq, ordering => !ordering.isLT
  | _, _ => false

/-- The operators that compare. -/
def isComparison : BinaryOp → Bool
  | .eq | .notEq | .lt | .ltEq | .gt | .gtEq => true
  | _ => false

/-- The operator for exchanged operands. -/
def reverse : BinaryOp → BinaryOp
  | .lt => .gt
  | .ltEq => .gtEq
  | .gt => .lt
  | .gtEq => .ltEq
  | op => op

/-- The literals that are compared without an array of copies. -/
def eligible (array : BoundExpr) (literal : ScalarValue) : Bool :=
  array.dataType = literal.dataType &&
    match literal with
    | .boolean _ | .int64 _ | .uint64 _ | .float64 _ | .decimal128 .. | .date32 _
    | .timestampMicrosecond _ | .timestamp .. | .time .. | .uuid _ => true
    | _ => false

/-- The array operand, the operator and the literal of a comparison with a literal. -/
def normalized (left : BoundExpr) (op : BinaryOp) (right : BoundExpr) :
    Option (BoundExpr × BinaryOp × ScalarValue) :=
  if !isComparison op then none
  else
    match left, right with
    | .literal .., .literal .. => none
    | left, .literal _ literal => if eligible left literal then some (left, op, literal) else none
    | .literal _ literal, right =>
      if eligible right literal then some (right, reverse op, literal) else none
    | _, _ => none

variable {V : Type} {S : Scalars V}

/-- The cells of integers and decimals, and Arrow's kernels on them.  The laws state what Arrow
documents of literals, casts and comparisons. -/
structure NumberCells (S : Scalars V) where
  number : DataType → Int → V
  raw : V → Option Int
  raw_number : ∀ dataType digits, raw (number dataType digits) = some digits
  raw_null : raw S.null = none
  type_unique : ∀ {dataType dataType' digits digits'},
    number dataType digits = number dataType' digits' → dataType = dataType'
  literal_int64 : ∀ value, S.literal (.int64 value) = number .int64 value.toInt
  literal_uint64 : ∀ value, S.literal (.uint64 value) = number .uint64 value.toNat
  literal_decimal128 : ∀ value precision scale, S.literal (.decimal128 value precision scale) =
    number (.decimal128 precision scale) value
  cast_number : ∀ source precision scale digits,
    S.cast (.decimal128 precision scale) (number source digits) =
      (castNumber source (.decimal128 precision scale) digits).map
        (number (.decimal128 precision scale))
  /-- Arrow's comparison of two arrays of one type: the order of the digits, null beside a
  null. -/
  compareKernel : BinaryOp → V → V → V
  compareKernel_eq : ∀ op a b, compareKernel op a b = S.boolean do
    let x ← raw a
    let y ← raw b
    some (holds op (compare x y))

/-- The cell of a type that holds these digits, or the null cell. -/
def NumberCells.cell (N : NumberCells S) (dataType : DataType) : Option Int → V
  | none => S.null
  | some digits => N.number dataType digits

/-- `compare_decimals`: the two scales are made equal before the digits are compared. -/
def compareDecimals (N : NumberCells S) (op : BinaryOp) (leftScale rightScale : Int8)
    (a b : V) : V :=
  S.boolean do
    let x ← N.raw a
    let y ← N.raw b
    some (holds op (compareDecimalValues x leftScale y rightScale))

/-- `evaluate_binary` on numbers. -/
def evaluateBinary (N : NumberCells S) (op : BinaryOp) (leftType rightType : DataType)
    (a b : V) : V :=
  match leftType, rightType with
  | .decimal128 leftPrecision leftScale, .decimal128 rightPrecision rightScale =>
    if leftPrecision = rightPrecision ∧ leftScale = rightScale then N.compareKernel op a b
    else compareDecimals N op leftScale rightScale a b
  | _, _ => N.compareKernel op a b

/-- A comparison of numbers, as `evaluate` runs it on a row. -/
def evaluateComparison [DecidableEq V] (N : NumberCells S) (outer : List (Row V)) (row : Row V)
    (left : BoundExpr) (op : BinaryOp) (right : BoundExpr) : Option V :=
  match normalized left op right with
  | some (array, op, literal) => do
    let a ← array.eval S outer row
    some (N.compareKernel op a (S.literal literal))
  | none => do
    let a ← left.eval S outer row
    let b ← right.eval S outer row
    some (evaluateBinary N op left.dataType right.dataType a b)

/-! ## Exactness -/

/-- The rational number in a cell. -/
def exactValue : DataType → Int → ℚ
  | .decimal128 _ scale, digits => decimalValue digits scale
  | _, digits => digits

/-- The values of an integer or decimal type. -/
def Fits (dataType : DataType) (digits : Int) : Prop :=
  match dataType, integerRange dataType with
  | .decimal128 precision _, _ => fitsPrecision precision digits
  | _, some (low, high) => low ≤ digits ∧ digits < high
  | _, none => False

/-- The integer types, and the decimal types of 1 to 38 digits with any scale. -/
def isExactNumber : DataType → Bool
  | .decimal128 precision _ => 1 ≤ precision.toNat && precision.toNat ≤ 38
  | dataType => isInteger dataType

/-- The truth value of a comparison of two rational numbers or nulls. -/
def compareValues (op : BinaryOp) (x y : Option ℚ) : Option Bool := do
  let x ← x
  let y ← y
  some (holds op (compare x y))

theorem holds_reverse (op : BinaryOp) (ordering : Ordering) :
    holds (reverse op) ordering.swap = holds op ordering := by
  cases op <;> cases ordering <;> rfl

variable {precision : UInt8} {scale : Int8}

theorem eq_decimal128_of_dataType {literal : ScalarValue}
    (h : literal.dataType = .decimal128 precision scale) :
    ∃ raw, literal = .decimal128 raw precision scale := by
  cases literal with
  | decimal128 raw _ _ =>
    cases h
    exact ⟨raw, rfl⟩
  | time _ unit => cases unit <;> cases h
  | _ => cases h

theorem lt_pow_decimalDigits (value : Nat) : value < 10 ^ decimalDigits value := by
  fun_induction decimalDigits value with
  | case1 value h ih =>
    rw [Nat.pow_succ]
    omega
  | case2 value h => omega

theorem decimalDigits_le {value k : Nat} (h : value < 10 ^ (k + 1)) :
    decimalDigits value ≤ k + 1 := by
  induction k generalizing value with
  | zero =>
    rw [decimalDigits, if_neg (by omega)]
  | succ k ih =>
    rw [decimalDigits]
    split
    · rw [Nat.pow_succ] at h
      have hrest : decimalDigits (value / 10) ≤ k + 1 := ih (by omega)
      omega
    · omega

/-- The common type has no fewer integer digits and fraction digits than either type. -/
theorem losslessCommonDecimal_cases (precision' : UInt8) (scale scale' : Int8)
    (hprecision : 1 ≤ precision.toNat) :
    losslessCommonDecimal (.decimal128 precision scale) (.decimal128 precision' scale') =
        .ok none ∨
    ∃ common : UInt8, common.toNat ≤ 38 ∧
      losslessCommonDecimal (.decimal128 precision scale) (.decimal128 precision' scale') =
        .ok (some (.decimal128 common (max scale scale'))) ∧
      scale.toInt ≤ (max scale scale').toInt ∧ scale'.toInt ≤ (max scale scale').toInt ∧
      precision.toNat + ((max scale scale').toInt - scale.toInt) ≤ common.toNat ∧
      precision'.toNat + ((max scale scale').toInt - scale'.toInt) ≤ common.toNat := by
  have hmax : scale.toInt ≤ (max scale scale').toInt ∧ scale'.toInt ≤ (max scale scale').toInt := by
    rw [show max scale scale' = if scale ≤ scale' then scale' else scale from rfl]
    split
    · next h => exact ⟨Int8.le_iff_toInt_le.mp h, le_refl _⟩
    · next h =>
      rw [Int8.le_iff_toInt_le] at h
      exact ⟨le_refl _, by omega⟩
  simp only [losslessCommonDecimal, decimalParts, bind, Except.bind]
  split
  · exact .inl rfl
  · next h =>
    have hsize : UInt8.size = 256 := rfl
    refine .inr ⟨_, ?_, rfl, hmax.1, hmax.2, ?_, ?_⟩ <;>
      rw [UInt8.toNat_ofNat_of_lt' (by omega)] <;> omega

variable {N : NumberCells S}

theorem NumberCells.raw_cell (dataType : DataType) (digits : Option Int) :
    N.raw (N.cell dataType digits) = digits := by
  cases digits with
  | none => exact N.raw_null
  | some x => exact N.raw_number dataType x

variable {dataType : DataType} {digits : Option Int}

theorem NumberCells.cell_eq_number {dataType' : DataType} {x : Int}
    (h : N.cell dataType digits = N.number dataType' x) :
    dataType = dataType' ∧ digits = some x := by
  have hdigits : digits = some x := by
    rw [← N.raw_cell dataType digits, h, N.raw_number]
  subst hdigits
  exact ⟨N.type_unique h, rfl⟩

section Exactness

variable [DecidableEq V] (N : NumberCells S) (outer : List (Row V)) (row : Row V)

/-- A decimal expression with digits that fit its type, and the value they stand for. -/
structure DecimalOperand (expr : BoundExpr) (precision : UInt8) (scale : Int8)
    (value : Option ℚ) : Prop where
  dataType : expr.dataType = .decimal128 precision scale
  bounded : 1 ≤ precision.toNat ∧ precision.toNat ≤ 38
  cell : ∃ digits, expr.eval S outer row = some (N.cell (.decimal128 precision scale) digits) ∧
    (∀ x ∈ digits, fitsPrecision precision x) ∧ digits.map (decimalValue · scale) = value

variable {N outer row} {left right expr : BoundExpr} {precision precision' : UInt8}
  {scale scale' : Int8} {value value' : Option ℚ}

theorem dataType_castIfNeeded (target : DataType) :
    (castIfNeeded expr target).dataType = target := by
  unfold castIfNeeded
  split
  · assumption
  · rfl

variable {digits : Option Int}

/-- Casts of digits that keep their value make a cell of the same value. -/
theorem exists_cell_castIfNeeded {f : Int → ℚ}
    (hne : expr.dataType ≠ .decimal128 precision scale)
    (heval : expr.eval S outer row = some (N.cell dataType digits))
    (hcast : ∀ x ∈ digits, ∃ x', castNumber dataType (.decimal128 precision scale) x = some x' ∧
      fitsPrecision precision x' ∧ decimalValue x' scale = f x) :
    ∃ digits', (castIfNeeded expr (.decimal128 precision scale)).eval S outer row =
        some (N.cell (.decimal128 precision scale) digits') ∧
      (∀ x ∈ digits', fitsPrecision precision x) ∧
      digits'.map (decimalValue · scale) = digits.map f := by
  rw [castIfNeeded, if_neg hne, BoundExpr.eval, heval]
  cases digits with
  | none => exact ⟨none, S.cast_null _, by simp, rfl⟩
  | some x =>
    obtain ⟨x', hx', hfits, hvalue⟩ := hcast x rfl
    refine ⟨some x', ?_, by simpa using hfits, congrArg some hvalue⟩
    show S.cast (.decimal128 precision scale) (N.number dataType x) = _
    rw [N.cast_number, hx']
    rfl

/-- A cast that neither rounds nor overflows. -/
theorem DecimalOperand.castIfNeeded (h : DecimalOperand N outer row expr precision scale value)
    (hprecision : precision'.toNat ≤ 38) (hscale : scale.toInt ≤ scale'.toInt)
    (hroom : (precision.toNat : Int) + (scale'.toInt - scale.toInt) ≤ precision'.toNat) :
    DecimalOperand N outer row (castIfNeeded expr (.decimal128 precision' scale'))
      precision' scale' value := by
  obtain ⟨hpos, -⟩ := h.bounded
  obtain ⟨digits, heval, hfits, hvalue⟩ := h.cell
  refine ⟨dataType_castIfNeeded _, ⟨by omega, hprecision⟩, ?_⟩
  by_cases hsame : expr.dataType = .decimal128 precision' scale'
  · rw [h.dataType] at hsame
    obtain ⟨rfl, rfl⟩ := DataType.decimal128.inj hsame
    rw [Coercion.castIfNeeded, if_pos h.dataType]
    exact ⟨digits, heval, hfits, hvalue⟩
  · rw [← hvalue]
    exact exists_cell_castIfNeeded hsame heval fun x hx =>
      castDecimal_exact (hfits x hx) hprecision hscale hroom

/-- An integer with few enough digits becomes a decimal of the same value. -/
theorem DecimalOperand.of_integer (hinteger : isInteger expr.dataType = true)
    (heval : expr.eval S outer row = some (N.cell expr.dataType digits))
    (hprecision : 1 ≤ precision.toNat ∧ precision.toNat ≤ 38)
    (hfits : ∀ x ∈ digits, fitsPrecision precision x) :
    DecimalOperand N outer row (Coercion.castIfNeeded expr (.decimal128 precision 0))
      precision 0 (digits.map (exactValue expr.dataType)) := by
  have hne : expr.dataType ≠ .decimal128 precision 0 := by
    intro h
    rw [h] at hinteger
    cases hinteger
  refine ⟨dataType_castIfNeeded _, hprecision, exists_cell_castIfNeeded hne heval ?_⟩
  intro x hx
  have hcast := castInteger_exact (hfits x hx) hprecision.2
  have hvalue : decimalValue x 0 = x := by simp [decimalValue]
  cases htype : expr.dataType <;> rw [htype] at hinteger <;>
    first | exact ⟨x, hcast, hfits x hx, hvalue⟩ | cases hinteger

/-- Digits of one scale are ordered as their values. -/
theorem compare_decimalValue (x y : Int) (scale : Int8) :
    compare (decimalValue x scale) (decimalValue y scale) = compare x y := by
  apply compare_strictMono (f := fun x => decimalValue x scale)
  intro x y h
  have hlt : (x : ℚ) < y := Int.cast_lt.mpr h
  exact mul_lt_mul_of_pos_right hlt (ten_zpow_pos _)

omit [DecidableEq V] in
/-- The comparison of digits of one scale. -/
theorem compareKernel_cell (op : BinaryOp) (dataType dataType' : DataType)
    (digits digits' : Option Int) (scale : Int8) :
    N.compareKernel op (N.cell dataType digits) (N.cell dataType' digits') =
      S.boolean (compareValues op (digits.map (decimalValue · scale))
        (digits'.map (decimalValue · scale))) := by
  rw [N.compareKernel_eq, N.raw_cell, N.raw_cell]
  cases digits <;> cases digits' <;> simp [compareValues, compare_decimalValue]

theorem compareValues_reverse (op : BinaryOp) (x y : Option ℚ) :
    compareValues (reverse op) y x = compareValues op x y := by
  cases x with
  | none => cases y <;> rfl
  | some x =>
    cases y with
    | none => rfl
    | some y =>
      have hswap : compare y x = (compare x y).swap := Std.OrientedOrd.eq_swap
      simp [compareValues, hswap, holds_reverse]

/-- The path for a literal operand, which has the type of its value. -/
theorem DecimalOperand.compareKernel_literal {info : ExprInfo} {literal : ScalarValue}
    (h : DecimalOperand N outer row (.literal info literal) precision scale value)
    (harray : DecimalOperand N outer row expr precision' scale' value')
    (heligible : eligible expr literal = true) (op : BinaryOp) :
    (expr.eval S outer row).bind (fun a => some (N.compareKernel op a (S.literal literal))) =
      some (S.boolean (compareValues op value' value)) := by
  have htype : literal.dataType = .decimal128 precision' scale' := by
    simp [eligible] at heligible
    rw [← heligible.1, harray.dataType]
  obtain ⟨digits, heval, -, hvalue⟩ := h.cell
  obtain ⟨digits', heval', -, hvalue'⟩ := harray.cell
  obtain ⟨raw, rfl⟩ := eq_decimal128_of_dataType htype
  rw [BoundExpr.eval, some_inj] at heval
  have hcell := heval
  rw [N.literal_decimal128] at hcell
  obtain ⟨rfl, rfl⟩ := DataType.decimal128.inj (N.cell_eq_number hcell.symm).1
  rw [heval', heval, bind_some, compareKernel_cell op _ _ digits' digits scale, hvalue, hvalue']

/-- Both paths of the comparison give the order of the values. -/
theorem evaluateComparison_eq {op : BinaryOp} (hop : isComparison op = true)
    (hleft : DecimalOperand N outer row left precision scale value)
    (hright : DecimalOperand N outer row right precision' scale' value') :
    evaluateComparison N outer row left op right =
      some (S.boolean (compareValues op value value')) := by
  obtain ⟨digits, heval, -, hvalue⟩ := hleft.cell
  obtain ⟨digits', heval', -, hvalue'⟩ := hright.cell
  have hplain : evaluateBinary N op left.dataType right.dataType
      (N.cell (.decimal128 precision scale) digits)
      (N.cell (.decimal128 precision' scale') digits') =
      S.boolean (compareValues op value value') := by
    rw [hleft.dataType, hright.dataType, evaluateBinary]
    split
    · next hsame =>
      obtain ⟨rfl, rfl⟩ := hsame
      rw [compareKernel_cell op _ _ digits digits' scale, hvalue, hvalue']
    · rw [compareDecimals, N.raw_cell, N.raw_cell, ← hvalue, ← hvalue']
      cases digits <;> cases digits' <;> simp [compareValues, compareDecimalValues_eq]
  unfold evaluateComparison
  split
  · next array op' literal hnormalized =>
    unfold normalized at hnormalized
    rw [if_neg (by simp [hop])] at hnormalized
    split at hnormalized
    · cases hnormalized
    · next info literal' _ =>
      split at hnormalized
      · next heligible =>
        cases hnormalized
        exact hright.compareKernel_literal hleft heligible op
      · cases hnormalized
    · next info literal' _ =>
      split at hnormalized
      · next heligible =>
        cases hnormalized
        rw [← compareValues_reverse]
        exact hleft.compareKernel_literal hright heligible _
      · cases hnormalized
    · cases hnormalized
  · rw [heval, heval']
    exact congrArg some hplain

end Exactness

theorem natAbs_lt_of_fits {digits : Int} (h : Fits dataType digits)
    (hinteger : isInteger dataType = true) :
    digits.natAbs < 10 ^ 20 ∧ (isUnsigned dataType = false → digits.natAbs < 10 ^ 19) := by
  cases dataType <;> first
    | (simp only [Fits, integerRange] at h
       simp only [isUnsigned, reduceCtorEq, forall_const, IsEmpty.forall_iff, and_true]
       omega)
    | cases hinteger

variable {outer : List (Row V)} {row : Row V} {expr : BoundExpr}

/-- The precision of an integer operand has room for its value. -/
theorem exists_decimalOperandPrecision [DecidableEq V] (hinteger : isInteger expr.dataType = true)
    (heval : expr.eval S outer row = some (N.cell expr.dataType digits))
    (hfits : ∀ x ∈ digits, Fits expr.dataType x) :
    ∃ precision, decimalOperandPrecision expr = .ok precision ∧
      (1 ≤ precision.toNat ∧ precision.toNat ≤ 38) ∧
      ∀ x ∈ digits, fitsPrecision precision x := by
  -- the digits of a literal, whatever integer type it has
  have hliteral : ∀ n : Nat, n < 10 ^ 20 → digits.map Int.natAbs = some n →
      (1 ≤ (UInt8.ofNat (decimalDigits n)).toNat ∧ (UInt8.ofNat (decimalDigits n)).toNat ≤ 38) ∧
      ∀ x ∈ digits, fitsPrecision (UInt8.ofNat (decimalDigits n)) x := by
    intro n hn hdigits
    have hle : decimalDigits n ≤ 20 := decimalDigits_le (k := 19) hn
    have hpos : 1 ≤ decimalDigits n := by
      rw [decimalDigits]
      split <;> omega
    have hsize : UInt8.size = 256 := rfl
    rw [UInt8.toNat_ofNat_of_lt' (by omega)]
    refine ⟨⟨hpos, by omega⟩, ?_⟩
    intro x hx
    rw [mem_def.mp hx, map_some, some_inj] at hdigits
    rw [fitsPrecision, UInt8.toNat_ofNat_of_lt' (by omega), hdigits]
    exact lt_pow_decimalDigits n
  unfold decimalOperandPrecision
  split
  · next info value =>
    rw [BoundExpr.eval, N.literal_int64, some_inj] at heval
    obtain ⟨-, rfl⟩ := N.cell_eq_number heval.symm
    have hlow := value.le_toInt
    have hhigh := value.toInt_lt
    exact ⟨_, rfl, hliteral _ (by omega) rfl⟩
  · next info value =>
    rw [BoundExpr.eval, N.literal_uint64, some_inj] at heval
    obtain ⟨-, rfl⟩ := N.cell_eq_number heval.symm
    have hhigh := value.toNat_lt
    exact ⟨_, rfl, hliteral _ (by omega) rfl⟩
  · by_cases hunsigned : isUnsigned expr.dataType = true
    · rw [if_pos hunsigned]
      exact ⟨20, rfl, by decide, fun x hx => (natAbs_lt_of_fits (hfits x hx) hinteger).1⟩
    · rw [if_neg hunsigned, if_pos hinteger]
      exact ⟨19, rfl, by decide, fun x hx =>
        (natAbs_lt_of_fits (hfits x hx) hinteger).2 (Bool.eq_false_iff.mpr hunsigned)⟩

/-- An operand becomes a decimal of the same value. -/
theorem exists_decimalOperand [DecidableEq V] (htype : isExactNumber expr.dataType = true)
    (heval : expr.eval S outer row = some (N.cell expr.dataType digits))
    (hfits : ∀ x ∈ digits, Fits expr.dataType x) :
    ∃ operand precision scale, decimalOperand expr = .ok operand ∧
      DecimalOperand N outer row operand precision scale
        (digits.map (exactValue expr.dataType)) := by
  by_cases hdecimal : isDecimal expr.dataType = true
  · obtain ⟨precision, scale, hexpr⟩ : ∃ precision scale,
        expr.dataType = .decimal128 precision scale := by
      cases h : expr.dataType <;> rw [h] at hdecimal <;>
        first | exact ⟨_, _, rfl⟩ | cases hdecimal
    refine ⟨expr, precision, scale, by rw [decimalOperand, if_pos hdecimal], ?_⟩
    rw [hexpr] at heval hfits htype ⊢
    exact ⟨hexpr, by simpa [isExactNumber] using htype, digits, heval, hfits, rfl⟩
  · have hinteger : isInteger expr.dataType = true := by
      cases h : expr.dataType <;> rw [h] at hdecimal htype <;>
        first | exact htype | exact absurd rfl hdecimal
    have hnull : expr.dataType ≠ .null := by
      intro h
      rw [h] at hinteger
      cases hinteger
    obtain ⟨precision, hok, hprecision, hroom⟩ :=
      exists_decimalOperandPrecision hinteger heval hfits
    refine ⟨_, precision, 0, ?_, .of_integer hinteger heval hprecision hroom⟩
    rw [decimalOperand, if_neg hdecimal, if_neg hnull, hok]
    rfl

/-- The coerced operands are decimals of the same values. -/
theorem exists_coerceComparison [DecidableEq V] {left right : BoundExpr} {digits' : Option Int}
    (hleft : isExactNumber left.dataType = true) (hright : isExactNumber right.dataType = true)
    (hdecimal : (isDecimal left.dataType || isDecimal right.dataType) = true)
    (heval : left.eval S outer row = some (N.cell left.dataType digits))
    (heval' : right.eval S outer row = some (N.cell right.dataType digits'))
    (hfits : ∀ x ∈ digits, Fits left.dataType x) (hfits' : ∀ x ∈ digits', Fits right.dataType x) :
    ∃ left' right' precision scale precision' scale',
      coerceComparison left right = .ok (left', right') ∧
      DecimalOperand N outer row left' precision scale
        (digits.map (exactValue left.dataType)) ∧
      DecimalOperand N outer row right' precision' scale'
        (digits'.map (exactValue right.dataType)) := by
  obtain ⟨leftOperand, p, s, hok, hoperand⟩ := exists_decimalOperand hleft heval hfits
  obtain ⟨rightOperand, p', s', hok', hoperand'⟩ := exists_decimalOperand hright heval' hfits'
  have hnull : ∀ dataType, isExactNumber dataType = true →
      dataType ≠ .null ∧ isFloat dataType = false := by
    intro dataType h
    cases dataType <;> first | cases h; done | (refine ⟨?_, rfl⟩; simp)
  by_cases hsame : left.dataType = right.dataType
  · rw [hsame, Bool.or_self] at hdecimal
    rw [decimalOperand, hsame, if_pos hdecimal] at hok
    rw [decimalOperand, if_pos hdecimal] at hok'
    cases hok
    cases hok'
    exact ⟨_, _, p, s, p', s', by rw [coerceComparison, if_pos hsame], hoperand, hoperand'⟩
  · rw [coerceComparison, if_neg hsame, if_neg (hnull _ hleft).1, if_neg (hnull _ hright).1,
      if_pos hdecimal, coerceDecimals, (hnull _ hleft).2, (hnull _ hright).2, hok, hok']
    simp only [Bool.or_self, Bool.false_eq_true, if_false, bind, Except.bind,
      hoperand.dataType, hoperand'.dataType]
    rcases losslessCommonDecimal_cases p' s s' hoperand.bounded.1 with
      hnone | ⟨common, hcommon, hsome, hs, hs', hroom, hroom'⟩
    · rw [hnone]
      exact ⟨_, _, p, s, p', s', rfl, hoperand, hoperand'⟩
    · rw [hsome]
      exact ⟨_, _, common, max s s', common, max s s', rfl,
        hoperand.castIfNeeded hcommon hs hroom, hoperand'.castIfNeeded hcommon hs' hroom'⟩

/-! ## Decimal literals -/

/-- The parts before and after the first point. -/
def splitOnce (text : List Char) : Option (List Char × List Char) :=
  match text.dropWhile (· != '.') with
  | [] => none
  | _ :: fraction => some (text.takeWhile (· != '.'), fraction)

/-- The digits before and after the point. -/
def literalParts (value : String) : Except Error (List Char × List Char) :=
  match splitOnce value.toList with
  | some parts => .ok parts
  | none => .error (.internal "fixed-point literal did not contain a decimal point")

/-- The number that a digit stands for. -/
def digitValue (character : Char) : Nat :=
  character.toNat - '0'.toNat

/-- A literal with a point, as the decimal of the digits that are written. -/
def parseDecimal (value : String) : Except Error ScalarValue := do
  let (integer, fraction) ← literalParts value
  rejectIf ((integer ≠ [] ∧ ¬ integer.all Char.isDigit) ∨ ¬ fraction.all Char.isDigit)
    (Error.invalidArgument s!"invalid decimal literal '{value}'")
  rejectIf (127 < fraction.length)
    (Error.invalidArgument s!"decimal literal '{value}' exceeds 38 digits")
  let integerDigits := (integer.dropWhile (· == '0')).length
  let precision := max (integerDigits + fraction.length) 1
  rejectIf (255 < precision)
    (Error.invalidArgument s!"decimal literal '{value}' exceeds 38 digits")
  rejectIf (38 < precision ∨ 38 < fraction.length)
    (Error.invalidArgument s!"decimal literal '{value}' exceeds Decimal128 precision")
  let raw := numberOf 10 ((integer ++ fraction).map digitValue)
  rejectIf (2 ^ 127 ≤ raw)
    (Error.invalidArgument s!"decimal literal '{value}' is out of range")
  .ok (.decimal128 raw (.ofNat precision) (.ofNat fraction.length))

/-- The number written with the digits `integer` before and `fraction` after the point. -/
def writtenValue (integer fraction : List Char) : ℚ :=
  numberOf 10 (integer.map digitValue) +
    numberOf 10 (fraction.map digitValue) / 10 ^ fraction.length

variable {integer fraction : List Char}

theorem splitOnce_eq_some {text : List Char} :
    splitOnce text = some (integer, fraction) ↔
      text = integer ++ '.' :: fraction ∧ '.' ∉ integer := by
  constructor
  · intro h
    unfold splitOnce at h
    split at h
    · cases h
    · next character rest hdrop =>
      cases h
      have hhead := head?_dropWhile_not (· != '.') text
      have htext := takeWhile_append_dropWhile (p := (· != '.')) (l := text)
      rw [hdrop] at hhead htext
      obtain rfl : character = '.' := by simpa using hhead
      exact ⟨htext.symm, fun hmem => by simpa using all_eq_true.mp all_takeWhile _ hmem⟩
  · rintro ⟨rfl, hdot⟩
    have hall : ∀ c ∈ integer, (c != '.') = true :=
      fun c hc => by simpa using ne_of_mem_of_not_mem hc hdot
    rw [splitOnce, dropWhile_append_of_pos hall, takeWhile_append_of_pos hall]
    simp

variable {value : String}

theorem literalParts_eq_ok :
    literalParts value = .ok (integer, fraction) ↔
      value.toList = integer ++ '.' :: fraction ∧ '.' ∉ integer := by
  rw [← splitOnce_eq_some, literalParts]
  cases splitOnce value.toList <;> simp

theorem digitValue_lt {character : Char} (h : character.isDigit = true) :
    digitValue character < 10 := by
  have hle : character.toNat ≤ '9'.toNat := by
    simp only [Char.isDigit, Bool.and_eq_true, decide_eq_true_eq] at h
    exact UInt32.le_iff_toNat_le.mp h.2
  have hnine : '9'.toNat = 57 := rfl
  have hzero : '0'.toNat = 48 := rfl
  rw [digitValue]
  omega

theorem numberOf_dropZeros (text : List Char) :
    numberOf 10 ((text.dropWhile (· == '0')).map digitValue) =
      numberOf 10 (text.map digitValue) := by
  induction text with
  | nil => rfl
  | cons character text ih =>
    by_cases h : character = '0'
    · subst h
      rw [dropWhile_cons_of_pos (by decide), ih, map_cons, numberOf_cons]
      simp [digitValue]
    · rw [dropWhile_cons_of_neg (by simpa using h)]

/-- The digits without leading zeros bound the number. -/
theorem numberOf_lt_pow (hinteger : integer.all Char.isDigit = true)
    (hfraction : fraction.all Char.isDigit = true) :
    numberOf 10 ((integer ++ fraction).map digitValue) <
      10 ^ ((integer.dropWhile (· == '0')).length + fraction.length) := by
  have hdigits : ∀ d ∈ ((integer.dropWhile (· == '0')) ++ fraction).map digitValue, d < 10 := by
    intro d hd
    obtain ⟨character, hmem, rfl⟩ := mem_map.mp hd
    apply digitValue_lt
    rcases mem_append.mp hmem with hmem | hmem
    · exact all_eq_true.mp hinteger _ (dropWhile_subset _ hmem)
    · exact all_eq_true.mp hfraction _ hmem
  have hlt := numberOf_lt hdigits
  rw [length_map, length_append, map_append, numberOf_append, numberOf_dropZeros] at hlt
  rw [map_append, numberOf_append]
  exact hlt

theorem decimalValue_digits (hscale : scale.toInt = fraction.length) :
    decimalValue (numberOf 10 ((integer ++ fraction).map digitValue)) scale =
      writtenValue integer fraction := by
  have hpow : (10 : ℚ) ^ fraction.length ≠ 0 := by positivity
  rw [map_append, numberOf_append, length_map, decimalValue, hscale, zpow_neg,
    zpow_natCast, writtenValue]
  push_cast
  field_simp

/-- The accepted literals: digits, a point and digits, at most 38 of them without the
leading zeros. -/
theorem parseDecimal_eq_ok {scalar : ScalarValue} :
    parseDecimal value = .ok scalar ↔
      ∃ integer fraction, value.toList = integer ++ '.' :: fraction ∧
        integer.all Char.isDigit = true ∧ fraction.all Char.isDigit = true ∧
        (integer.dropWhile (· == '0')).length + fraction.length ≤ 38 ∧
        scalar = .decimal128 (numberOf 10 ((integer ++ fraction).map digitValue))
          (.ofNat (max ((integer.dropWhile (· == '0')).length + fraction.length) 1))
          (.ofNat fraction.length) := by
  rw [parseDecimal]
  constructor
  · intro h
    simp only [bind_eq_ok, rejectIf_eq_ok, not_or, not_and_or, not_not] at h
    obtain ⟨⟨integer, fraction⟩, hparts, -, hdigits, -, -, -, -, -, hprecision, -, -, ⟨⟩⟩ := h
    dsimp only at hprecision
    have hinteger : integer.all Char.isDigit = true := by
      rcases hdigits.1 with rfl | hall
      · rfl
      · exact hall
    exact ⟨integer, fraction, (literalParts_eq_ok.mp hparts).1, hinteger, hdigits.2, by omega, rfl⟩
  · rintro ⟨integer, fraction, hvalue, hinteger, hfraction, hlength, rfl⟩
    have hdot : '.' ∉ integer := fun hmem =>
      absurd (all_eq_true.mp hinteger _ hmem) (by decide)
    have hraw := numberOf_lt_pow hinteger hfraction
    have hpow : 10 ^ ((integer.dropWhile (· == '0')).length + fraction.length) ≤ 10 ^ 38 :=
      Nat.pow_le_pow_right (by norm_num) hlength
    refine bind_eq_ok.mpr ⟨(integer, fraction), literalParts_eq_ok.mpr ⟨hvalue, hdot⟩, ?_⟩
    simp only [check_bind_eq_ok, rejectIf_eq_ok]
    exact ⟨by simp [hinteger, hfraction], by omega, by omega, by omega, by omega, trivial⟩

/-- A literal has its written value, which fits its type. -/
theorem parsed_value (hinteger : integer.all Char.isDigit = true)
    (hfraction : fraction.all Char.isDigit = true)
    (hlength : (integer.dropWhile (· == '0')).length + fraction.length ≤ 38) :
    decimalValue (numberOf 10 ((integer ++ fraction).map digitValue)) (.ofNat fraction.length) =
        writtenValue integer fraction ∧
      fitsPrecision (.ofNat (max ((integer.dropWhile (· == '0')).length + fraction.length) 1))
        (numberOf 10 ((integer ++ fraction).map digitValue)) := by
  have hsize : UInt8.size = 256 := rfl
  constructor
  · exact decimalValue_digits (Int8.toInt_ofNat_of_lt (by omega))
  · rw [fitsPrecision, Int.natAbs_natCast, UInt8.toNat_ofNat_of_lt' (by omega)]
    calc numberOf 10 ((integer ++ fraction).map digitValue)
        < 10 ^ ((integer.dropWhile (· == '0')).length + fraction.length) :=
          numberOf_lt_pow hinteger hfraction
      _ ≤ _ := Nat.pow_le_pow_right (by norm_num) (le_max_left _ _)

/-! ## Exact comparison -/

/-- The cast keeps every value of the source type. -/
def CastsExactly (N : NumberCells S) (source target : DataType) : Prop :=
  ∀ raw, Fits source raw → ∃ raw', S.cast target (N.number source raw) =
    some (N.number target raw') ∧ Fits target raw' ∧ exactValue target raw' = exactValue source raw

theorem castsExactly_of_room {precision' : UInt8} {scale' : Int8} (hprecision : precision'.toNat ≤ 38)
    (hscale : scale.toInt ≤ scale'.toInt)
    (hroom : (precision.toNat : Int) + (scale'.toInt - scale.toInt) ≤ precision'.toNat) :
    CastsExactly N (.decimal128 precision scale) (.decimal128 precision' scale') := by
  intro raw hraw
  obtain ⟨raw', hcast, hfits, hvalue⟩ := castDecimal_exact hraw hprecision hscale hroom
  have hnumber : castNumber (.decimal128 precision scale) (.decimal128 precision' scale') raw =
      some raw' := hcast
  exact ⟨raw', by rw [N.cast_number, hnumber, Option.map_some], hfits, hvalue⟩

theorem castsExactly_common {precision' : UInt8} {scale' : Int8} {common : DataType}
    (hprecision : 1 ≤ precision.toNat)
    (h : losslessCommonDecimal (.decimal128 precision scale) (.decimal128 precision' scale') =
      .ok (some common)) :
    CastsExactly N (.decimal128 precision scale) common ∧
      CastsExactly N (.decimal128 precision' scale') common := by
  rcases losslessCommonDecimal_cases precision' scale scale' hprecision with
    hnone | ⟨digits, hdigits, hsome, hscale, hscale', hroom, hroom'⟩
  · rw [hnone] at h
    cases h
  · rw [hsome] at h
    cases h
    exact ⟨castsExactly_of_room hdigits hscale hroom, castsExactly_of_room hdigits hscale' hroom'⟩

/-- An engine whose cells are numbers and nulls, a Boolean being 0 or 1. -/
def numberScalars : Scalars (Option (DataType × Int)) where
  null := none
  truth value := value.map fun cell => cell.2 ≠ 0
  boolean truth := truth.map fun b => (.boolean, if b then 1 else 0)
  literal
    | .int64 value => some (.int64, value.toInt)
    | .uint64 value => some (.uint64, value.toNat)
    | .decimal128 value precision scale => some (.decimal128 precision scale, value)
    | _ => none
  compare _ _ _ := none
  arithmetic _ _ _ _ := some none
  negate _ := some none
  like _ _ _ _ := some none
  cast target
    | none => some none
    | some (source, digits) => (castNumber source target digits).map fun x => some (target, x)
  function _ _ _ := some none
  truth_boolean b := by rcases b with _ | _ | _ <;> rfl
  literal_null := rfl
  cast_null _ := rfl
  arithmetic_float _ _ _ _ := rfl

/-- These cells hold numbers. -/
def numberCells : NumberCells numberScalars where
  number dataType digits := some (dataType, digits)
  raw value := value.map Prod.snd
  raw_number _ _ := rfl
  raw_null := rfl
  type_unique h := (Prod.mk.inj (Option.some.inj h)).1
  literal_int64 _ := rfl
  literal_uint64 _ := rfl
  literal_decimal128 _ _ _ := rfl
  cast_number source precision scale digits := by
    simp [numberScalars]
  compareKernel op a b := numberScalars.boolean do
    let x ← a
    let y ← b
    some (holds op (compare x.2 y.2))
  compareKernel_eq op a b := by cases a <;> cases b <;> rfl

end Coercion

end RustDb.Sql
