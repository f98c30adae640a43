import RustDb.Sql.Binder
import RustDb.Sql.Plan

/-!
# Set operations

`sql/planner/set_ops.rs` with its modules `types` and `multiset`.

* `commonSetType`: the type to which a column of both inputs is cast.
* `alignInputs`: the inputs, projected to the common types.
* `planMultisetOperation`: `INTERSECT ALL` and `EXCEPT ALL`, by counting the copies of each
  row, joining the counts and repeating the row.
* `planSetOperation`: all set operations.
-/

namespace RustDb.Sql.SetOps

open RustDb.Execution RustDb.Sql.Coercion

/-- The set operators of the SQL parser. -/
inductive SetOperator where
  | union
  | intersect
  | except
  | minus
deriving DecidableEq, Repr

/-- What may stand behind a set operator. -/
inductive SetQuantifier where
  | all
  | distinct
  | none
  | byName
  | allByName
  | distinctByName
deriving DecidableEq, Repr

/-- The keyword of an operator. -/
def SetOperator.display : SetOperator → String
  | .union => "UNION"
  | .intersect => "INTERSECT"
  | .except => "EXCEPT"
  | .minus => "MINUS"

/-! ## Common types -/

/-- The types that rows can be grouped by. -/
def supportsDistinctKey : DataType → Bool
  | .null | .boolean | .int8 | .int16 | .int32 | .int64 | .uint8 | .uint16 | .uint32 | .uint64
  | .float16 | .float32 | .float64 | .decimal128 .. | .utf8 | .largeUtf8 | .binary
  | .largeBinary | .date32 | .date64 | .time32 _ | .time64 _ | .timestamp .. | .interval _
  | .fixedSizeBinary 16 => true
  | _ => false

/-- Lists, structures and maps. -/
def isNested : DataType → Bool
  | .nested _ => true
  | _ => false

/-- The type of the values of a dictionary column. -/
def dictionaryValue : DataType → DataType
  | .dictionary _ value => dictionaryValue value
  | other => other

/-- Whether an integer type is signed, and its bits. -/
def integerKind : DataType → Option (Bool × Nat)
  | .int8 => some (true, 8)
  | .int16 => some (true, 16)
  | .int32 => some (true, 32)
  | .int64 => some (true, 64)
  | .uint8 => some (false, 8)
  | .uint16 => some (false, 16)
  | .uint32 => some (false, 32)
  | .uint64 => some (false, 64)
  | _ => none

/-- The integer type with this sign and number of bits. -/
def integerType : Bool → Nat → Option DataType
  | true, 8 => some .int8
  | true, 16 => some .int16
  | true, 32 => some .int32
  | true, 64 => some .int64
  | false, 8 => some .uint8
  | false, 16 => some .uint16
  | false, 32 => some .uint32
  | false, 64 => some .uint64
  | _, _ => none

/-- The decimal digits that an integer type needs. -/
def integerPrecision : DataType → UInt8
  | .int8 | .uint8 => 3
  | .int16 | .uint16 => 5
  | .int32 | .uint32 => 10
  | .int64 => 19
  | .uint64 => 20
  | _ => 0

/-- The smallest integer type for the values of both, if there is one. -/
def commonInteger (left right : DataType) : Option DataType := do
  let (leftSigned, leftBits) ← integerKind left
  let (rightSigned, rightBits) ← integerKind right
  if leftSigned = rightSigned then integerType leftSigned (max leftBits rightBits)
  else
    let (signedBits, unsignedBits) :=
      if leftSigned then (leftBits, rightBits) else (rightBits, leftBits)
    let signed := ([8, 16, 32, 64].find? fun bits =>
      decide (signedBits ≤ bits) && decide (unsignedBits < bits)).bind (integerType true)
    signed <|> some (.decimal128 (max (integerPrecision left) (integerPrecision right)) 0)

/-- The precision and scale at which a type joins decimals. -/
def decimalSpec (dataType : DataType) : Except String (Option (UInt8 × Int8)) :=
  match dataType with
  | .decimal128 precision scale =>
    if precision = 0 ∨ 38 < precision ∨ scale < 0 ∨ (precision.toNat : Int) < scale.toInt then
      .error s!"invalid Decimal128 precision/scale ({precision}, {scale})"
    else .ok (some (precision, scale))
  | other =>
    .ok (if integerPrecision other = 0 then none else some (integerPrecision other, 0))

/-- The decimal type for the values of both; `none` if one is no integer or decimal. -/
def commonDecimalCompatible (left right : DataType) : Except String (Option DataType) := do
  match ← decimalSpec left with
  | none => .ok none
  | some (leftPrecision, leftScale) =>
    match ← decimalSpec right with
    | none => .ok none
    | some (rightPrecision, rightScale) =>
      if !isDecimal left && !isDecimal right then .ok none
      else
        let scale := max leftScale rightScale
        let integerDigits := max ((leftPrecision.toNat : Int) - leftScale.toInt)
          ((rightPrecision.toNat : Int) - rightScale.toInt)
        let precision := integerDigits + scale.toInt
        if 38 < precision then
          .error s!"common Decimal128 requires precision {precision}, exceeding 38"
        else if precision < 0 then .error "invalid decimal precision"
        else .ok (some (.decimal128 (.ofNat precision.toNat) scale))

/-- The units from coarse to fine. -/
def timeUnitRank : TimeUnit → Nat
  | .second => 0
  | .millisecond => 1
  | .microsecond => 2
  | .nanosecond => 3

/-- The finer of two units, the left one if they are equal. -/
def finerTimeUnit (left right : TimeUnit) : TimeUnit :=
  if timeUnitRank right ≤ timeUnitRank left then left else right

/-- The type of a time of day in a unit. -/
def timeType : TimeUnit → DataType
  | .second => .time32 .second
  | .millisecond => .time32 .millisecond
  | .microsecond => .time64 .microsecond
  | .nanosecond => .time64 .nanosecond

/-- The unit of a time of day. -/
def timeUnit : DataType → Option TimeUnit
  | .time32 unit | .time64 unit => some unit
  | _ => none

/-- The common type of types that are neither equal, null, integers nor decimals. -/
def commonOtherType (left right : DataType) : Except String DataType :=
  match left, right with
  | .utf8, .largeUtf8 | .largeUtf8, .utf8 => .ok .largeUtf8
  | .binary, .largeBinary | .largeBinary, .binary => .ok .largeBinary
  | .date32, .timestamp unit none | .timestamp unit none, .date32 => .ok (.timestamp unit none)
  | .interval _, .interval _ => .ok (.interval .monthDayNano)
  | .timestamp leftUnit leftZone, .timestamp rightUnit rightZone =>
    if leftZone.isSome = rightZone.isSome then
      .ok (.timestamp (finerTimeUnit leftUnit rightUnit) (commonTimezone leftZone rightZone))
    else
      .error "cannot align TIMESTAMP WITH TIME ZONE with TIMESTAMP WITHOUT TIME ZONE"
  | left, right =>
    if isFloat left && isFloat right then .ok .float64
    else
      match timeUnit left, timeUnit right with
      | some leftUnit, some rightUnit => .ok (timeType (finerTimeUnit leftUnit rightUnit))
      | _, _ => .error "no lossless common type exists"

/-- The type of an output column for the types of its two inputs, by the first rule that applies. -/
def commonSetType (left right : DataType) : Except String DataType :=
  let left := dictionaryValue left
  let right := dictionaryValue right
  -- An integer stands for a column that is NULL in both inputs.
  if left = .null ∧ right = .null then .ok .int64
  else if left = right ∨ right = .null then .ok left
  else if left = .null then .ok right
  else
    match commonInteger left right with
    | some integer => .ok integer
    | none => do
      match ← commonDecimalCompatible left right with
      | some decimal => .ok decimal
      | none => commonOtherType left right

/-! ## Alignment -/

/-- Matching of columns by name is not supported. -/
def rejectByName : SetQuantifier → Except Error Unit
  | .byName | .allByName | .distinctByName =>
    .error (.unsupported "UNION/INTERSECT/EXCEPT BY NAME is not supported")
  | _ => .ok ()

/-- A reference to a column of an input. -/
def column (field : SchemaField) (index : Nat) : BoundExpr :=
  columnExpr index field.dataType field.name

/-- References to all columns of an input. -/
def columns (schema : PlanSchema) : List BoundExpr :=
  schema.fields.zipIdx.map fun (field, index) => column field index

/-- `PlanSchema::unqualified`. -/
def unqualified (fields : List SchemaField) : PlanSchema :=
  ⟨fields.map fun field => { field with qualifier := none, visible := true }⟩

/-- A visible field without a qualifier. -/
def plainField (name : String) (dataType : DataType) (nullable : Bool) : SchemaField :=
  ⟨name, dataType, nullable, none, true, true⟩

/-- An output column: the name of the left one, the common type, nullable if either is. -/
def alignField (left right : SchemaField) (index : Nat) : Except Error SchemaField :=
  match commonSetType left.dataType right.dataType with
  | .ok dataType => .ok (plainField left.name dataType (left.nullable || right.nullable))
  | .error reason =>
    .error (.invalidArgument s!"set operation column {index + 1} ('{left.name}') has incompatible types {left.dataType.display} and {right.dataType.display}: {reason}")

/-- An input with its columns cast to the types of the output. -/
def alignInput (input : LogicalPlan) (schema : PlanSchema) : LogicalPlan :=
  .projection input
    ((input.schema.fields.zip schema.fields).zipIdx.map fun ((source, target), index) =>
      castIfNeeded (columnExpr index source.dataType target.name) target.dataType)
    schema

/-- Both inputs with the columns of the output, and its schema. -/
def alignInputs (left right : LogicalPlan) :
    Except Error (LogicalPlan × LogicalPlan × PlanSchema) :=
  if left.width ≠ right.width then
    .error (.invalidArgument s!"set operation column count mismatch: left has {left.width} columns but right has {right.width}")
  else do
    let fields ← (left.schema.fields.zip right.schema.fields).zipIdx.mapM
      fun ((left, right), index) => alignField left right index
    let schema := ⟨fields⟩
    .ok (alignInput left schema, alignInput right schema, schema)

/-- Whether rows can be compared by a column. -/
def validateDistinctField (field : SchemaField) : Except Error Unit :=
  if isNested field.dataType then
    .error (.unsupported s!"nested column '{field.name}' of type {field.dataType.display} cannot be used as a DISTINCT set key")
  else if !supportsDistinctKey field.dataType then
    .error (.unsupported s!"column '{field.name}' of type {field.dataType.display} cannot be used as a DISTINCT set key")
  else .ok ()

/-- Whether rows can be compared by all columns. -/
def validateDistinctSchema (schema : PlanSchema) : Except Error Unit :=
  schema.fields.forM validateDistinctField

/-! ## Plans -/

/-- Equal rows become one: an aggregation by all columns without aggregates. -/
def deduplicate (input : LogicalPlan) : LogicalPlan :=
  .aggregate input (columns input.schema) [] input.schema

/-- The columns of two schemas, pair by pair. -/
def setKeys (left right : PlanSchema) : List (BoundExpr × BoundExpr) :=
  (left.fields.zip right.fields).zipIdx.map fun ((left, right), index) =>
    (column left index, column right index)

/-- The condition of the joins: equal keys, with null equal to null. -/
def keyCondition (keys : List (BoundExpr × BoundExpr)) : JoinCondition where
  on := keys
  nullEqualKeys := true
  residual := none
  nullAware := none

/-- The distinct rows of an input with their numbers. -/
def countRows (input : LogicalPlan) (name : String) : LogicalPlan :=
  .aggregate input (columns input.schema)
    [{ function := .count, expr := none, distinct := false, dataType := .int64,
       displayName := name }]
    (unqualified (input.schema.fields ++ [plainField name .int64 false]))

/-- The schema of a join.  The columns of an input that may be filled up become nullable. -/
def joinSchema (left right : PlanSchema) (rightNullable : Bool) : PlanSchema :=
  ⟨left.fields ++ right.fields.map fun field =>
    { field with nullable := field.nullable || rightNullable }⟩

/-- How often a row is repeated: the smaller count of `INTERSECT ALL`, the difference of `EXCEPT
ALL`. -/
def repeatCount (width : Nat) (operator : SetOperator) : Except Error BoundExpr :=
  let left := columnExpr width .int64 "__rustdb_left_count"
  let right := columnExpr (width * 2 + 1) .int64 "__rustdb_right_count"
  if operator = .intersect then do
    let less ← makeBinary left .lt right
    makeCase none [(less, left)] (some right)
  else do
    let zero := int64Literal 0
    let right := .scalarFunction ⟨.int64, "coalesce(__rustdb_right_count, 0)"⟩ .coalesce
      [right, zero]
    let difference ← makeBinary left .subtract right
    let greater ← makeBinary left .gt right
    makeCase none [(greater, difference)] (some zero)

/-- The columns of the left input and the repeat count. -/
def projectCount (input : LogicalPlan) (schema : PlanSchema) (count : BoundExpr) : LogicalPlan :=
  .projection input (columns schema ++ [count])
    (unqualified (schema.fields ++ [plainField "__rustdb_repeat_count" .int64 false]))

/-- `INTERSECT ALL` and `EXCEPT ALL`: both inputs are counted, joined by their columns, and the rows
repeated. -/
def planMultisetOperation (left right : LogicalPlan) (schema : PlanSchema)
    (operator : SetOperator) : Except Error LogicalPlan :=
  if operator ≠ .intersect ∧ operator ≠ .except then
    .error (.internal s!"multiset lowering received {operator.display}")
  else do
    let width := schema.width
    let left := countRows left "__rustdb_left_count"
    let right := countRows right "__rustdb_right_count"
    let joined := .join left right (keyCondition ((setKeys left.schema right.schema).take width))
      (if operator = .intersect then .inner else .left)
      (joinSchema left.schema right.schema (operator ≠ .intersect))
    let count ← repeatCount width operator
    let projected := projectCount joined schema count
    .ok (.repeatRows projected (columnExpr width .int64 "__rustdb_repeat_count") schema)

/-- Whether an operation keeps no copies. -/
def isDistinct : SetOperator → SetQuantifier → Except Error Bool
  | .minus, _ => .error (.unsupported "MINUS is not supported; use EXCEPT")
  | _, .all => .ok false
  | _, _ => .ok true

/-- The columns of all operations but `UNION ALL` are compared. -/
def validateKeys (operator : SetOperator) (distinct : Bool) (schema : PlanSchema) :
    Except Error Unit :=
  if distinct ∨ operator = .intersect ∨ operator = .except then validateDistinctSchema schema
  else .ok ()

/-- The plan of an operation on aligned inputs. -/
def planAligned (left right : LogicalPlan) (schema : PlanSchema) (operator : SetOperator)
    (distinct : Bool) : Except Error LogicalPlan :=
  match operator with
  | .union =>
    let append := .append [left, right] schema
    .ok (if distinct then deduplicate append else append)
  | operator =>
    if distinct then
      let left := deduplicate left
      let right := deduplicate right
      .ok (.join left right (keyCondition (setKeys left.schema right.schema))
        (if operator = .intersect then .semi else .anti) left.schema)
    else planMultisetOperation left right schema operator

/-- The plan of a set operation of two planned inputs. -/
def planSetOperation (left right : LogicalPlan) (operator : SetOperator)
    (quantifier : SetQuantifier) : Except Error LogicalPlan := do
  rejectByName quantifier
  let distinct ← isDistinct operator quantifier
  let (left, right, schema) ← alignInputs left right
  validateKeys operator distinct schema
  planAligned left right schema operator distinct

end RustDb.Sql.SetOps
