import RustDb.Execution.CellValue
import RustDb.Lib.LittleEndian
import RustDb.Lib.Merging
import RustDb.Sql.Plan

/-!
# Aggregate states

`execution/aggregate/state.rs`: the state of one aggregate of one group.  It takes values one
by one, is written to partial columns when groups are spilled or computed in parallel, and
takes over such columns.

* `AggregateState` with `new`, `update`, `finish`, `partialValues` and `mergePartial`.
* `aggregator`: updates, and merges through the partial columns.
-/

namespace RustDb.Execution.Aggregate

open RustDb.Lib RustDb.Lib.Checked RustDb.Sql Platform LittleEndian

variable {F : Type} [Platform F]

/-! ## Checked arithmetic -/

/-- The smallest `i128`. -/
def i128Min : Int := -2 ^ 127

/-- The largest `i128`. -/
def i128Max : Int := 2 ^ 127 - 1

/-- `i128::checked_add`. -/
def checkedAddI128 (left right : Int) : Option Int :=
  if i128Min ≤ left + right ∧ left + right ≤ i128Max then some (left + right) else none

/-- `u128::checked_add`. -/
def checkedAddU128 (left right : Nat) : Option Nat := fits 128 (left + right)

/-- `i64::checked_add`. -/
def checkedAddI64 (left right : Int64) : Option Int64 :=
  if -2 ^ 63 ≤ left.toInt + right.toInt ∧ left.toInt + right.toInt ≤ 2 ^ 63 - 1 then
    some (Int64.ofInt (left.toInt + right.toInt))
  else none

/-- `u64::checked_add`. -/
def checkedAddU64 (left right : UInt64) : Option UInt64 :=
  (fits 64 (left.toNat + right.toNat)).map UInt64.ofNat

/-! ## States -/

/-- What is kept of the rows of a group that have been seen, for each kind of aggregate. -/
inductive AggregateState (F : Type) where
  | count (count : Int64)
  | sumSigned (value : Int) (seen : Bool) (precision : UInt8)
  | sumUnsigned (value : Nat) (seen : Bool) (precision : UInt8)
  | sumFloat (value : F) (seen : Bool)
  | sumDecimal (value : Int) (seen : Bool) (precision : UInt8)
  | min (current : Option (CellValue F))
  | max (current : Option (CellValue F))
  | avg (sum : F) (count : UInt64)
  | avgDecimal (sum : Int) (count : UInt64) (scale : Int8)

/-- The digits that a sum may have. -/
def sumPrecision (expression : AggregateExpr) : UInt8 :=
  match expression.dataType with
  | .decimal128 precision _ => precision
  | _ => 38

/-- The error of a cell that the planner does not allow for this aggregate. -/
def unexpectedValue (expression : AggregateExpr) (value : CellValue F) : Error :=
  .internal
    ("aggregate " ++ expression.displayName ++ " received incompatible value " ++ value.debug)

namespace AggregateState

/-- The state of no rows; the type of the argument decides which kind it is. -/
def new (expression : AggregateExpr) : AggregateState F :=
  match expression.function with
  | .count => .count 0
  | .sum =>
    match expression.expr.map BoundExpr.dataType with
    | some .uint8 | some .uint16 | some .uint32 | some .uint64 =>
      .sumUnsigned 0 false (sumPrecision expression)
    | some .float16 | some .float32 | some .float64 => .sumFloat zero false
    | some (.decimal128 ..) => .sumDecimal 0 false (sumPrecision expression)
    | _ => .sumSigned 0 false (sumPrecision expression)
  | .min => .min none
  | .max => .max none
  | .avg =>
    match expression.expr.map BoundExpr.dataType with
    | some (.decimal128 _ scale) => .avgDecimal 0 0 scale
    | _ => .avg zero 0

/-- The value of an input that is not null. -/
def nonNull (value : Option (CellValue F)) : Option (CellValue F) :=
  value.filter fun value => !value.isNull

/-- The smaller or larger of the kept value and a new one; a null changes nothing. -/
def updateExtreme (current value : Option (CellValue F)) (maximum : Bool) :
    Result (Option (CellValue F)) :=
  match nonNull value with
  | none => .ok current
  | some value =>
    match current with
    | none => .ok (some value)
    | some held => do
      let ordering ← held.compare value
      let replace := if maximum then ordering.isLT else ordering.isGT
      .ok (if replace then some value else some held)

/-- One more row.  Nulls count for `COUNT(*)` only; a cell of a type that the planner does not allow
is an internal error. -/
def update (state : AggregateState F) (expression : AggregateExpr)
    (value : Option (CellValue F)) : Result (AggregateState F) :=
  match state with
  | .count rows =>
    if expression.expr.isNone ∨ (nonNull value).isSome then do
      let rows ← orFail (checkedAddI64 rows 1) (.execution "count overflowed INT64")
      .ok (.count rows)
    else .ok (.count rows)
  | .sumSigned sum seen precision =>
    match value.getD .null with
    | .null => .ok (.sumSigned sum seen precision)
    | .int64 value => do
      let sum ← orFail (checkedAddI128 sum value.toInt) (.execution "signed sum overflow")
      .ok (.sumSigned sum true precision)
    | other => .fail (unexpectedValue expression other)
  | .sumUnsigned sum seen precision =>
    match value.getD .null with
    | .null => .ok (.sumUnsigned sum seen precision)
    | .uint64 value => do
      let sum ← orFail (checkedAddU128 sum value.toNat) (.execution "unsigned sum overflow")
      .ok (.sumUnsigned sum true precision)
    | other => .fail (unexpectedValue expression other)
  | .sumFloat sum seen =>
    match value.getD .null with
    | .null => .ok (.sumFloat sum seen)
    | value => do
      let value ← value.asF64
      .ok (.sumFloat (add sum value) true)
  | .sumDecimal sum seen precision =>
    match value.getD .null with
    | .null => .ok (.sumDecimal sum seen precision)
    | .decimal128 value => do
      let sum ← orFail (checkedAddI128 sum value) (.execution "decimal sum overflowed i128")
      .ok (.sumDecimal sum true precision)
    | other => .fail (unexpectedValue expression other)
  | .min current => do
    let current ← updateExtreme current value false
    .ok (.min current)
  | .max current => do
    let current ← updateExtreme current value true
    .ok (.max current)
  | .avg sum rows =>
    match nonNull value with
    | none => .ok (.avg sum rows)
    | some value => do
      let value ← value.asF64
      let rows ← orFail (checkedAddU64 rows 1) (.execution "average count overflow")
      .ok (.avg (add sum value) rows)
  | .avgDecimal sum rows scale =>
    match nonNull value with
    | none => .ok (.avgDecimal sum rows scale)
    | some (.decimal128 value) => do
      let sum ←
        orFail (checkedAddI128 sum value) (.execution "decimal average sum overflowed i128")
      let rows ← orFail (checkedAddU64 rows 1) (.execution "decimal average count overflow")
      .ok (.avgDecimal sum rows scale)
    | some other => .fail (unexpectedValue expression other)

/-- `decimal_value`, of which `10_i128.checked_pow` is the first line. -/
def decimalValue (value : Int) (precision : UInt8) (operation : String) :
    Result (CellValue F) :=
  let limit : Int := 10 ^ precision.toNat
  if i128Max < limit then
    .fail (.execution s!"decimal {operation} precision overflow")
  else if value ≤ -limit ∨ limit ≤ value then
    .fail (.execution s!"decimal {operation} exceeds precision {precision}")
  else .ok (.decimal128 value)

/-- The value of the aggregate; a sum of no values is null. -/
def finish (state : AggregateState F) : Result (CellValue F) :=
  match state with
  | .count value => .ok (.int64 value)
  | .sumSigned value seen precision =>
    if seen then decimalValue value precision "sum" else .ok .null
  | .sumUnsigned value seen precision =>
    if seen then
      if i128Max < value then .fail (.execution "sum overflowed DECIMAL128")
      else decimalValue value precision "sum"
    else .ok .null
  | .sumFloat value seen => if seen then .ok (.float64 value) else .ok .null
  | .sumDecimal value seen precision =>
    if seen then decimalValue value precision "sum" else .ok .null
  | .min value | .max value => .ok (value.getD .null)
  | .avg sum rows =>
    if rows = 0 then .ok .null
    else .ok (.float64 (div sum (ofInt rows.toNat)))
  | .avgDecimal sum rows scale =>
    if rows = 0 then .ok .null
    else
      .ok (.float64 (mul
        (div (ofInt sum) (ofInt rows.toNat))
        (powi (ofInt 10) (-scale.toInt))))

/-! ## Partial columns -/

/-- `i128::to_le_bytes`. -/
def encodeI128 (value : Int) : CellValue F :=
  .binary (bytes 16 (value % 2 ^ 128).toNat)

/-- `u128::to_le_bytes`. -/
def encodeU128 (value : Nat) : CellValue F := .binary (bytes 16 value)

/-- The cells that a state is spilled as. -/
def partialValues (state : AggregateState F) : Result (List (CellValue F)) :=
  match state with
  | .avg sum rows => .ok [.float64 sum, .uint64 rows]
  | .avgDecimal sum rows _ => .ok [encodeI128 sum, .uint64 rows]
  | .sumSigned value seen _ => .ok [encodeI128 value, .boolean seen]
  | .sumUnsigned value seen _ => .ok [encodeU128 value, .boolean seen]
  | .sumFloat value seen => .ok [.float64 value, .boolean seen]
  | .sumDecimal value seen _ => .ok [encodeI128 value, .boolean seen]
  | state => do
    let value ← state.finish
    .ok [value]

/-- The sixteen bytes of a spilled sum. -/
def decode128 (expression : AggregateExpr) (value : CellValue F) : Result (List UInt8) :=
  match value with
  | .binary bytes =>
    if bytes.length = 16 then .ok bytes
    else
      .fail (.execution ("aggregate " ++ expression.displayName ++ " found a " ++
        toString bytes.length ++ "-byte 128-bit spill partial"))
  | other => .fail (unexpectedValue expression other)

/-- `i128::from_le_bytes`. -/
def decodeI128 (expression : AggregateExpr) (value : CellValue F) : Result Int := do
  let bytes ← decode128 expression value
  let unsigned := LittleEndian.value bytes
  .ok (if unsigned < 2 ^ 127 then unsigned else unsigned - 2 ^ 128)

/-- `u128::from_le_bytes`. -/
def decodeU128 (expression : AggregateExpr) (value : CellValue F) : Result Nat := do
  let bytes ← decode128 expression value
  .ok (LittleEndian.value bytes)

/-- The flag in a spilled state. -/
def asBoolean (expression : AggregateExpr) (value : CellValue F) : Result Bool :=
  match value with
  | .boolean value => .ok value
  | other => .fail (unexpectedValue expression other)

/-- The count in a spilled state. -/
def asUInt64 (expression : AggregateExpr) (value : CellValue F) : Result UInt64 :=
  match value with
  | .uint64 value => .ok value
  | other => .fail (unexpectedValue expression other)

/-- `merge_partial`, of the columns that belong to the aggregate.  Each kind of state adds what a
spilled state of its kind has summed, with the overflow checks of its type. -/
def mergePartial (state : AggregateState F) (expression : AggregateExpr)
    (columns : List (CellValue F)) : Result (AggregateState F) :=
  match state with
  | .count current => do
    let value ← index columns 0
    match value with
    | .int64 value => do
      let rows ← orFail (checkedAddI64 current value)
        (.execution "count overflowed INT64 while merging spill partitions")
      .ok (.count rows)
    | other => .fail (unexpectedValue expression other)
  | .avg sum rows => do
    let partialSum ← index columns 0
    let partialCount ← index columns 1
    match partialSum with
    | .float64 partialSum => do
      let partialCount ← asUInt64 expression partialCount
      let rows ← orFail (checkedAddU64 rows partialCount)
        (.execution "average count overflow while merging spill partitions")
      .ok (.avg (add sum partialSum) rows)
    | other => .fail (unexpectedValue expression other)
  | .avgDecimal sum rows scale => do
    let partialSum ← index columns 0
    let partialCount ← index columns 1
    let partialSum ← decodeI128 expression partialSum
    let partialCount ← asUInt64 expression partialCount
    let sum ← orFail (checkedAddI128 sum partialSum)
      (.execution "decimal average overflow while merging spill partitions")
    let rows ← orFail (checkedAddU64 rows partialCount)
      (.execution "decimal average count overflow while merging spill partitions")
    .ok (.avgDecimal sum rows scale)
  | .sumSigned value seen precision => do
    let partialSum ← index columns 0
    let partialSeen ← index columns 1
    let partialSum ← decodeI128 expression partialSum
    let partialSeen ← asBoolean expression partialSeen
    let value ← orFail (checkedAddI128 value partialSum)
      (.execution "sum overflow while merging spill partitions")
    .ok (.sumSigned value (seen || partialSeen) precision)
  | .sumUnsigned value seen precision => do
    let partialSum ← index columns 0
    let partialSeen ← index columns 1
    let partialSum ← decodeU128 expression partialSum
    let partialSeen ← asBoolean expression partialSeen
    let value ← orFail (checkedAddU128 value partialSum)
      (.execution "sum overflow while merging spill partitions")
    .ok (.sumUnsigned value (seen || partialSeen) precision)
  | .sumFloat value seen => do
    let partialSum ← index columns 0
    let partialSeen ← index columns 1
    match partialSum with
    | .float64 partialSum => do
      let partialSeen ← asBoolean expression partialSeen
      .ok (.sumFloat (add value partialSum) (seen || partialSeen))
    | other => .fail (unexpectedValue expression other)
  | .sumDecimal value seen precision => do
    let partialSum ← index columns 0
    let partialSeen ← index columns 1
    let partialSum ← decodeI128 expression partialSum
    let partialSeen ← asBoolean expression partialSeen
    let value ← orFail (checkedAddI128 value partialSum)
      (.execution "decimal sum overflow while merging spill partitions")
    .ok (.sumDecimal value (seen || partialSeen) precision)
  | .min current => do
    let value ← index columns 0
    (AggregateState.min current).update expression (some value)
  | .max current => do
    let value ← index columns 0
    (AggregateState.max current).update expression (some value)

/-- A state takes over the partial columns of another. -/
def merge (expression : AggregateExpr) (state other : AggregateState F) :
    Result (AggregateState F) := do
  let columns ← other.partialValues
  state.mergePartial expression columns

end AggregateState

/-- The states of one aggregate. -/
def aggregator (F : Type) [Platform F] (expression : AggregateExpr) :
    Aggregator (Option (CellValue F)) (AggregateState F) (Failure Error) where
  new := .new expression
  update := fun state value => state.update expression value
  merge := AggregateState.merge expression

/-- The value of an aggregate, if its evaluation does not fail. -/
def outcome (expression : AggregateExpr) (e : Evaluation (Option (CellValue F))) :
    Option (CellValue F) :=
  (e.run (aggregator F expression) >>= AggregateState.finish).toOption

end RustDb.Execution.Aggregate
