import RustDb.Execution.Error
import RustDb.Lib.Checked
import RustDb.Sql.Expr

/-!
# Cell values

`execution/value.rs`: the values that grouping, sorting and aggregation take out of Arrow
arrays.  Intervals of all units are compared as a number of nanoseconds, with months of 30
days, so that different intervals may be equal.

* `Platform`: the operations on `f64` and the texts of `Debug`, which are taken as given.
* `CellValue` and `CellValue.compare`.
* `CellValue.HasType`: the cells that `cell` takes out of an array of a type.
-/

namespace RustDb.Execution

open RustDb.Lib RustDb.Sql

/-- The operations on `f64` that the code uses, and the `Debug` texts of floats and strings. -/
class Platform (F : Type) where
  zero : F
  add : F → F → F
  mul : F → F → F
  div : F → F → F
  ofInt : Int → F
  powi : F → Int → F
  compare : F → F → Ordering
  debug : F → String
  debugText : String → String

/-- The result of a function that returns an error or panics. -/
abbrev Result (α : Type) := Checked Error α

/-- A cell that groups, aggregates and joins compare, over the floats of a platform. -/
inductive CellValue (F : Type) where
  | null
  | boolean (value : Bool)
  | int64 (value : Int64)
  | uint64 (value : UInt64)
  | float64 (value : F)
  | utf8 (value : String)
  | binary (value : List UInt8)
  | decimal128 (value : Int)
  | intervalYearMonth (months : Int32)
  | intervalDayTime (days millis : Int32)
  | intervalMonthDayNano (months days : Int32) (nanos : Int64)
deriving DecidableEq

/-- The kinds of cells. -/
inductive CellKind where
  | null
  | boolean
  | int64
  | uint64
  | float64
  | utf8
  | binary
  | decimal128
  | intervalYearMonth
  | intervalDayTime
  | intervalMonthDayNano
deriving DecidableEq, Repr

/-- The variant in which `cell` returns the values of an array of the type; arrays of a
dictionary or of nested values are left out. -/
def cellKind : DataType → Option CellKind
  | .boolean => some .boolean
  | .int8 | .int16 | .int32 | .int64 | .date32 | .date64 | .time32 _ | .time64 _
  | .timestamp .. | .duration _ => some .int64
  | .uint8 | .uint16 | .uint32 | .uint64 => some .uint64
  | .float16 | .float32 | .float64 => some .float64
  | .utf8 | .largeUtf8 => some .utf8
  | .binary | .largeBinary | .fixedSizeBinary _ => some .binary
  | .decimal128 .. => some .decimal128
  | .interval .yearMonth => some .intervalYearMonth
  | .interval .dayTime => some .intervalDayTime
  | .interval .monthDayNano => some .intervalMonthDayNano
  | .null | .dictionary .. | .nested _ => none

namespace CellValue

variable {F : Type}

/-- The cell is null. -/
def isNull : CellValue F → Bool
  | .null => true
  | _ => false

/-- How an error shows a cell. -/
def debug [Platform F] : CellValue F → String
  | .null => "Null"
  | .boolean value => s!"Boolean({value})"
  | .int64 value => s!"Int64({value})"
  | .uint64 value => s!"UInt64({value})"
  | .float64 value => "Float64(" ++ Platform.debug value ++ ")"
  | .utf8 value => "Utf8(" ++ Platform.debugText F value ++ ")"
  | .binary value => "Binary([" ++ ", ".intercalate (value.map toString) ++ "])"
  | .decimal128 value => s!"Decimal128({value})"
  | .intervalYearMonth months => s!"IntervalYearMonth({months})"
  | .intervalDayTime days millis => s!"IntervalDayTime({days}, {millis})"
  | .intervalMonthDayNano months days nanos =>
    s!"IntervalMonthDayNano({months}, {days}, {nanos})"

/-- The float nearest to a number. -/
def asF64 [Platform F] : CellValue F → Result F
  | .int64 value => .ok (Platform.ofInt value.toInt)
  | .uint64 value => .ok (Platform.ofInt value.toNat)
  | .float64 value => .ok value
  | other => .fail (.execution ("expected numeric value, got " ++ other.debug))

/-- The nanoseconds of a day in a comparison of intervals. -/
def nanosPerDay : Int := 86400000000000

/-- The nanoseconds of a month in a comparison of intervals. -/
def nanosPerMonth : Int := 30 * nanosPerDay

/-- `interval_comparison_nanos`; the sums are far from the range of an `i128`. -/
def intervalComparisonNanos : CellValue F → Option Int
  | .intervalYearMonth months => some (months.toInt * nanosPerMonth)
  | .intervalDayTime days millis => some (days.toInt * nanosPerDay + millis.toInt * 1000000)
  | .intervalMonthDayNano months days nanos =>
    some (months.toInt * nanosPerMonth + days.toInt * nanosPerDay + nanos.toInt)
  | _ => none

/-- The comparison of two cells that are not intervals. -/
def compareCells [Platform F] : CellValue F → CellValue F → Result Ordering
  | .boolean left, .boolean right => .ok (Ord.compare left right)
  | .int64 left, .int64 right => .ok (Ord.compare left right)
  | .uint64 left, .uint64 right => .ok (Ord.compare left right)
  | .float64 left, .float64 right => .ok (Platform.compare left right)
  | .utf8 left, .utf8 right => .ok (Ord.compare left right)
  | .binary left, .binary right => .ok (Ord.compare left right)
  | .decimal128 left, .decimal128 right => .ok (Ord.compare left right)
  | left, right =>
    .fail (.execution ("cannot compare " ++ left.debug ++ " and " ++ right.debug))

/-- The order of two cells: intervals by their length, others within their kind. -/
def compare [Platform F] (left right : CellValue F) : Result Ordering :=
  match left.intervalComparisonNanos, right.intervalComparisonNanos with
  | some leftNanos, some rightNanos => .ok (Ord.compare leftNanos rightNanos)
  | _, _ => compareCells left right

/-- The range of an `i128`. -/
def I128 (value : Int) : Prop := -2 ^ 127 ≤ value ∧ value ≤ 2 ^ 127 - 1

instance (value : Int) : Decidable (I128 value) :=
  inferInstanceAs (Decidable (-2 ^ 127 ≤ value ∧ value ≤ 2 ^ 127 - 1))

/-- The variant of a cell. -/
def kind : CellValue F → CellKind
  | .null => .null
  | .boolean _ => .boolean
  | .int64 _ => .int64
  | .uint64 _ => .uint64
  | .float64 _ => .float64
  | .utf8 _ => .utf8
  | .binary _ => .binary
  | .decimal128 _ => .decimal128
  | .intervalYearMonth _ => .intervalYearMonth
  | .intervalDayTime .. => .intervalDayTime
  | .intervalMonthDayNano .. => .intervalMonthDayNano

/-- The value of a decimal is an `i128`. -/
def InRange : CellValue F → Prop
  | .decimal128 value => I128 value
  | _ => True

instance : DecidablePred (InRange (F := F))
  | .decimal128 value => inferInstanceAs (Decidable (I128 value))
  | .null | .boolean _ | .int64 _ | .uint64 _ | .float64 _ | .utf8 _ | .binary _
  | .intervalYearMonth _ | .intervalDayTime .. | .intervalMonthDayNano .. => isTrue trivial

/-- The cells that `cell` takes out of an array of the type. -/
def HasType (dataType : DataType) (value : CellValue F) : Prop :=
  value = .null ∨ (cellKind dataType = some value.kind ∧ value.InRange)

end CellValue

/-- A platform without floats. -/
instance : Platform Unit where
  zero := ()
  add := fun _ _ => ()
  mul := fun _ _ => ()
  div := fun _ _ => ()
  ofInt := fun _ => ()
  powi := fun _ _ => ()
  compare := fun _ _ => .eq
  debug := fun _ => ""
  debugText := id

end RustDb.Execution
