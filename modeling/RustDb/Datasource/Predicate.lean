import Mathlib.Algebra.Order.Field.Rat

/-!
# Predicates of scans

The expressions that a scan hands to its data source.

* `PredicateValue`, `ComparisonOp`, `ScanPredicate`: the syntax.
-/

namespace RustDb.Datasource

/-- A value that can be compared with statistics.  A float is given by its bits. -/
inductive PredicateValue where
  | boolean (value : Bool)
  | int64 (value : Int64)
  | uint64 (value : UInt64)
  | float64 (bits : UInt64)
  | utf8 (value : String)
  | binary (value : List UInt8)
  | date32 (value : Int32)
  | timestampMicros (value : Int64)
  | decimal128 (value : Int) (precision : UInt8) (scale : Int8)
deriving DecidableEq, Repr

/-- The comparisons of a column with a constant. -/
inductive ComparisonOp where
  | eq
  | notEq
  | lt
  | ltEq
  | gt
  | gtEq
deriving DecidableEq, Repr

/-- The predicates that a data source understands. -/
inductive ScanPredicate where
  | comparison (column : Nat) (op : ComparisonOp) (value : PredicateValue)
  | isNull (column : Nat)
  | isNotNull (column : Nat)
  | and (predicates : List ScanPredicate)
  | or (predicates : List ScanPredicate)

end RustDb.Datasource
