import Mathlib.Data.List.Sort
import RustDb.Datasource.Predicate
import RustDb.Lib.PartialLists
import RustDb.Sql.Expr

/-!
# Logical plans

The operators of a query and the relation that a plan computes.

* `PlanSchema`, `JoinType`, `DependentJoinKind`, `LogicalPlan`: the syntax.
* `Engine`: the tables, and the kernels that work on more than one cell.
* `LogicalPlan.eval`: the rows of a plan.  Every operator evaluates its expressions on all
  rows that reach it; `none` is an error.  Rows come in the order of nested loops, so that
  a limit without a sort means the same rows in every plan with the same input.
-/

namespace RustDb.Sql

open RustDb.Lib List

/-! ## Schemas -/

/-- A column of an operator's output. -/
structure SchemaField where
  name : String
  dataType : DataType
  nullable : Bool
  qualifier : Option String
  visible : Bool
  /-- Whether an operator above reads the column, by the metadata of the field. -/
  materialized : Bool
deriving DecidableEq, Repr

/-- The columns of a relation. -/
structure PlanSchema where
  fields : List SchemaField
deriving DecidableEq, Repr

namespace PlanSchema

/-- The number of columns. -/
def width (schema : PlanSchema) : Nat := schema.fields.length

/-- The schema of a plan without columns. -/
def empty : PlanSchema := ⟨[]⟩

/-- A schema of one visible column without a qualifier. -/
def oneField (name : String) (dataType : DataType) (nullable : Bool) : PlanSchema :=
  ⟨[⟨name, dataType, nullable, none, true, true⟩]⟩

end PlanSchema

/-! ## Operators -/

/-- The kinds of joins that are run. -/
inductive JoinType where
  | inner
  | left
  | right
  | full
  | semi
  | anti
  /-- A scalar subquery: an error when several right rows match a left row. -/
  | leftSingle
  /-- Appends a marker instead of the right columns. -/
  | mark
  /-- `NOT IN`. -/
  | nullAwareAnti
deriving DecidableEq, Repr

/-- The kinds of correlated subqueries, which decorrelation replaces. -/
inductive DependentJoinKind where
  | scalar
  | guardedScalar (expression : BoundExpr)
  | exists
  | in (needle : BoundExpr)
  | existsFilter (negated : Bool)
  | inFilter (needle : BoundExpr) (negated : Bool)

/-- An aggregate function with its argument; `COUNT(*)` has none. -/
structure AggregateExpr where
  function : AggregateFunction
  expr : Option BoundExpr
  distinct : Bool
  dataType : DataType
  displayName : String

/-- One key of an `ORDER BY`. -/
structure SortExpr where
  expr : BoundExpr
  descending : Bool
  nullsFirst : Bool

/-- The functions over the rows around a row. -/
inductive WindowFunction where
  | rowNumber
  | rank
  | denseRank
  | ntile (buckets : Nat)
  | percentRank
  | cumeDist
  | lead (expr : BoundExpr) (offset : Nat) (default : BoundExpr)
  | lag (expr : BoundExpr) (offset : Nat) (default : BoundExpr)
  | firstValue (expr : BoundExpr)
  | lastValue (expr : BoundExpr)
  | aggregate (aggregate : AggregateExpr)

/-- What the bounds of a frame count. -/
inductive WindowFrameUnits where
  | rows
  | range
  | groups
deriving DecidableEq, Repr

/-- Where a frame begins or ends, seen from the current row. -/
inductive WindowFrameBound where
  | unboundedPreceding
  | preceding (distance : Nat)
  | currentRow
  | following (distance : Nat)
  | unboundedFollowing
deriving DecidableEq, Repr

/-- The rows around a row that a window function sees. -/
structure WindowFrame where
  units : WindowFrameUnits
  start : WindowFrameBound
  stop : WindowFrameBound
deriving DecidableEq, Repr

/-- A window function with its partitions, its order and its frame. -/
structure WindowExpr where
  function : WindowFunction
  partitionBy : List BoundExpr
  orderBy : List SortExpr
  frame : WindowFrame
  dataType : DataType
  displayName : String

/-- A leaf that reads a table. -/
structure Scan where
  tableName : String
  projection : Option (List Nat)
  pushedFilter : Option BoundExpr
  /-- The filter that the source applies in place of an operator. -/
  exactFilter : Option Datasource.ScanPredicate
  limit : Option Nat
  schema : PlanSchema

/-- What decides which rows of the two inputs of a join meet. -/
structure JoinCondition where
  on : List (BoundExpr × BoundExpr)
  /-- Whether null keys are equal, as in set operations. -/
  nullEqualKeys : Bool
  /-- A predicate over the left columns followed by the right ones. -/
  residual : Option BoundExpr
  /-- The comparison of `IN` and `NOT IN`. -/
  nullAware : Option (BoundExpr × BoundExpr)

/-- The operators of a query, each with the schema of its output.  A `dependentJoin` runs its
subquery for every row, until decorrelation replaces it. -/
inductive LogicalPlan where
  | empty (produceOneRow : Bool) (schema : PlanSchema)
  | scan (source : Scan)
  | filter (input : LogicalPlan) (predicate : BoundExpr) (schema : PlanSchema)
  | projection (input : LogicalPlan) (expressions : List BoundExpr) (schema : PlanSchema)
  | scalarize (input : LogicalPlan) (schema : PlanSchema)
  | dependentJoin (left right : LogicalPlan) (kind : DependentJoinKind)
      (guard : Option BoundExpr) (schema : PlanSchema)
  | aggregate (input : LogicalPlan) (groupExprs : List BoundExpr)
      (aggregateExprs : List AggregateExpr) (schema : PlanSchema)
  | append (inputs : List LogicalPlan) (schema : PlanSchema)
  | repeatRows (input : LogicalPlan) (count : BoundExpr) (schema : PlanSchema)
  | window (input : LogicalPlan) (expressions : List WindowExpr) (schema : PlanSchema)
  | sort (input : LogicalPlan) (expressions : List SortExpr) (fetch : Option Nat)
      (schema : PlanSchema)
  | limit (input : LogicalPlan) (offset : Nat) (bound : Option Nat) (schema : PlanSchema)
  | join (left right : LogicalPlan) (condition : JoinCondition) (joinType : JoinType)
      (schema : PlanSchema)

namespace LogicalPlan

/-- The columns that a plan outputs. -/
def schema : LogicalPlan → PlanSchema
  | .empty _ schema
  | .filter _ _ schema
  | .projection _ _ schema
  | .scalarize _ schema
  | .dependentJoin _ _ _ _ schema
  | .aggregate _ _ _ schema
  | .append _ schema
  | .repeatRows _ _ schema
  | .window _ _ schema
  | .sort _ _ _ schema
  | .limit _ _ _ schema
  | .join _ _ _ _ schema => schema
  | .scan source => source.schema

/-- The number of columns that a plan outputs. -/
def width (plan : LogicalPlan) : Nat := plan.schema.width

/-- Structural induction, with the inputs of `Append`. -/
theorem induction {P : LogicalPlan → Prop}
    (empty : ∀ produceOneRow schema, P (.empty produceOneRow schema))
    (scan : ∀ source, P (.scan source))
    (filter : ∀ input predicate schema, P input → P (.filter input predicate schema))
    (projection : ∀ input expressions schema, P input →
      P (.projection input expressions schema))
    (scalarize : ∀ input schema, P input → P (.scalarize input schema))
    (dependentJoin : ∀ left right kind guard schema, P left → P right →
      P (.dependentJoin left right kind guard schema))
    (aggregate : ∀ input groupExprs aggregateExprs schema, P input →
      P (.aggregate input groupExprs aggregateExprs schema))
    (append : ∀ inputs schema, (∀ input ∈ inputs, P input) → P (.append inputs schema))
    (repeatRows : ∀ input count schema, P input → P (.repeatRows input count schema))
    (window : ∀ input expressions schema, P input → P (.window input expressions schema))
    (sort : ∀ input expressions fetch schema, P input →
      P (.sort input expressions fetch schema))
    (limit : ∀ input offset bound schema, P input → P (.limit input offset bound schema))
    (join : ∀ left right condition joinType schema, P left → P right →
      P (.join left right condition joinType schema)) :
    ∀ plan, P plan := by
  refine @LogicalPlan.rec P (fun inputs => ∀ input ∈ inputs, P input)
    empty scan filter projection scalarize dependentJoin aggregate append repeatRows window
    sort limit join (forall_mem_nil _) ?_
  intro input inputs hinput hinputs
  exact forall_mem_cons.mpr ⟨hinput, hinputs⟩

end LogicalPlan

/-! ## Kernels on relations -/

/-- The tables, and what the kernels compute on several cells.  The laws are those of the source and
of Arrow that results depend on. -/
structure Engine (V : Type) extends Scalars V where
  table : Scan → List (Row V)
  /-- The result of `COUNT` on that many rows or values. -/
  count : Nat → V
  /-- The result on the values of a group that are not null. -/
  aggregate : AggregateFunction → DataType → List V → Option V
  window : List WindowExpr → List (Row V) → List (Row V) → Option (List (Row V))
  /-- Whether a row comes before another, by their sort keys and directions. -/
  before : List (Bool × Bool) → List V → List V → Bool
  repeatCount : V → Option Nat
  /-- The error of Arrow's `RecordBatch::try_new` for so many columns. -/
  batchError : Nat → Option String
  /-- Arrow builds every batch but one without columns. -/
  batchError_eq_none : ∀ width, batchError width = none ↔ 0 < width
  width_table : ∀ source, ∀ row ∈ table source, row.length = source.schema.width
  aggregate_count : ∀ dataType values,
    aggregate .count dataType values = some (count values.length)
  width_window : ∀ expressions outer rows rows', window expressions outer rows = some rows' →
    Forall₂ (fun row row' => row'.length = row.length + expressions.length) rows rows'

/-- A row of a join input with its keys and the operand of its membership test. -/
structure Probe (V : Type) where
  row : Row V
  keys : List V
  member : Option V

section Kernels

variable {V : Type} [DecidableEq V]

namespace Engine

variable (E : Engine V) (outer : List (Row V))

/-- The values of some expressions on a row. -/
def evalRow (expressions : List BoundExpr) (row : Row V) : Option (Row V) :=
  expressions.mapM fun expr => expr.eval E.toScalars outer row

/-- Whether a predicate is true on a row. -/
def holds (predicate : BoundExpr) (row : Row V) : Option Bool :=
  (predicate.eval E.toScalars outer row).map fun value => E.truth value = some true

/-- The rows on which the predicate is true; an error if it fails on one. -/
def filterRows (predicate : BoundExpr) (rows : List (Row V)) : Option (List (Row V)) :=
  tryFilter (E.holds outer predicate) rows

/-- The values of the expressions on every row. -/
def projectRows (expressions : List BoundExpr) (rows : List (Row V)) :
    Option (List (Row V)) :=
  rows.mapM (E.evalRow outer expressions)

/-- Exactly one row; several rows are an error. -/
def scalarizeRows : List (Row V) → Option (List (Row V))
  | [] => some [[E.null]]
  | [row] => some [row]
  | _ => none

/-! ### Aggregates -/

/-- The value of an aggregate on a group of rows; nulls are left out before it. -/
def aggregateValue (group : List (Row V)) (aggregate : AggregateExpr) : Option V :=
  match aggregate.expr with
  | none => some (E.count group.length)
  | some expr => do
    let values ← group.mapM fun row => expr.eval E.toScalars outer row
    let values := values.filter (· ≠ E.null)
    E.aggregate aggregate.function aggregate.dataType
      (if aggregate.distinct then values.eraseDups else values)

/-- The groups in the order of their first rows.  Without group expressions there is one
group, also when there are no rows. -/
def groups (groupExprs : List BoundExpr) (rows : List (Row V)) :
    Option (List (Row V × List (Row V))) :=
  if groupExprs = [] then some [([], rows)]
  else do
    let keys ← rows.mapM (E.evalRow outer groupExprs)
    some (keys.eraseDups.map fun key =>
      (key, ((keys.zip rows).filter fun keyed => keyed.1 = key).map Prod.snd))

/-- Arrow refuses to build a batch with so many columns. -/
def refuses (width : Nat) : Bool := (E.batchError width).isSome

variable {E} in
omit [DecidableEq V] in
@[simp] theorem refuses_iff {width : Nat} : E.refuses width = true ↔ width = 0 := by
  rw [refuses, Option.isSome_iff_ne_none, ne_eq, E.batchError_eq_none, Nat.pos_iff_ne_zero, not_not]

/-- The groups with their aggregates. -/
def aggregateRows (groupExprs : List BoundExpr) (aggregateExprs : List AggregateExpr)
    (rows : List (Row V)) : Option (List (Row V)) :=
  if E.refuses (groupExprs.length + aggregateExprs.length) then none
  else do
    let groups ← E.groups outer groupExprs rows
    groups.mapM fun group => do
      let values ← aggregateExprs.mapM (E.aggregateValue outer group.2)
      some (group.1 ++ values)

/-! ### Order -/

/-- The rows in the order of their keys, equal ones as they came, and the first of them that are
wanted. -/
def sortRows (expressions : List SortExpr) (fetch : Option Nat) (rows : List (Row V)) :
    Option (List (Row V)) := do
  let keys ← rows.mapM (E.evalRow outer (expressions.map SortExpr.expr))
  let directions := expressions.map fun order => (order.descending, order.nullsFirst)
  let sorted := ((keys.zip rows).insertionSort fun a b =>
    E.before directions a.1 b.1 = true).map Prod.snd
  some (sorted.take (fetch.getD sorted.length))

/-- The rows after an offset, up to a limit. -/
def limitRows (offset : Nat) (limit : Option Nat) (rows : List (Row V)) : List (Row V) :=
  (rows.drop offset).take (limit.getD rows.length)

/-- The first `width` columns of every row, as often as `count` says. -/
def repeatedRows (count : BoundExpr) (width : Nat) (rows : List (Row V)) :
    Option (List (Row V)) :=
  tryFlatMap (fun row =>
    if E.refuses width ∨ row.length < width then none
    else do
      let value ← count.eval E.toScalars outer row
      let times ← E.repeatCount value
      some (replicate times (row.take width))) rows

/-! ### Joins -/

/-- The truth value of `left = right` in a membership test. -/
def memberEqual (left right : V) : Option Bool :=
  if left = E.null ∨ right = E.null then none else some (left = right)

/-- `needle IN values`. -/
def membership (needle : V) (values : List V) : Option Bool :=
  if values.any (fun value => E.memberEqual needle value = some true) then some true
  else if values.any (fun value => E.memberEqual needle value = none) then none
  else some false

/-- The rows of one input with their keys. -/
def probes (keys : List BoundExpr) (member : Option BoundExpr) (rows : List (Row V)) :
    Option (List (Probe V)) :=
  rows.mapM fun row => do
    let keys ← E.evalRow outer keys row
    match member with
    | none => some ⟨row, keys, none⟩
    | some expr => do
      let value ← expr.eval E.toScalars outer row
      some ⟨row, keys, some value⟩

/-- Whether the keys of two rows are equal. -/
def keysMatch (nullEqualKeys : Bool) (left right : Probe V) : Bool :=
  left.keys = right.keys ∧ (nullEqualKeys ∨ E.null ∉ left.keys)

/-- Whether two rows meet.  The residual is evaluated only when the keys are equal. -/
def qualifies (condition : JoinCondition) (left right : Probe V) : Option Bool :=
  if E.keysMatch condition.nullEqualKeys left right then
    match condition.residual with
    | none => some true
    | some residual => E.holds outer residual (left.row ++ right.row)
  else some false

/-- The marker of a left row, by the right rows it meets. -/
def marker (left : Probe V) (candidates : List (Probe V)) : Option Bool :=
  match left.member with
  | none => some (!candidates.isEmpty)
  | some needle => E.membership needle (candidates.filterMap Probe.member)

/-- The cells of the side that an outer join found no row for. -/
def nulls (width : Nat) : Row V := replicate width E.null

/-- The rows that a left row contributes, by the right rows it meets.  Only `leftSingle` can fail,
when there are several. -/
def leftOutput (joinType : JoinType) (rightWidth : Nat) (left : Probe V)
    (candidates : List (Probe V)) : Option (List (Row V)) :=
  let pairs := candidates.map fun right => left.row ++ right.row
  match joinType with
  | .inner | .right => some pairs
  | .left | .full =>
    some (if candidates.isEmpty then [left.row ++ E.nulls rightWidth] else pairs)
  | .semi => some (if candidates.isEmpty then [] else [left.row])
  | .anti => some (if candidates.isEmpty then [left.row] else [])
  | .leftSingle =>
    match candidates with
    | [] => some [left.row ++ E.nulls rightWidth]
    | [right] => some [left.row ++ right.row]
    | _ => none
  | .mark => some [left.row ++ [E.boolean (E.marker left candidates)]]
  | .nullAwareAnti => some (if E.marker left candidates = some false then [left.row] else [])

/-- The rows of a join, left row by left row. -/
def leftRows (condition : JoinCondition) (joinType : JoinType) (rightWidth : Nat)
    (lefts rights : List (Probe V)) : Option (List (Row V)) :=
  tryFlatMap (fun left => do
    let candidates ← tryFilter (E.qualifies outer condition left) rights
    E.leftOutput joinType rightWidth left candidates) lefts

/-- The rows of a right join, right row by right row. -/
def rightRows (condition : JoinCondition) (leftWidth : Nat) (lefts rights : List (Probe V)) :
    Option (List (Row V)) :=
  tryFlatMap (fun right => do
    let candidates ← tryFilter (fun left => E.qualifies outer condition left right) lefts
    some (if candidates.isEmpty then [E.nulls leftWidth ++ right.row]
      else candidates.map fun left => left.row ++ right.row)) rights

/-- The right rows that meet no left row, filled up with nulls. -/
def unmatchedRows (condition : JoinCondition) (leftWidth : Nat)
    (lefts rights : List (Probe V)) : Option (List (Row V)) :=
  tryFlatMap (fun right => do
    let candidates ← tryFilter (fun left => E.qualifies outer condition left right) lefts
    some (if candidates.isEmpty then [E.nulls leftWidth ++ right.row] else [])) rights

/-- The output of a join: both inputs' keys are computed, and each kind pairs the rows its own way.
-/
def joinRows (condition : JoinCondition) (joinType : JoinType) (leftWidth rightWidth : Nat)
    (leftInput rightInput : List (Row V)) : Option (List (Row V)) := do
  let lefts ← E.probes outer (condition.on.map Prod.fst) (condition.nullAware.map Prod.fst)
    leftInput
  let rights ← E.probes outer (condition.on.map Prod.snd) (condition.nullAware.map Prod.snd)
    rightInput
  match joinType with
  | .right => E.rightRows outer condition leftWidth lefts rights
  | .full => do
    let matched ← E.leftRows outer condition .full rightWidth lefts rights
    let unmatched ← E.unmatchedRows outer condition leftWidth lefts rights
    some (matched ++ unmatched)
  | joinType => E.leftRows outer condition joinType rightWidth lefts rights

/-! ### Correlated subqueries -/

/-- Whether the subquery of a row is active.  Without a guard it always is. -/
def guardHolds (guard : Option BoundExpr) (row : Row V) : Option Bool :=
  match guard with
  | none => some true
  | some guard => E.holds outer guard row

/-- `needle IN` the first column of the rows of a subquery. -/
def subqueryMembership (needle : BoundExpr) (row : Row V) (rows : List (Row V)) :
    Option (Option Bool) := do
  let value ← needle.eval E.toScalars outer row
  let values ← rows.mapM head?
  some (E.membership value values)

/-- The value of a scalar subquery.  The guard hides the value, not the error that several
rows are. -/
def scalarResult (active : Bool) (value : Row V → Option V) : List (Row V) → Option V
  | [] => some E.null
  | [row] => if active then value row else some E.null
  | _ => none

/-- What a left row contributes, by the rows of its subquery. -/
def dependentOutput (kind : DependentJoinKind) (active : Bool) (row : Row V)
    (rows : List (Row V)) : Option (List (Row V)) :=
  let rows' := if active then rows else []
  match kind with
  | .scalar => do
    let value ← E.scalarResult active head? rows
    some [row ++ [value]]
  | .guardedScalar expression => do
    let value ← E.scalarResult active (expression.eval E.toScalars (row :: outer)) rows
    some [row ++ [value]]
  | .exists => some [row ++ [E.boolean (some (!rows'.isEmpty))]]
  | .in needle => do
    let marker ← E.subqueryMembership outer needle row rows'
    some [row ++ [E.boolean marker]]
  | .existsFilter negated => some (if rows'.isEmpty = negated then [row] else [])
  | .inFilter needle negated => do
    let marker ← E.subqueryMembership outer needle row rows'
    some (if marker = some (!negated) then [row] else [])

/-- A subquery evaluated once for each left row. -/
def dependentRows (kind : DependentJoinKind) (guard : Option BoundExpr)
    (subquery : Row V → Option (List (Row V))) (lefts : List (Row V)) :
    Option (List (Row V)) :=
  tryFlatMap (fun row => do
    let active ← E.guardHolds outer guard row
    let rows ← subquery row
    E.dependentOutput outer kind active row rows) lefts

end Engine

/-! ## Evaluation -/

namespace LogicalPlan

variable (E : Engine V)

mutual

/-- The rows of a plan, `none` being an error.  `outer` are the rows to which its outer references
are bound, the nearest first. -/
def eval : LogicalPlan → List (Row V) → Option (List (Row V))
  | .empty produceOneRow schema, _ =>
    some (if produceOneRow then [E.nulls schema.width] else [])
  | .scan source, _ => some (E.table source)
  | .filter input predicate _, outer => do
    let rows ← eval input outer
    E.filterRows outer predicate rows
  | .projection input expressions _, outer => do
    let rows ← eval input outer
    E.projectRows outer expressions rows
  | .scalarize input _, outer => do
    let rows ← eval input outer
    E.scalarizeRows rows
  | .dependentJoin left right kind guard _, outer => do
    let lefts ← eval left outer
    E.dependentRows outer kind guard (fun row => eval right (row :: outer)) lefts
  | .aggregate input groupExprs aggregateExprs _, outer => do
    let rows ← eval input outer
    E.aggregateRows outer groupExprs aggregateExprs rows
  | .append inputs _, outer => evalAll inputs outer
  | .repeatRows input count schema, outer => do
    let rows ← eval input outer
    E.repeatedRows outer count schema.width rows
  | .window input expressions _, outer => do
    let rows ← eval input outer
    E.window expressions outer rows
  | .sort input expressions fetch _, outer => do
    let rows ← eval input outer
    E.sortRows outer expressions fetch rows
  | .limit input offset bound _, outer => do
    let rows ← eval input outer
    some (Engine.limitRows offset bound rows)
  | .join left right condition joinType _, outer => do
    let lefts ← eval left outer
    let rights ← eval right outer
    E.joinRows outer condition joinType left.width right.width lefts rights

/-- The rows of several plans, one after the other. -/
def evalAll : List LogicalPlan → List (Row V) → Option (List (Row V))
  | [], _ => some []
  | input :: inputs, outer => do
    let rows ← eval input outer
    let rest ← evalAll inputs outer
    some (rows ++ rest)

end

end LogicalPlan

end Kernels

/-! ## Integers

The engine of the concrete runs: nullable integers, with 1 and 0 as truth values. -/

/-- The comparison operators on integers. -/
def BinaryOp.holdsOn (op : BinaryOp) (a b : Int) : Bool :=
  match op with
  | .eq => a = b
  | .notEq => a ≠ b
  | .lt => a < b
  | .ltEq => a ≤ b
  | .gt => b < a
  | .gtEq => b ≤ a
  | _ => false

/-- The arithmetic operators on integers; a division by zero fails. -/
def BinaryOp.resultOn (op : BinaryOp) (a b : Int) : Option Int :=
  match op with
  | .add => some (a + b)
  | .subtract => some (a - b)
  | .multiply => some (a * b)
  | .divide => if b = 0 then none else some (a.tdiv b)
  | .modulo => if b = 0 then none else some (a.tmod b)
  | _ => none

/-- Cells that are integers or null; arithmetic is that of the integers. -/
def Scalars.integers : Scalars (Option Int) where
  null := none
  truth value := value.map (· ≠ 0)
  boolean value := value.map fun b => if b then 1 else 0
  literal
    | .boolean value => some (if value then 1 else 0)
    | .int64 value => some value.toInt
    | .uint64 value => some value.toNat
    | _ => none
  compare op a b := do
    let a ← a
    let b ← b
    some (if op.holdsOn a b then 1 else 0)
  arithmetic op _ a b :=
    match a, b with
    | some a, some b => (op.resultOn a b).map some
    | _, _ => some none
  negate value := some (value.map (- ·))
  like _ _ _ _ := none
  cast _ value := some value
  function _ _ _ := none
  truth_boolean b := by cases b with
    | none => rfl
    | some b => cases b <;> rfl
  literal_null := rfl
  cast_null _ := rfl
  arithmetic_float := by
    intro op dataType hop _ a b
    cases a <;> cases b <;> cases op <;> first | rfl | cases hop

/-- The engine on given tables.  Its sort leaves the rows where they are. -/
def Engine.integers (tables : String → List (Row (Option Int))) : Engine (Option Int) where
  toScalars := Scalars.integers
  table source := (tables source.tableName).filter fun row => row.length = source.schema.width
  count n := some n
  aggregate function _ values :=
    match function with
    | .count => some (some values.length)
    | .sum => some (if values = [] then none else some (values.map (·.getD 0)).sum)
    | _ => none
  window _ _ _ := none
  before _ _ _ := true
  repeatCount value := value.bind fun n => if n < 0 then none else some n.toNat
  batchError width := if width = 0 then some "no columns" else none
  batchError_eq_none width := by simp [Nat.pos_iff_ne_zero]
  width_table source row hrow := of_decide_eq_true (mem_filter.mp hrow).2
  aggregate_count _ _ := rfl
  width_window _ _ _ _ h := by cases h

end RustDb.Sql
