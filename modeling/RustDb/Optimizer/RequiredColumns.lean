import RustDb.Sql.Coercion
import RustDb.Sql.WellFormed

/-!
# Required columns

`optimizer/projection.rs` with its module `aggregate_input`: every operator tells its inputs
which of their columns are read above, down to the projections of the scans.  Also
`optimizer/verify.rs`, the check of the plans that may be executed.

* `Verify.executable`: no correlated subquery, outer reference or deferred result is left.
* `AggregateInput.compact`: the columns of a scan that an aggregate reads, moved together by
  a narrow projection.
* `push`: the pass.  It only changes scans, aggregates and the flags of the schemas.
-/

namespace RustDb.Optimizer

open RustDb.Sql RustDb.Execution

/-! ## Executable plans -/

/-- The expressions that a window function is computed from. -/
def windowArguments : WindowFunction → List BoundExpr
  | .aggregate aggregate => aggregate.expr.toList
  | .lead expr _ default | .lag expr _ default => [expr, default]
  | .firstValue expr | .lastValue expr => [expr]
  | .rowNumber | .rank | .denseRank | .ntile _ | .percentRank | .cumeDist => []

/-- All expressions of a window expression. -/
def windowExpressions (expression : WindowExpr) : List BoundExpr :=
  windowArguments expression.function ++ expression.partitionBy ++
    expression.orderBy.map SortExpr.expr

namespace Verify

/-- The error of a plan with a correlated subquery. -/
def dependentJoinRemained : Error :=
  .internal "DependentJoin remained after decorrelation; physical execution is forbidden"

/-- An expression that is run may neither refer to an outer row nor to a deferred aggregate. -/
def check (expression : BoundExpr) : Except Error Unit :=
  if expression.containsDeferredAggregate then
    .error (.internal ("deferred aggregate result remained after attachment planning in " ++
      s!"'{expression.displayName}'; physical execution is forbidden"))
  else if expression.containsOuterRef then
    .error (.internal "OuterRef remained after decorrelation; physical execution is forbidden")
  else .ok ()

/-- All of the expressions can be run. -/
def checkMany (expressions : List BoundExpr) : Except Error Unit := expressions.forM check

/-- An expression, if there is one, can be run. -/
def checkOptional (expression : Option BoundExpr) : Except Error Unit :=
  checkMany expression.toList

/-- The two keys of a hash join can be run and have one type. -/
def checkKeys (pair : BoundExpr × BoundExpr) : Except Error Unit := do
  check pair.1
  check pair.2
  if pair.1.dataType = pair.2.dataType then .ok ()
  else .error (.internal (s!"physical join hash key types differ for '{pair.1.displayName}' " ++
    s!"({pair.1.dataType.display}) and '{pair.2.displayName}' ({pair.2.dataType.display})"))

/-- The keys and the other expressions of a join condition can be run. -/
def checkCondition (condition : JoinCondition) : Except Error Unit := do
  condition.on.forM checkKeys
  checkOptional condition.residual
  match condition.nullAware with
  | none => .ok ()
  | some pair => do
    check pair.1
    check pair.2

mutual

/-- `verify::executable`: every operator of the plan can be run.  Dependent joins and outer
references are left only when decorrelation has missed one. -/
def executable : LogicalPlan → Except Error Unit
  | .dependentJoin .. => .error dependentJoinRemained
  | .empty .. => .ok ()
  | .scan source => checkOptional source.pushedFilter
  | .filter input predicate _ => do
    check predicate
    executable input
  | .projection input expressions _ => do
    checkMany expressions
    executable input
  | .scalarize input _ => executable input
  | .limit input _ _ _ => executable input
  | .aggregate input groupExprs aggregateExprs _ => do
    checkMany groupExprs
    aggregateExprs.forM fun aggregate => checkOptional aggregate.expr
    executable input
  | .append inputs _ => executableAll inputs
  | .repeatRows input count _ => do
    check count
    executable input
  | .window input expressions _ => do
    expressions.forM fun expression => checkMany (windowExpressions expression)
    executable input
  | .sort input expressions _ _ => do
    expressions.forM fun expression => check expression.expr
    executable input
  | .join left right condition _ _ => do
    checkCondition condition
    executable left
    executable right

/-- All of the plans can be run. -/
def executableAll : List LogicalPlan → Except Error Unit
  | [] => .ok ()
  | input :: inputs => do
    executable input
    executableAll inputs

end

end Verify

/-! ## Columns -/

/-- `sort_unstable` and `dedup`. -/
def sortedColumns (columns : List Nat) : List Nat := (columns.insertionSort (· ≤ ·)).eraseDups

/-- The projection of a scan that reads these columns. -/
def setProjection (columns : List Nat) : Option (List Nat) := some (sortedColumns columns)

/-- The columns that some expressions read. -/
def referencedColumns (expressions : List BoundExpr) : List Nat :=
  expressions.flatMap BoundExpr.referencedColumns

/-- The columns that the arguments of aggregates read. -/
def argumentColumns (aggregates : List AggregateExpr) : List Nat :=
  aggregates.flatMap fun aggregate => referencedColumns aggregate.expr.toList

/-- The columns that no operator above reads may be null. -/
def nullableUnrequired (schema : PlanSchema) (required : List Nat) : PlanSchema :=
  ⟨schema.fields.mapIdx fun index field =>
    { field with
      nullable := field.nullable || !decide (index ∈ required)
      materialized := index ∈ required }⟩

/-- Columns and literals, which cost nothing to leave out. -/
def cheaplyPrunable : BoundExpr → Bool
  | .column .. | .literal .. => true
  | _ => false

/-- The first column that an expression reads. -/
def firstReferencedColumn (expressions : List BoundExpr) : Option Nat :=
  expressions.findSome? fun expression => expression.referencedColumns.head?

/-! ## Inputs of aggregates -/

/-- An aggregation without its schema. -/
structure AggregateInput where
  input : LogicalPlan
  groups : List BoundExpr
  aggregates : List AggregateExpr

/-- The columns that a narrow projection keeps, and where each of them is found. -/
structure ProjectionRewrite where
  expressions : List BoundExpr
  schema : PlanSchema
  remap : List (Option Nat)

/-- The given columns, which are read above. -/
def selectMaterialized (schema : PlanSchema) (indices : List Nat) : PlanSchema :=
  ⟨(indices.filterMap (schema.fields[·]?)).map fun field => { field with materialized := true }⟩

/-- The columns have the same types. -/
def samePhysicalSchema (left right : PlanSchema) : Bool :=
  left.width = right.width &&
    (left.fields.zip right.fields).all fun pair => pair.1.dataType = pair.2.dataType

/-- Whether a chain of filters over a scan has a filter. -/
def scanFilterChain : LogicalPlan → Option Bool
  | .scan _ => some false
  | .filter input _ schema =>
    if samePhysicalSchema schema input.schema then
      (scanFilterChain input).map fun _ => true
    else none
  | _ => none

namespace Remap

/-- The columns that an aggregation reads, sorted. -/
def requiredColumns (groups : List BoundExpr) (aggregates : List AggregateExpr) : List Nat :=
  sortedColumns (referencedColumns groups ++ argumentColumns aggregates)

/-- `expression_columns`: no column without a new place, outer reference or deferred
result. -/
def rewriting (remap : List (Option Nat)) : BoundExpr.LeafRewrite where
  column info index := (remap[index]?.join).map (.column info ·)
  outerRef _ _ _ := none
  keepsDeferred := false

/-- An aggregate with its argument rewritten for the new places of columns. -/
def argument (remap : List (Option Nat)) (aggregate : AggregateExpr) : Option AggregateExpr :=
  match aggregate.expr with
  | none => some aggregate
  | some expr =>
    (expr.rewrite (rewriting remap)).map fun expr => { aggregate with expr := some expr }

end Remap

/-- The place of every required column of a schema. -/
def places (width : Nat) (required : List Nat) : List (Option Nat) :=
  required.zipIdx.foldl (fun remap entry => remap.set entry.1 (some entry.2))
    (List.replicate width none)

/-- A reference to a column, if the schema has it. -/
def directColumn (schema : PlanSchema) (index : Nat) : Option BoundExpr :=
  schema.fields[index]?.map fun field => .column ⟨field.dataType, field.name⟩ index

/-- The projection of an input to the required columns. -/
def directProjection (schema : PlanSchema) (required : List Nat) : Option ProjectionRewrite := do
  let expressions ← required.mapM (directColumn schema)
  some ⟨expressions, selectMaterialized schema required, places schema.width required⟩

/-- The column of the source that an output of a projection repeats. -/
def directSource (source schema : PlanSchema) (expression : BoundExpr) (output : Nat) :
    Option Nat :=
  match expression with
  | .column info index => do
    let sourceField ← source.fields[index]?
    let outputField ← schema.fields[output]?
    if info.dataType = sourceField.dataType ∧ outputField.dataType = sourceField.dataType ∧
        index < source.width then some index
    else none
  | _ => none

/-- The columns that are kept so far. -/
structure Selection where
  remap : List (Option Nat)
  uniqueSources : List Nat
  selectedOutputs : List Nat
  selectedExpressions : List BoundExpr

/-- Keeps an output, unless an output with the same source is kept. -/
def Selection.select (direct : List Nat) (expressions : List BoundExpr) (selection : Selection)
    (oldIndex : Nat) : Option Selection := do
  let sourceIndex ← direct[oldIndex]?
  match selection.uniqueSources.idxOf? sourceIndex with
  | some index => some { selection with remap := selection.remap.set oldIndex (some index) }
  | none => do
    let expression ← expressions[oldIndex]?
    some
      { remap := selection.remap.set oldIndex (some selection.uniqueSources.length)
        uniqueSources := selection.uniqueSources ++ [sourceIndex]
        selectedOutputs := selection.selectedOutputs ++ [oldIndex]
        selectedExpressions := selection.selectedExpressions ++ [expression] }

/-- A projection of references, with only the required ones of them. -/
def compactDirectProjection (source : LogicalPlan) (expressions : List BoundExpr)
    (schema : PlanSchema) (required : List Nat) : Option ProjectionRewrite := do
  let _ ← scanFilterChain source
  if expressions.length ≠ schema.width then none
  else do
    let direct ← expressions.zipIdx.mapM fun entry =>
      directSource source.schema schema entry.1 entry.2
    let selection ← required.foldlM (Selection.select direct expressions)
      ⟨List.replicate expressions.length none, [], [], []⟩
    some ⟨selection.selectedExpressions, selectMaterialized schema selection.selectedOutputs,
      selection.remap⟩

namespace AggregateInput

/-- The aggregate over a narrow projection of a plan. -/
def overProjection (aggregate : AggregateInput) (source : LogicalPlan)
    (rewrite : ProjectionRewrite) : Option AggregateInput := do
  let groups ← aggregate.groups.mapM fun group =>
    group.rewrite (Remap.rewriting rewrite.remap)
  let aggregates ← aggregate.aggregates.mapM (Remap.argument rewrite.remap)
  some ⟨.projection source rewrite.expressions rewrite.schema, groups, aggregates⟩

/-- The aggregate over a narrow input; nothing when the input stays as it is. -/
def compact (aggregate : AggregateInput) : Option AggregateInput :=
  let required := Remap.requiredColumns aggregate.groups aggregate.aggregates
  match aggregate.input with
  | .projection source expressions schema => do
    let rewrite ← compactDirectProjection source expressions schema required
    aggregate.overProjection source rewrite
  | input => do
    let hasFilter ← scanFilterChain input
    if required.isEmpty ∧ hasFilter = false then none
    else do
      let rewrite ← directProjection input.schema required
      aggregate.overProjection input rewrite

/-- The aggregation over a narrower input where there is one. -/
def compacted (aggregate : AggregateInput) : AggregateInput :=
  aggregate.compact.getD aggregate

/-- The columns of the input that the aggregate reads. -/
def columns (aggregate : AggregateInput) : List Nat :=
  referencedColumns aggregate.groups ++ argumentColumns aggregate.aggregates

end AggregateInput

/-! ## The pass -/

/-- The columns that a scan reads. -/
def scanColumns (source : Scan) (required : List Nat) : List Nat :=
  match source.exactFilter, source.pushedFilter with
  | none, some predicate => required ++ predicate.referencedColumns
  | _, _ => required

/-- The columns that a projection reads.  A scan without columns gives batches without
columns, so one column stays when the projection has any. -/
def projectionColumns (input : PlanSchema) (expressions : List BoundExpr)
    (required : List Nat) : List Nat :=
  let columns := expressions.zipIdx.flatMap fun entry =>
    if entry.2 ∉ required ∧ cheaplyPrunable entry.1 then []
    else entry.1.referencedColumns
  if columns = [] ∧ input.width ≠ 0 then (firstReferencedColumn expressions).toList
  else columns

/-- The columns of the left input that a correlated subquery reads, besides the outer
references. -/
def dependentColumns (leftWidth : Nat) (kind : DependentJoinKind) (guard : Option BoundExpr)
    (required : List Nat) : List Nat :=
  let needle := match kind with
    | .in needle | .inFilter needle _ => [needle]
    | _ => []
  required.filter (· < leftWidth) ++ referencedColumns needle ++ referencedColumns guard.toList

/-- The columns that the residual predicate reads. -/
def residualColumns (condition : JoinCondition) : List Nat :=
  referencedColumns condition.residual.toList

/-- The columns of the left input that the join and its consumers read. -/
def leftColumns (leftWidth : Nat) (condition : JoinCondition) (required : List Nat) :
    List Nat :=
  let columns := required.filter (· < leftWidth) ++
    referencedColumns (condition.on.map Prod.fst) ++
    (residualColumns condition).filter (· < leftWidth) ++
    referencedColumns (condition.nullAware.map Prod.fst).toList
  if columns = [] ∧ leftWidth ≠ 0 then [0] else columns

/-- The columns of the right input that the join and its consumers read. -/
def rightColumns (leftWidth rightWidth : Nat) (condition : JoinCondition) (joinType : JoinType)
    (required : List Nat) : List Nat :=
  let outputs := if joinType.materializesRight then
    (required.filter (leftWidth ≤ ·)).map (· - leftWidth) else []
  let columns := outputs ++ referencedColumns (condition.on.map Prod.snd) ++
    ((residualColumns condition).filter (leftWidth ≤ ·)).map (· - leftWidth) ++
    referencedColumns (condition.nullAware.map Prod.snd).toList
  if columns = [] ∧ rightWidth ≠ 0 ∧ joinType.materializesRight then [0] else columns

mutual

/-- The number of operators of a plan, where an aggregate leaves room for a projection. -/
def weight : LogicalPlan → Nat
  | .empty .. => 1
  | .scan _ => 1
  | .filter input _ _ => weight input + 1
  | .projection input _ _ => weight input + 1
  | .scalarize input _ => weight input + 1
  | .dependentJoin left right _ _ _ => weight left + weight right + 1
  | .aggregate input _ _ _ => weight input + 2
  | .append inputs _ => weightAll inputs + 1
  | .repeatRows input _ _ => weight input + 1
  | .window input _ _ => weight input + 1
  | .sort input _ _ _ => weight input + 1
  | .limit input _ _ _ => weight input + 1
  | .join left right _ _ _ => weight left + weight right + 1

/-- The sum of the weights, larger than each of them. -/
def weightAll : List LogicalPlan → Nat
  | [] => 0
  | input :: inputs => weight input + weightAll inputs + 1

end

variable {aggregate aggregate' : AggregateInput}

theorem overProjection_input {source : LogicalPlan}
    {rewrite : ProjectionRewrite} (h : aggregate.overProjection source rewrite = some aggregate') :
    aggregate'.input = .projection source rewrite.expressions rewrite.schema := by
  obtain ⟨groups, -, h⟩ := Option.bind_eq_some_iff.mp h
  obtain ⟨aggregates, -, h⟩ := Option.bind_eq_some_iff.mp h
  cases h
  rfl

/-- What the narrow input is a projection of. -/
theorem compact_eq_some (h : aggregate.compact = some aggregate') :
    (∃ source expressions schema rewrite, aggregate.input = .projection source expressions schema ∧
      compactDirectProjection source expressions schema
        (Remap.requiredColumns aggregate.groups aggregate.aggregates) = some rewrite ∧
      aggregate.overProjection source rewrite = some aggregate') ∨
    ∃ hasFilter rewrite, scanFilterChain aggregate.input = some hasFilter ∧
      directProjection aggregate.input.schema
        (Remap.requiredColumns aggregate.groups aggregate.aggregates) = some rewrite ∧
      aggregate.overProjection aggregate.input rewrite = some aggregate' := by
  unfold AggregateInput.compact at h
  split at h
  · next source expressions schema hinput =>
    obtain ⟨rewrite, hrewrite, h⟩ := Option.bind_eq_some_iff.mp h
    exact .inl ⟨source, expressions, schema, rewrite, hinput, hrewrite, h⟩
  · obtain ⟨hasFilter, hchain, h⟩ := Option.bind_eq_some_iff.mp h
    split at h
    · cases h
    · obtain ⟨rewrite, hrewrite, h⟩ := Option.bind_eq_some_iff.mp h
      exact .inr ⟨hasFilter, rewrite, hchain, hrewrite, h⟩

theorem weight_compacted_lt (aggregate : AggregateInput) :
    weight aggregate.compacted.input < weight aggregate.input + 2 := by
  unfold AggregateInput.compacted
  cases hcompact : aggregate.compact with
  | none =>
    simp only [Option.getD_none]
    omega
  | some aggregate' =>
    rw [Option.getD_some]
    rcases compact_eq_some hcompact with
      ⟨source, expressions, schema, rewrite, hinput, -, h⟩ | ⟨hasFilter, rewrite, -, -, h⟩
    · rw [overProjection_input h, hinput]
      simp only [weight]
      omega
    · rw [overProjection_input h]
      simp only [weight]
      omega

mutual

/-- The plan that computes the required columns; the others hold any value.  Every operator asks its
inputs for what is required of it and for what it reads itself. -/
def push : LogicalPlan → List Nat → LogicalPlan
  | .empty produceOneRow schema, _ => .empty produceOneRow schema
  | .scan source, required =>
    .scan { source with
      projection := setProjection (scanColumns source required)
      schema := nullableUnrequired source.schema required }
  | .filter input predicate schema, required =>
    .filter (push input (required ++ predicate.referencedColumns)) predicate
      (nullableUnrequired schema required)
  | .projection input expressions schema, required =>
    .projection (push input (projectionColumns input.schema expressions required)) expressions
      (nullableUnrequired schema required)
  | .scalarize input schema, _ => .scalarize (push input [0]) schema
  | .dependentJoin left right kind guard schema, required =>
    .dependentJoin (push left (dependentColumns left.width kind guard required))
      (push right (List.range right.width)) kind guard schema
  | .aggregate input groupExprs aggregateExprs schema, _ =>
    let compacted := AggregateInput.compacted ⟨input, groupExprs, aggregateExprs⟩
    .aggregate (push compacted.input compacted.columns) compacted.groups compacted.aggregates
      schema
  | .append inputs schema, required =>
    .append (pushAll inputs required) (nullableUnrequired schema required)
  | .repeatRows input count schema, required =>
    .repeatRows (push input (required ++ count.referencedColumns)) count
      (nullableUnrequired schema required)
  | .window input expressions schema, required =>
    .window (push input (required.filter (· < input.width) ++
      referencedColumns (expressions.flatMap windowExpressions))) expressions
      (nullableUnrequired schema required)
  | .sort input expressions fetch schema, required =>
    .sort (push input (required ++ referencedColumns (expressions.map SortExpr.expr)))
      expressions fetch (nullableUnrequired schema required)
  | .limit input offset bound schema, required =>
    .limit (push input required) offset bound (nullableUnrequired schema required)
  | .join left right condition joinType schema, required =>
    .join (push left (leftColumns left.width condition required))
      (push right (rightColumns left.width right.width condition joinType required))
      condition joinType (nullableUnrequired schema required)
termination_by plan => weight plan
decreasing_by
  all_goals simp only [weight]
  all_goals first
    | omega
    | exact weight_compacted_lt _

/-- The inputs of an append, which all keep the same columns. -/
def pushAll : List LogicalPlan → List Nat → List LogicalPlan
  | [], _ => []
  | input :: inputs, required => push input required :: pushAll inputs required
termination_by inputs => weightAll inputs
decreasing_by
  all_goals simp only [weightAll]
  all_goals omega

end

/-- The pass: all columns of the whole plan are required. -/
def pushRequiredColumns (plan : LogicalPlan) : LogicalPlan :=
  push plan (List.range plan.width)

end RustDb.Optimizer
