import RustDb.Optimizer.RequiredColumns
import RustDb.Sql.SameColumns

/-!
# Column pruning

The pass `push` keeps the required columns of a plan.

* `Tables`, `WindowKernel`, `reading`: what scans read, with any values in the columns that
  they do not project, and window functions that only read their expressions.
* `eval_compacted`: an aggregate over a narrow input.
* `agree_push`: the rows of the plan before and after the pass agree on the required
  columns, by induction over the weight of the plan.
* `column_pruning_preserves_results`: the pass as a whole.
-/

namespace RustDb.Optimizer

open RustDb.Lib RustDb.Sql RustDb.Execution List Option LogicalPlan Engine Remap

/-! ## Columns -/

theorem mem_sortedColumns {columns : List Nat} {index : Nat} :
    index ∈ sortedColumns columns ↔ index ∈ columns := by
  rw [sortedColumns, mem_eraseDups, mem_insertionSort]

variable {expressions : List BoundExpr} {expr : BoundExpr}

theorem subset_referencedColumns (h : expr ∈ expressions) :
    expr.referencedColumns ⊆ referencedColumns expressions :=
  fun _ hindex => mem_flatMap.mpr ⟨expr, h, hindex⟩

theorem subset_argumentColumns {aggregates : List AggregateExpr} {aggregate : AggregateExpr}
    (h : aggregate ∈ aggregates) (hexpr : aggregate.expr = some expr) :
    expr.referencedColumns ⊆ argumentColumns aggregates := by
  intro index hindex
  refine mem_flatMap.mpr ⟨aggregate, h, ?_⟩
  exact subset_referencedColumns (by rw [hexpr]; exact mem_singleton_self _) hindex

@[simp] theorem width_nullableUnrequired (schema : PlanSchema) (required : List Nat) :
    (nullableUnrequired schema required).width = schema.width :=
  length_mapIdx

theorem width_push (plan : LogicalPlan) (required : List Nat) :
    (push plan required).width = plan.width := by
  cases plan with
  | empty => rw [push]
  | scalarize | dependentJoin | aggregate =>
    rw [push]
    rfl
  | scan | filter | projection | append | repeatRows | window | sort | limit | join =>
    rw [push]
    exact width_nullableUnrequired ..

/-! ## Scans and windows -/

/-- Whether a scan reads a column.  Without a projection it reads all. -/
def projects (source : Scan) (column : Nat) : Bool :=
  match source.projection with
  | none => true
  | some columns => column ∈ columns

/-- The rows of the tables for the filters and the limit of a scan, and the values that
stand in the columns that the scan does not read. -/
structure Tables (V : Type) where
  rows : String → Option BoundExpr → Option Datasource.ScanPredicate → Option Nat → List (Row V)
  placeholder : Scan → Nat → Nat → V

variable {V : Type}

/-- The row of a scan.  A column that the stored row lacks is null.  A scan of no column is
given placeholders here, so that its rows keep their width; `execution/scan.rs` leaves such a
batch without columns. -/
def Tables.readRow (tables : Tables V) (null : V) (source : Scan) (number : Nat)
    (row : Row V) : Row V :=
  (range source.schema.width).map fun column =>
    if projects source column then row.getD column null
    else tables.placeholder source number column

/-- The rows of a scan. -/
def Tables.read (tables : Tables V) (null : V) (source : Scan) : List (Row V) :=
  (tables.rows source.tableName source.pushedFilter source.exactFilter source.limit).mapIdx
    (tables.readRow null source)

/-- The values of window functions, by the values of their expressions on all rows, where
`none` is an expression that fails. -/
structure WindowKernel (V : Type) where
  compute : List WindowExpr → List (List (Option V)) → Option (List (Row V))
  width : ∀ expressions values results, compute expressions values = some results →
    Forall₂ (fun _ result => result.length = expressions.length) values results

/-- The rows of a window operator. -/
def WindowKernel.rows [DecidableEq V] (windows : WindowKernel V) (S : Scalars V)
    (expressions : List WindowExpr) (outer rows : List (Row V)) : Option (List (Row V)) :=
  (windows.compute expressions (rows.map fun row =>
    (expressions.flatMap windowExpressions).map fun expr => expr.eval S outer row)).map
    (zipWith (· ++ ·) rows)

theorem WindowKernel.width_rows [DecidableEq V] (windows : WindowKernel V) (S : Scalars V)
    (expressions : List WindowExpr) (outer rows rows' : List (Row V))
    (h : windows.rows S expressions outer rows = some rows') :
    Forall₂ (fun row row' => row'.length = row.length + expressions.length) rows rows' := by
  obtain ⟨results, hresults, rfl⟩ := map_eq_some_iff.mp h
  have hall := windows.width _ _ _ hresults
  rw [forall₂_map_left_iff] at hall
  clear h hresults
  induction hall with
  | nil => exact .nil
  | cons hresult _ ih => exact .cons (by rw [length_append, hresult]) ih

/-- An engine with its tables and its window functions replaced. -/
def reading [DecidableEq V] (E : Engine V) (tables : Tables V) (windows : WindowKernel V) :
    Engine V where
  toScalars := E.toScalars
  table := tables.read E.null
  count := E.count
  aggregate := E.aggregate
  window := windows.rows E.toScalars
  before := E.before
  repeatCount := E.repeatCount
  batchError := E.batchError
  batchError_eq_none := E.batchError_eq_none
  width_table := by
    intro source row hrow
    obtain ⟨index, hindex, rfl⟩ := mem_mapIdx.mp hrow
    rw [Tables.readRow, length_map, length_range]
  aggregate_count := E.aggregate_count
  width_window := windows.width_rows E.toScalars

section Scans

variable [DecidableEq V] {E : Engine V} {tables : Tables V} {windows : WindowKernel V}
  {outer : List (Row V)}

omit [DecidableEq V] in
theorem sameOn_readRow (hsource : source.projection = none) (number : Nat) (row : Row V) :
    SameOn required (tables.readRow null source number row)
      (tables.readRow null
        { source with
          projection := setProjection (scanColumns source required)
          schema := nullableUnrequired source.schema required } number row) := by
  constructor
  · rw [Tables.readRow, Tables.readRow, length_map, length_map, length_range,
      length_range, width_nullableUnrequired]
  · intro index hindex
    have hread : index ∈ scanColumns source required := by
      unfold scanColumns
      split
      · exact mem_append_left _ hindex
      · exact hindex
    rw [Tables.readRow, Tables.readRow, width_nullableUnrequired, getElem?_map, getElem?_map]
    by_cases hrange : index < source.schema.width
    · rw [getElem?_range hrange]
      simp [projects, hsource, setProjection, mem_sortedColumns, hread]
    · rw [getElem?_eq_none (by rw [length_range]; omega)]
      rfl

omit [DecidableEq V] in
theorem agree_read (hsource : source.projection = none) :
    Agree required (tables.read null source)
      (tables.read null
        { source with
          projection := setProjection (scanColumns source required)
          schema := nullableUnrequired source.schema required }) := by
  refine forall₂_iff_get.mpr ⟨by simp [Tables.read], ?_⟩
  intro index hindex hindex'
  simp only [Tables.read, get_eq_getElem, getElem_mapIdx]
  exact sameOn_readRow hsource index _

theorem agree_windowRows {columns : List Nat} {rows rows' : List (Row V)} {width : Nat}
    {expressions : List WindowExpr} (h : Agree columns rows rows') (hwidth : HasWidth width rows)
    (hexpressions : ∀ expr ∈ expressions.flatMap windowExpressions,
      expr.referencedColumns ⊆ columns)
    (hrequired : ∀ index ∈ required, index < width → index ∈ columns) :
    Option.Rel (Agree required) (windows.rows E.toScalars expressions outer rows)
      (windows.rows E.toScalars expressions outer rows') := by
  have hvalues : (rows.map fun row => (expressions.flatMap windowExpressions).map fun expr =>
        expr.eval E.toScalars outer row) =
      rows'.map fun row => (expressions.flatMap windowExpressions).map fun expr =>
        expr.eval E.toScalars outer row := by
    refine map_eq_of_forall₂ h fun row row' hrow => map_congr_left fun expr hexpr => ?_
    exact hrow.eval_eq (hexpressions expr hexpr)
  rw [WindowKernel.rows, WindowKernel.rows, hvalues]
  refine rel_map (rel_of_eq rfl fun _ => rfl) fun results results' hresults => ?_
  subst hresults
  have hrows : Forall₂ (fun row row' => row.length = width ∧ SameOn columns row row')
      rows rows' := forall₂_imp_of_mem h fun row hrow row' hsame => ⟨hwidth row hrow, hsame⟩
  clear hvalues h hwidth
  induction hrows generalizing results with
  | nil => exact .nil
  | @cons row row' rows rows' hrow _ ih =>
    cases results with
    | nil => exact .nil
    | cons result results =>
      refine .cons (hrow.2.append (.refl (required.map (· - width)) result) ?_ ?_) (ih results)
      · rw [hrow.1]
        exact hrequired
      · rw [hrow.1]
        intro index hindex _
        exact mem_map.mpr ⟨index, hindex, rfl⟩

end Scans

/-! ## Narrow inputs of aggregates -/

/-- Every column that has a new place is found there. -/
def Moved (remap : List (Option Nat)) (row row' : Row V) : Prop :=
  ∀ oldIndex newIndex : Nat, remap[oldIndex]?.join = some newIndex →
    row'[newIndex]? = row[oldIndex]?

/-- Expressions that are columns of rows of the given width. -/
def DirectColumns (width : Nat) (expressions : List BoundExpr) : Prop :=
  ∀ expr ∈ expressions, ∃ info index, expr = .column info index ∧ index < width

section Moved

variable [DecidableEq V] {E : Engine V} {outer : List (Row V)} {remap : List (Option Nat)}

theorem eval_moved {expr' : BoundExpr} {row row' : Row V}
    (h : expr.rewrite (rewriting remap) = some expr') (hrow : Moved remap row row') :
    expr'.eval E.toScalars outer row' = expr.eval E.toScalars outer row := by
  refine BoundExpr.eval_rewrite h ⟨?_, ?_⟩
  · intro info index _ moved hmoved
    obtain ⟨newIndex, hnew, rfl⟩ := map_eq_some_iff.mp hmoved
    exact hrow index newIndex hnew
  · intro info depth index _ moved hmoved
    cases hmoved

theorem aggregateValue_moved {group group' : List (Row V)} {aggregate aggregate' : AggregateExpr}
    (h : argument remap aggregate = some aggregate')
    (hgroup : Forall₂ (Moved remap) group group') :
    E.aggregateValue outer group aggregate = E.aggregateValue outer group' aggregate' := by
  unfold argument at h
  split at h
  · next hexpr =>
    cases h
    refine aggregateValue_congr hgroup rfl rfl rfl (fun row row' _ => ?_) Iff.rfl
    rw [hexpr]
    rfl
  · next expr hexpr =>
    obtain ⟨expr', hexpr', rfl⟩ := map_eq_some_iff.mp h
    refine aggregateValue_congr hgroup rfl rfl rfl (fun row row' hrow => ?_) (by simp [hexpr])
    rw [hexpr]
    exact congrArg some (eval_moved hexpr' hrow).symm

/-- The columns of rows are moved, and so are the columns of the expressions. -/
theorem aggregateRows_moved {groups groups' : List BoundExpr}
    {aggregates aggregates' : List AggregateExpr} {rows rows' : List (Row V)}
    (hgroups : groups.mapM (fun group => group.rewrite (rewriting remap)) = some groups')
    (haggregates : aggregates.mapM (argument remap) = some aggregates')
    (h : Forall₂ (Moved remap) rows rows') :
    E.aggregateRows outer groups aggregates rows =
      E.aggregateRows outer groups' aggregates' rows' := by
  refine aggregateRows_congr h ?_ ?_ ?_
  · rw [← length_eq_zero_iff, ← length_eq_of_mapM hgroups, length_eq_zero_iff]
  · intro row row' hrow
    exact mapM_eq_of_forall₂ (mapM_eq_some.mp hgroups) fun group group' hgroup =>
      (eval_moved hgroup hrow).symm
  · refine (mapM_eq_some.mp haggregates).imp fun aggregate aggregate' haggregate => ?_
    intro group group' hgroup
    exact aggregateValue_moved haggregate hgroup

variable (E outer) in
/-- Columns of a wide enough row have values. -/
theorem exists_projectRows {rows : List (Row V)} {width : Nat}
    (hdirect : DirectColumns width expressions) (hrows : HasWidth width rows) :
    ∃ rows', E.projectRows outer expressions rows = some rows' := by
  refine isSome_iff_exists.mp (mapM_isSome_iff.mpr fun row hrow => ?_)
  refine mapM_isSome_iff.mpr fun expr hexpr => ?_
  obtain ⟨info, index, rfl, hindex⟩ := hdirect expr hexpr
  rw [BoundExpr.eval, isSome_getElem?, hrows row hrow]
  exact hindex

theorem getElem?_evalRow_column {row values : Row V}
    {position index : Nat} {info : ExprInfo} (h : E.evalRow outer expressions row = some values)
    (hexpr : expressions[position]? = some (.column info index)) :
    values[position]? = row[index]? := by
  rw [getElem?_of_mapM h hexpr, BoundExpr.eval]

end Moved

variable {source plan : LogicalPlan}

theorem hasWidth_scanFilterChain [DecidableEq V] {E : Engine V} {outer : List (Row V)}
    {hasFilter : Bool} (h : scanFilterChain plan = some hasFilter)
    {rows : List (Row V)} (hrows : plan.eval E outer = some rows) : HasWidth plan.width rows := by
  induction plan using induction generalizing hasFilter rows with
  | scan source =>
    cases hrows
    exact E.width_table source
  | filter input predicate schema ih =>
    unfold scanFilterChain at h
    split at h
    · next hsame =>
      obtain ⟨inner, hinner, -⟩ := map_eq_some_iff.mp h
      obtain ⟨inputs, hinputs, hrows⟩ := bind_eq_some_iff.mp hrows
      intro row hrow
      rw [ih hinner hinputs row (mem_filterRows hrows hrow)]
      exact (of_decide_eq_true (Bool.and_eq_true_iff.mp hsame).1).symm
    · cases h
  | empty | projection | scalarize | dependentJoin | aggregate | append | repeatRows | window
  | sort | limit | join => cases h

/-! ### Direct projections -/

variable {schema : PlanSchema}

theorem length_selectMaterialized {indices : List Nat}
    (h : ∀ index ∈ indices, index < schema.width) :
    (selectMaterialized schema indices).width = indices.length := by
  rw [PlanSchema.width, selectMaterialized, length_map]
  induction indices with
  | nil => rfl
  | cons index indices ih =>
    obtain ⟨hindex, hrest⟩ := forall_mem_cons.mp h
    rw [filterMap_cons, getElem?_eq_getElem hindex]
    simp only [length_cons, ih hrest]

/-- A column that is set to a place is found there, the others stay. -/
theorem join_getElem?_set {remap : List (Option Nat)} {index oldIndex place newIndex : Nat}
    (h : (remap.set index (some place))[oldIndex]?.join = some newIndex) :
    oldIndex = index ∧ newIndex = place ∨ remap[oldIndex]?.join = some newIndex := by
  rw [getElem?_set] at h
  split at h
  · next hindex =>
    split at h
    · cases h
      exact .inl ⟨hindex.symm, rfl⟩
    · cases h
  · exact .inr h

variable {required : List Nat}

theorem places_sound {width : Nat} {oldIndex newIndex : Nat}
    (h : (places width required)[oldIndex]?.join = some newIndex) :
    required[newIndex]? = some oldIndex := by
  refine foldlRecOn (motive := fun remap => ∀ oldIndex newIndex : Nat,
    remap[oldIndex]?.join = some newIndex → required[newIndex]? = some oldIndex) _ _ ?_ ?_ _ _ h
  · intro oldIndex newIndex hnone
    rw [getElem?_replicate] at hnone
    split at hnone <;> cases hnone
  · intro remap hremap entry hentry oldIndex newIndex hset
    rcases join_getElem?_set hset with ⟨rfl, rfl⟩ | hkept
    · exact mem_zipIdx_iff_getElem?.mp hentry
    · exact hremap oldIndex newIndex hkept

/-- A projection that moves columns of rows of the given width. -/
structure Narrow (width : Nat) (rewrite : ProjectionRewrite) : Prop where
  direct : DirectColumns width rewrite.expressions
  width : rewrite.schema.width = rewrite.expressions.length

variable {rewrite : ProjectionRewrite}

theorem directProjection_sound (h : directProjection schema required = some rewrite) :
    Narrow schema.width rewrite ∧ ∀ oldIndex newIndex : Nat,
      rewrite.remap[oldIndex]?.join = some newIndex →
      ∃ info, rewrite.expressions[newIndex]? = some (BoundExpr.column info oldIndex) := by
  obtain ⟨expressions, hexpressions, h⟩ := bind_eq_some_iff.mp h
  cases h
  have hcolumn : ∀ index expr, directColumn schema index = some expr →
      index < schema.width ∧ ∃ info, expr = .column info index := by
    intro index expr hexpr
    obtain ⟨field, hfield, rfl⟩ := map_eq_some_iff.mp hexpr
    exact ⟨(List.getElem?_eq_some_iff.mp hfield).1, _, rfl⟩
  refine ⟨⟨?_, ?_⟩, ?_⟩
  · intro expr hexpr
    obtain ⟨index, -, hindex⟩ := exists_of_mem_mapM hexpressions hexpr
    obtain ⟨hlt, info, rfl⟩ := hcolumn index expr hindex
    exact ⟨info, index, rfl, hlt⟩
  · rw [length_selectMaterialized, length_eq_of_mapM hexpressions]
    intro index hindex
    obtain ⟨expr, -, hexpr⟩ := exists_mem_of_mapM hexpressions hindex
    exact (hcolumn index expr hexpr).1
  · intro oldIndex newIndex hnew
    have hget := places_sound hnew
    have hexpr := getElem?_of_mapM hexpressions hget
    cases hcol : directColumn schema oldIndex with
    | none =>
      obtain ⟨expr, -, hexpr'⟩ := exists_mem_of_mapM hexpressions (mem_of_getElem? hget)
      rw [hcol] at hexpr'
      cases hexpr'
    | some expr =>
      obtain ⟨-, info, rfl⟩ := hcolumn oldIndex expr hcol
      exact ⟨info, hexpr.trans hcol⟩

theorem directSource_eq_some {source : PlanSchema} {expression : BoundExpr} {output index : Nat}
    (h : directSource source schema expression output = some index) :
    (∃ info, expression = .column info index) ∧ index < source.width ∧ output < schema.width := by
  unfold directSource at h
  split at h
  · next info column =>
    simp only [bind_eq_bind, bind_eq_some_iff] at h
    obtain ⟨sourceField, -, outputField, houtput, h⟩ := h
    split at h
    · next htypes =>
      cases h
      exact ⟨⟨info, rfl⟩, htypes.2.2, (List.getElem?_eq_some_iff.mp houtput).1⟩
    · cases h
  · cases h

/-- The outputs that are kept, by the sources they repeat. -/
structure Selection.Sound (direct : List Nat) (expressions : List BoundExpr)
    (selection : Selection) : Prop where
  kept : ∀ (place sourceIndex : Nat), selection.uniqueSources[place]? = some sourceIndex →
    ∃ oldIndex : Nat, direct[oldIndex]? = some sourceIndex ∧
      expressions[oldIndex]?.isSome = true ∧
      selection.selectedExpressions[place]? = expressions[oldIndex]?
  expressions_length : selection.selectedExpressions.length = selection.uniqueSources.length
  outputs_length : selection.selectedOutputs.length = selection.uniqueSources.length
  outputs : ∀ oldIndex ∈ selection.selectedOutputs, oldIndex < expressions.length
  moved : ∀ oldIndex newIndex : Nat, selection.remap[oldIndex]?.join = some newIndex →
    ∃ sourceIndex, direct[oldIndex]? = some sourceIndex ∧
      selection.uniqueSources[newIndex]? = some sourceIndex

variable {direct : List Nat} {selection selection' : Selection}

theorem Selection.Sound.select (h : selection.Sound direct expressions) {oldIndex : Nat}
    (hselect : selection.select direct expressions oldIndex = some selection') :
    selection'.Sound direct expressions := by
  obtain ⟨sourceIndex, hsource, hselect⟩ := bind_eq_some_iff.mp hselect
  split at hselect
  · next index hindex =>
    -- an output with this source is kept already
    cases hselect
    obtain ⟨hlt, hget, -⟩ := idxOf?_eq_some_iff.mp hindex
    refine ⟨h.kept, h.expressions_length, h.outputs_length, h.outputs, ?_⟩
    intro old newIndex hnew
    rcases join_getElem?_set hnew with ⟨rfl, rfl⟩ | hkept
    · exact ⟨sourceIndex, hsource, List.getElem?_eq_some_iff.mpr ⟨hlt, hget⟩⟩
    · exact h.moved old newIndex hkept
  · next hnew =>
    obtain ⟨expression, hexpression, hselect⟩ := bind_eq_some_iff.mp hselect
    cases hselect
    refine ⟨?_, ?_, ?_, ?_, ?_⟩
    · intro place source hplace
      rcases Nat.lt_trichotomy place selection.uniqueSources.length with hlt | rfl | hgt
      · rw [getElem?_append_left hlt] at hplace
        rw [getElem?_append_left (h.expressions_length ▸ hlt)]
        exact h.kept place source hplace
      · rw [getElem?_concat_length] at hplace
        cases hplace
        refine ⟨oldIndex, hsource, by rw [hexpression]; rfl, ?_⟩
        rw [← h.expressions_length, getElem?_concat_length, hexpression]
      · rw [getElem?_eq_none (by simp; omega)] at hplace
        cases hplace
    · simp [h.expressions_length]
    · simp [h.outputs_length]
    · intro old hold
      rcases mem_append.mp hold with hold | hold
      · exact h.outputs old hold
      · rw [mem_singleton.mp hold]
        exact (List.getElem?_eq_some_iff.mp hexpression).1
    · intro old newIndex hmoved
      rcases join_getElem?_set hmoved with ⟨rfl, rfl⟩ | hkept
      · exact ⟨sourceIndex, hsource, by simp⟩
      · obtain ⟨source, hsource', hget⟩ := h.moved old newIndex hkept
        refine ⟨source, hsource', ?_⟩
        rw [List.getElem?_append_left (List.getElem?_eq_some_iff.mp hget).1]
        exact hget

theorem Selection.Sound.foldlM (h : selection.Sound direct expressions)
    (hloop : required.foldlM (Selection.select direct expressions) selection = some selection') :
    selection'.Sound direct expressions := by
  induction required generalizing selection with
  | nil =>
    cases hloop
    exact h
  | cons oldIndex required ih =>
    rw [foldlM_cons] at hloop
    obtain ⟨next, hnext, hloop⟩ := bind_eq_some_iff.mp hloop
    exact ih (h.select hnext) hloop

/-- The sources of a projection whose outputs are columns. -/
theorem direct_sources {source : PlanSchema}
    (h : (expressions.zipIdx.mapM fun entry => directSource source schema entry.1 entry.2) =
      some direct) {index : Nat} (hexpr : expressions[index]? = some expr) :
    ∃ info sourceIndex, expr = .column info sourceIndex ∧ sourceIndex < source.width ∧
      direct[index]? = some sourceIndex := by
  have hentry : expressions.zipIdx[index]? = some (expr, index) := by
    rw [getElem?_zipIdx, hexpr]
    simp
  obtain ⟨sourceIndex, -, hsource⟩ := exists_mem_of_mapM h (mem_of_getElem? hentry)
  obtain ⟨⟨info, hcolumn⟩, hwidth, -⟩ := directSource_eq_some hsource
  exact ⟨info, sourceIndex, hcolumn, hwidth, (getElem?_of_mapM h hentry).trans hsource⟩

/-- The expressions that are kept are expressions of the projection. -/
theorem Selection.Sound.exists_kept (h : selection.Sound direct expressions) {place : Nat}
    (hexpr : selection.selectedExpressions[place]? = some expr) :
    ∃ oldIndex sourceIndex : Nat, expressions[oldIndex]? = some expr ∧
      direct[oldIndex]? = some sourceIndex ∧
      selection.uniqueSources[place]? = some sourceIndex := by
  have hlt := (List.getElem?_eq_some_iff.mp hexpr).1
  rw [h.expressions_length] at hlt
  have hunique := getElem?_eq_getElem hlt
  obtain ⟨oldIndex, hsource, -, hsame⟩ := h.kept place _ hunique
  exact ⟨oldIndex, _, hsame.symm.trans hexpr, hsource, hunique⟩

theorem compactDirectProjection_sound
    (h : compactDirectProjection source expressions schema required = some rewrite) :
    (∃ hasFilter, scanFilterChain source = some hasFilter) ∧
      DirectColumns source.width expressions ∧ Narrow source.width rewrite ∧
      ∀ oldIndex newIndex : Nat, rewrite.remap[oldIndex]?.join = some newIndex →
        ∃ info info' index, expressions[oldIndex]? = some (BoundExpr.column info index) ∧
          rewrite.expressions[newIndex]? = some (BoundExpr.column info' index) := by
  obtain ⟨hasFilter, hchain, h⟩ := bind_eq_some_iff.mp h
  split at h
  · cases h
  next hlength =>
  simp only [bind_eq_bind, bind_eq_some_iff] at h
  obtain ⟨direct, hdirect, selection, hselection, h⟩ := h
  cases h
  have hsound : selection.Sound direct expressions := by
    refine Selection.Sound.foldlM ⟨?_, rfl, rfl, forall_mem_nil _, ?_⟩ hselection
    · intro place sourceIndex hplace
      cases hplace
    · intro oldIndex newIndex hnew
      rw [getElem?_replicate] at hnew
      split at hnew <;> cases hnew
  refine ⟨⟨hasFilter, hchain⟩, ?_, ⟨?_, ?_⟩, ?_⟩
  · intro expr hexpr
    obtain ⟨index, hindex⟩ := mem_iff_getElem?.mp hexpr
    obtain ⟨info, sourceIndex, rfl, hwidth, -⟩ := direct_sources hdirect hindex
    exact ⟨info, sourceIndex, rfl, hwidth⟩
  · intro expr hexpr
    obtain ⟨place, hplace⟩ := mem_iff_getElem?.mp hexpr
    obtain ⟨oldIndex, -, hold, -⟩ := hsound.exists_kept hplace
    obtain ⟨info, sourceIndex, rfl, hwidth, -⟩ := direct_sources hdirect hold
    exact ⟨info, sourceIndex, rfl, hwidth⟩
  · rw [length_selectMaterialized, hsound.outputs_length, hsound.expressions_length]
    intro oldIndex hold
    have := hsound.outputs oldIndex hold
    omega
  · intro oldIndex newIndex hnew
    obtain ⟨sourceIndex, hsource, hunique⟩ := hsound.moved oldIndex newIndex hnew
    obtain ⟨keptIndex, hkept, hsome, hsame⟩ := hsound.kept newIndex sourceIndex hunique
    obtain ⟨kept, hkeptExpr⟩ := isSome_iff_exists.mp hsome
    obtain ⟨info', index', rfl, -, hindex'⟩ := direct_sources hdirect hkeptExpr
    have hlt : oldIndex < expressions.length := by
      have := (List.getElem?_eq_some_iff.mp hsource).1
      rw [length_eq_of_mapM hdirect, length_zipIdx] at this
      exact this
    obtain ⟨info, index, hcolumn, -, hindex⟩ :=
      direct_sources hdirect (getElem?_eq_getElem hlt)
    rw [hkept] at hindex'
    rw [hsource] at hindex
    cases hindex
    cases hindex'
    refine ⟨info, info', sourceIndex, ?_, hsame.trans hkeptExpr⟩
    rw [getElem?_eq_getElem hlt, hcolumn]

/-! ### Compaction -/

section Compaction

variable [DecidableEq V] {E : Engine V} {outer : List (Row V)}
  {aggregate aggregate' : AggregateInput}

theorem overProjection_eq_some {source : LogicalPlan}
    (h : aggregate.overProjection source rewrite = some aggregate') :
    aggregate.groups.mapM (fun group => group.rewrite (rewriting rewrite.remap)) =
        some aggregate'.groups ∧
      aggregate.aggregates.mapM (argument rewrite.remap) = some aggregate'.aggregates := by
  obtain ⟨groups, hgroups, h⟩ := bind_eq_some_iff.mp h
  obtain ⟨aggregates, haggregates, h⟩ := bind_eq_some_iff.mp h
  cases h
  exact ⟨hgroups, haggregates⟩

/-- The rows of an aggregate, together with those of its input. -/
def AggregateInput.eval (E : Engine V) (outer : List (Row V)) (aggregate : AggregateInput) :
    Option (List (Row V)) :=
  (aggregate.input.eval E outer).bind
    (E.aggregateRows outer aggregate.groups aggregate.aggregates)

theorem eval_compact (h : aggregate.compact = some aggregate') :
    aggregate'.eval E outer = aggregate.eval E outer := by
  rcases compact_eq_some h with
    ⟨source, expressions, schema, rewrite, hinput, hrewrite, hover⟩ |
    ⟨hasFilter, rewrite, hchain, hrewrite, hover⟩
  · obtain ⟨⟨hasFilter, hchain⟩, hdirect, hnarrow, hmoved⟩ :=
      compactDirectProjection_sound hrewrite
    obtain ⟨hgroups, haggregates⟩ := overProjection_eq_some hover
    unfold AggregateInput.eval
    rw [overProjection_input hover, hinput, eval, eval]
    cases hrows : source.eval E outer with
    | none => rfl
    | some rows =>
      have hwidth := hasWidth_scanFilterChain hchain hrows
      obtain ⟨wide, hwide⟩ := exists_projectRows E outer hdirect hwidth
      obtain ⟨narrow, hnarrowRows⟩ := exists_projectRows E outer hnarrow.direct hwidth
      simp only [bind_eq_bind, bind_some, hwide, hnarrowRows]
      symm
      refine aggregateRows_moved hgroups haggregates ?_
      refine (forall₂_of_common (mapM_eq_some.mp hwide) (mapM_eq_some.mp hnarrowRows)).imp ?_
      intro wideRow narrowRow hrow oldIndex newIndex hnew
      obtain ⟨row, -, hwideRow, hnarrowRow⟩ := hrow
      obtain ⟨info, info', index, hold, hnewExpr⟩ := hmoved oldIndex newIndex hnew
      rw [getElem?_evalRow_column hwideRow hold, getElem?_evalRow_column hnarrowRow hnewExpr]
  · obtain ⟨hnarrow, hmoved⟩ := directProjection_sound hrewrite
    obtain ⟨hgroups, haggregates⟩ := overProjection_eq_some hover
    unfold AggregateInput.eval
    rw [overProjection_input hover, eval]
    cases hrows : aggregate.input.eval E outer with
    | none => rfl
    | some rows =>
      have hwidth := hasWidth_scanFilterChain hchain hrows
      obtain ⟨narrow, hnarrowRows⟩ := exists_projectRows E outer hnarrow.direct hwidth
      simp only [bind_eq_bind, bind_some, hnarrowRows]
      symm
      refine aggregateRows_moved hgroups haggregates ?_
      refine (mapM_eq_some.mp hnarrowRows).imp ?_
      intro row narrowRow hnarrowRow oldIndex newIndex hnew
      obtain ⟨info, hnewExpr⟩ := hmoved oldIndex newIndex hnew
      exact getElem?_evalRow_column hnarrowRow hnewExpr

theorem eval_compacted (aggregate : AggregateInput) :
    aggregate.compacted.eval E outer = aggregate.eval E outer := by
  unfold AggregateInput.compacted
  cases h : aggregate.compact with
  | none => rfl
  | some aggregate' => exact eval_compact h

end Compaction

/-! ## Plans -/

mutual

/-- No subquery of the plan depends on an outer row. -/
def Uncorrelated : LogicalPlan → Prop
  | .empty .. => True
  | .scan _ => True
  | .filter input _ _ => Uncorrelated input
  | .projection input _ _ => Uncorrelated input
  | .scalarize input _ => Uncorrelated input
  | .dependentJoin .. => False
  | .aggregate input _ _ _ => Uncorrelated input
  | .append inputs _ => AllUncorrelated inputs
  | .repeatRows input _ _ => Uncorrelated input
  | .window input _ _ => Uncorrelated input
  | .sort input _ _ _ => Uncorrelated input
  | .limit input _ _ _ => Uncorrelated input
  | .join left right _ _ _ => Uncorrelated left ∧ Uncorrelated right

/-- No plan of the list has a correlated subquery. -/
def AllUncorrelated : List LogicalPlan → Prop
  | [] => True
  | input :: inputs => Uncorrelated input ∧ AllUncorrelated inputs

end

theorem uncorrelated_of_executable (h : Verify.executable plan = .ok ()) :
    Uncorrelated plan := by
  induction plan using induction with
  | empty | scan => trivial
  | dependentJoin => cases h
  | scalarize input schema ih | limit input offset bound schema ih => exact ih h
  | filter input predicate schema ih | projection input expressions schema ih
  | repeatRows input count schema ih | window input expressions schema ih
  | sort input expressions fetch schema ih =>
    obtain ⟨-, -, h⟩ := bind_eq_ok.mp h
    exact ih h
  | aggregate input groupExprs aggregateExprs schema ih =>
    obtain ⟨-, -, h⟩ := bind_eq_ok.mp h
    obtain ⟨-, -, h⟩ := bind_eq_ok.mp h
    exact ih h
  | append inputs schema ih =>
    rw [Verify.executable] at h
    rw [Uncorrelated]
    induction inputs with
    | nil => trivial
    | cons input inputs ihinputs =>
      obtain ⟨hinput, hinputs⟩ := forall_mem_cons.mp ih
      obtain ⟨⟨⟩, hfirst, h⟩ := bind_eq_ok.mp h
      exact ⟨hinput hfirst, ihinputs hinputs h⟩
  | join left right condition joinType schema ihleft ihright =>
    obtain ⟨-, -, h⟩ := bind_eq_ok.mp h
    obtain ⟨⟨⟩, hleft, h⟩ := bind_eq_ok.mp h
    exact ⟨ihleft hleft, ihright h⟩

/-- A plan as the pass expects it: well formed, without correlated subqueries, and with
scans that read all columns. -/
structure Prunable (plan : LogicalPlan) : Prop where
  wellFormed : plan.WellFormed
  uncorrelated : Uncorrelated plan
  unprojected : plan.AllScans fun source => source.projection = none

theorem inRange_of_directColumns {width : Nat}
    (h : DirectColumns width expressions) : ∀ expr ∈ expressions, expr.InRange width := by
  intro expr hexpr index hindex
  obtain ⟨info, column, rfl, hlt⟩ := h expr hexpr
  rw [mem_singleton.mp hindex]
  exact hlt

theorem Narrow.prunable (h : Narrow source.width rewrite)
    (hsource : Prunable source) :
    Prunable (.projection source rewrite.expressions rewrite.schema) where
  wellFormed := ⟨hsource.wellFormed, inRange_of_directColumns h.direct, h.width⟩
  uncorrelated := hsource.uncorrelated
  unprojected := hsource.unprojected

theorem prunable_compacted {aggregate : AggregateInput} (h : Prunable aggregate.input) :
    Prunable aggregate.compacted.input := by
  unfold AggregateInput.compacted
  cases hcompact : aggregate.compact with
  | none => exact h
  | some aggregate' =>
    rw [getD_some]
    rcases compact_eq_some hcompact with
      ⟨source, expressions, schema, rewrite, hinput, hrewrite, hover⟩ |
      ⟨hasFilter, rewrite, -, hrewrite, hover⟩
    · obtain ⟨-, -, hnarrow, -⟩ := compactDirectProjection_sound hrewrite
      rw [hinput] at h
      rw [overProjection_input hover]
      exact hnarrow.prunable ⟨h.wellFormed.1, h.uncorrelated, h.unprojected⟩
    · rw [overProjection_input hover]
      exact (directProjection_sound hrewrite).1.prunable h

theorem weight_lt_of_mem {inputs : List LogicalPlan} {input : LogicalPlan} (h : input ∈ inputs) :
    weight input < weightAll inputs := by
  induction inputs with
  | nil => cases h
  | cons head inputs ih =>
    rw [weightAll]
    rcases mem_cons.mp h with rfl | h
    · omega
    · have := ih h
      omega

section Pruning

variable [DecidableEq V] {E : Engine V} {tables : Tables V} {windows : WindowKernel V}

variable (E tables windows) in
/-- The rows of a plan before and after the pass agree on the required columns. -/
def Prunes (plan : LogicalPlan) : Prop :=
  ∀ required outer, Option.Rel (Agree required) (plan.eval (reading E tables windows) outer)
    ((push plan required).eval (reading E tables windows) outer)

/-- Either an output of a projection is read, or it cannot fail. -/
theorem projectionColumns_read {outer : List (Row V)} (input : PlanSchema)
    (expressions : List BoundExpr) (required : List Nat) (index : Nat) (expr : BoundExpr)
    (hexpr : expressions[index]? = some expr) :
    expr.referencedColumns ⊆ projectionColumns input expressions required ∨
      index ∉ required ∧ ∀ row row' : Row V, row.length = row'.length →
        (expr.eval E.toScalars outer row).isSome =
          (expr.eval E.toScalars outer row').isSome := by
  by_cases hpruned : index ∉ required ∧ cheaplyPrunable expr = true
  · refine .inr ⟨hpruned.1, fun row row' hlength => ?_⟩
    cases expr with
    | column info column =>
      rw [BoundExpr.eval, BoundExpr.eval, Bool.eq_iff_iff, isSome_getElem?, isSome_getElem?,
        hlength]
    | literal => rfl
    | _ => cases hpruned.2
  · refine .inl fun column hcolumn => ?_
    have hmem : column ∈ expressions.zipIdx.flatMap fun entry =>
        if entry.2 ∉ required ∧ cheaplyPrunable entry.1 then []
        else entry.1.referencedColumns := by
      refine mem_flatMap.mpr ⟨(expr, index), ?_, ?_⟩
      · exact mem_zipIdx_iff_getElem?.mpr hexpr
      · rw [if_neg hpruned]
        exact hcolumn
    unfold projectionColumns
    rw [if_neg fun hempty => ne_nil_of_mem hmem hempty.1]
    exact hmem

theorem prunes_aggregate {aggregate : AggregateInput} {schema : PlanSchema}
    (h : Prunes E tables windows aggregate.compacted.input) :
    Prunes E tables windows
      (.aggregate aggregate.input aggregate.groups aggregate.aggregates schema) := by
  intro required outer
  rw [push]
  refine rel_of_eq ?_ (Agree.refl required)
  show aggregate.eval (reading E tables windows) outer = _
  rw [← eval_compacted]
  refine bind_eq_of_rel (h aggregate.compacted.columns outer) fun rows rows' hrows => ?_
  refine aggregateRows_congr hrows Iff.rfl ?_ ?_
  · intro row row' hrow
    refine hrow.evalRow_eq fun expr hexpr => ?_
    exact Subset.trans (subset_referencedColumns hexpr) (subset_append_left ..)
  · refine forall₂_same.mpr fun argument hargument group group' hgroup => ?_
    refine aggregateValue_congr hgroup rfl rfl rfl (fun row row' hrow => ?_) Iff.rfl
    cases hexpr : argument.expr with
    | none => rfl
    | some expr =>
      refine congrArg some (hrow.eval_eq ?_)
      exact Subset.trans (subset_argumentColumns hargument hexpr) (subset_append_right ..)

variable {inputs : List LogicalPlan}

theorem agree_evalAll (h : ∀ input ∈ inputs, Prunes E tables windows input) (required : List Nat)
    (outer : List (Row V)) :
    Option.Rel (Agree required)
      (LogicalPlan.evalAll (reading E tables windows) inputs outer)
      (LogicalPlan.evalAll (reading E tables windows) (pushAll inputs required) outer) := by
  induction inputs with
  | nil =>
    rw [pushAll]
    exact .some .nil
  | cons input inputs ih =>
    obtain ⟨hinput, hinputs⟩ := forall_mem_cons.mp h
    rw [pushAll]
    refine rel_bind (hinput required outer) fun rows rows' hrows => ?_
    refine rel_bind (ih hinputs) fun rest rest' hrest => ?_
    exact .some (rel_append hrows hrest)

/-- A column that is read stays when an anchor may be put in place of no columns. -/
theorem mem_anchored {columns anchor : List Nat} {p : Prop} [Decidable (columns = [] ∧ p)]
    {index : Nat} (h : index ∈ columns) :
    index ∈ if columns = [] ∧ p then anchor else columns := by
  rw [if_neg fun hempty => ne_nil_of_mem h hempty.1]
  exact h

theorem joinReads (leftWidth rightWidth : Nat) (condition : JoinCondition) (joinType : JoinType)
    (required : List Nat) :
    Engine.JoinReads leftWidth condition joinType required
      (leftColumns leftWidth condition required)
      (rightColumns leftWidth rightWidth condition joinType required) where
  keys pair hpair := by
    constructor <;> intro index hindex <;> refine mem_anchored ?_ <;>
      simp only [mem_append]
    · exact .inl (.inl (.inr (subset_referencedColumns (mem_map_of_mem hpair) hindex)))
    · exact .inl (.inl (.inr (subset_referencedColumns (mem_map_of_mem hpair) hindex)))
  residual residual hresidual := by
    have hread : residual.referencedColumns ⊆ residualColumns condition :=
      subset_referencedColumns (by rw [hresidual]; exact mem_singleton_self _)
    constructor <;> intro index hindex hside <;> refine mem_anchored ?_ <;>
      simp only [mem_append]
    · exact .inl (.inr (mem_filter.mpr ⟨hread hindex, decide_eq_true hside⟩))
    · refine .inl (.inr (mem_map.mpr ⟨index, ?_, rfl⟩))
      exact mem_filter.mpr ⟨hread hindex, decide_eq_true hside⟩
  nullAware pair hpair := by
    constructor <;> intro index hindex <;> refine mem_anchored ?_ <;>
      simp only [mem_append, hpair]
    · exact .inr (subset_referencedColumns (mem_singleton_self _) hindex)
    · exact .inr (subset_referencedColumns (mem_singleton_self _) hindex)
  left index hindex hside := by
    refine mem_anchored ?_
    simp only [mem_append]
    exact .inl (.inl (.inl (mem_filter.mpr ⟨hindex, decide_eq_true hside⟩)))
  right hmaterializes index hindex hside := by
    refine mem_anchored ?_
    simp only [mem_append, hmaterializes, if_true]
    refine .inl (.inl (.inl (mem_map.mpr ⟨index, ?_, rfl⟩)))
    exact mem_filter.mpr ⟨hindex, decide_eq_true hside⟩

variable {input left right : LogicalPlan} {schema : PlanSchema}

theorem prunes_filter {predicate : BoundExpr} (h : Prunes E tables windows input) :
    Prunes E tables windows (.filter input predicate schema) := by
  intro required outer
  rw [push]
  refine rel_bind (h _ outer) fun rows rows' hrows => ?_
  refine rel_imp (rel_tryFilter hrows fun _ _ hrow => hrow.holds_eq (subset_append_right ..)) ?_
  intro _ _ hagree
  exact Agree.mono hagree (subset_append_left ..)

theorem prunes_projection (h : Prunes E tables windows input) :
    Prunes E tables windows (.projection input expressions schema) := by
  intro required outer
  rw [push]
  refine rel_bind (h _ outer) fun rows rows' hrows => ?_
  exact agree_projectRows hrows (projectionColumns_read input.schema expressions required)

omit [DecidableEq V] in
/-- Rows of one column that agree on it. -/
theorem agree_of_hasWidth_one {rows rows' : List (Row V)} (h : Agree [0] rows rows')
    (hwidth : HasWidth 1 rows) (required : List Nat) : Agree required rows rows' := by
  refine forall₂_imp_of_mem h fun row hrow row' hsame => ⟨hsame.length, fun index _ => ?_⟩
  have hone := hwidth row hrow
  have hlength := hsame.length
  cases index with
  | zero => exact hsame.cell 0 (mem_singleton_self _)
  | succ index => rw [getElem?_eq_none (by omega), getElem?_eq_none (by omega)]

section

variable (h : Prunes E tables windows input)
include h

theorem prunes_scalarize (hinput : input.WellFormed) (hone : input.width = 1) :
    Prunes E tables windows (.scalarize input schema) := by
  intro required outer
  rw [push]
  refine rel_bind_of_eq (h _ outer) fun rows rows' heval hrows => ?_
  have hwidth := hasWidth_eval hinput heval
  rw [hone] at hwidth
  exact agree_scalarizeRows (agree_of_hasWidth_one hrows hwidth required)

theorem prunes_repeatRows {count : BoundExpr} :
    Prunes E tables windows (.repeatRows input count schema) := by
  intro required outer
  rw [push, eval, eval, width_nullableUnrequired]
  refine rel_bind (h _ outer) fun rows rows' hrows => ?_
  refine rel_imp (agree_repeatedRows hrows _ (subset_append_right ..)) ?_
  intro _ _ hagree
  exact hagree.mono (subset_append_left ..)

theorem prunes_window {expressions : List WindowExpr} (hinput : input.WellFormed) :
    Prunes E tables windows (.window input expressions schema) := by
  intro required outer
  rw [push]
  refine rel_bind_of_eq (h _ outer) fun rows rows' heval hrows => ?_
  refine agree_windowRows hrows (hasWidth_eval hinput heval) ?_ ?_
  · intro expr hexpr
    exact Subset.trans (subset_referencedColumns hexpr) (subset_append_right ..)
  · intro index hindex hlt
    refine mem_append_left _ (mem_filter.mpr ⟨hindex, decide_eq_true hlt⟩)

end

theorem prunes_join {condition : JoinCondition} {joinType : JoinType}
    (hleft : Prunes E tables windows left) (hleftPlan : left.WellFormed)
    (hright : Prunes E tables windows right) (hrightPlan : right.WellFormed) :
    Prunes E tables windows (.join left right condition joinType schema) := by
  intro required outer
  rw [push, eval, eval, width_push, width_push]
  refine rel_bind_of_eq (hleft _ outer) fun lefts lefts' hlefts hleftRows => ?_
  refine rel_bind_of_eq (hright _ outer) fun rights rights' hrights hrightRows => ?_
  exact agree_joinRows (joinReads left.width right.width condition joinType required)
    hleftRows (hasWidth_eval hleftPlan hlefts) hrightRows
    (hasWidth_eval hrightPlan hrights)

theorem prunes_sort {expressions : List SortExpr} {fetch : Option Nat}
    (h : Prunes E tables windows input) :
    Prunes E tables windows (.sort input expressions fetch schema) := by
  intro required outer
  rw [push]
  refine rel_bind (h _ outer) fun rows rows' hrows => ?_
  refine rel_imp (agree_sortRows hrows fetch fun order horder => ?_) ?_
  · exact Subset.trans (subset_referencedColumns (mem_map_of_mem horder))
      (subset_append_right ..)
  · intro _ _ hagree
    exact hagree.mono (subset_append_left ..)

theorem prunes_limit {offset : Nat} {bound : Option Nat} (h : Prunes E tables windows input) :
    Prunes E tables windows (.limit input offset bound schema) := by
  intro required outer
  rw [push]
  refine rel_bind (h _ outer) fun rows rows' hrows => ?_
  rw [limitRows, limitRows, hrows.length_eq]
  exact .some (forall₂_take _ (forall₂_drop _ hrows))

/-- What holds of all inputs, said by recursion on their list, holds of each. -/
theorem of_mem_inputs {P : LogicalPlan → Prop} {All : List LogicalPlan → Prop}
    (hcons : ∀ input inputs, All (input :: inputs) → P input ∧ All inputs) (h : All inputs)
    (hinput : input ∈ inputs) : P input := by
  induction inputs with
  | nil => cases hinput
  | cons head inputs ih =>
    obtain ⟨hhead, hinputs⟩ := hcons head inputs h
    rcases mem_cons.mp hinput with rfl | hinput
    · exact hhead
    · exact ih hinputs hinput

/-- By induction over the weight: the narrow input of an aggregate is no part of the plan,
but it is lighter than the aggregate. -/
theorem agree_push {plan : LogicalPlan} (hplan : Prunable plan) :
    Prunes E tables windows plan := by
  induction hweight : weight plan using Nat.strong_induction_on generalizing plan with
  | _ n ih =>
    subst hweight
    obtain ⟨hwell, huncorrelated, hunprojected⟩ := hplan
    cases plan with
    | empty produceOneRow schema =>
      intro required outer
      rw [push]
      exact .some (Agree.refl ..)
    | scan source =>
      intro required outer
      rw [push]
      exact .some (agree_read hunprojected)
    | filter input | projection input | scalarize input | repeatRows input | window input
    | sort input | limit input =>
      have hinput : Prunes E tables windows input :=
        ih _ (by rw [weight]; omega) ⟨hwell.1, huncorrelated, hunprojected⟩ rfl
      first
        | exact prunes_filter hinput
        | exact prunes_projection hinput
        | exact prunes_scalarize hinput hwell.1 hwell.2.1
        | exact prunes_repeatRows hinput
        | exact prunes_window hinput hwell.1
        | exact prunes_sort hinput
        | exact prunes_limit hinput
    | dependentJoin => exact huncorrelated.elim
    | aggregate input groupExprs aggregateExprs schema =>
      have hinput : Prunable (AggregateInput.mk input groupExprs aggregateExprs).compacted.input :=
        prunable_compacted ⟨hwell.1, huncorrelated, hunprojected⟩
      exact @prunes_aggregate V _ E tables windows ⟨input, groupExprs, aggregateExprs⟩ schema
        (ih _ (by rw [weight]; exact weight_compacted_lt _) hinput rfl)
    | append inputs schema =>
      intro required outer
      rw [push]
      refine agree_evalAll (fun input hinput => ih _ ?_ ⟨?_, ?_, ?_⟩ rfl) required outer
      · have := weight_lt_of_mem hinput
        rw [weight]
        omega
      · exact (allWellFormed_iff.mp hwell input hinput).1
      · exact of_mem_inputs (fun _ _ h => h) huncorrelated hinput
      · exact of_mem_inputs (fun _ _ h => h) hunprojected hinput
    | join left right condition joinType schema =>
      exact prunes_join
        (ih _ (by rw [weight]; omega) ⟨hwell.1, huncorrelated.1, hunprojected.1⟩ rfl) hwell.1
        (ih _ (by rw [weight]; omega) ⟨hwell.2.1, huncorrelated.2, hunprojected.2⟩ rfl) hwell.2.1

/-! ## The pass -/

/-- The required columns of all rows. -/
def restrict (required : List Nat) (rows : List (Row V)) : List (List (Option V)) :=
  rows.map fun row => required.map fun index => row[index]?

/-- The pass keeps the required columns of all rows, whatever stands in the columns that the
scans no longer read, and a plan fails after it exactly when it failed before. -/
theorem column_pruning_preserves_results (E : Engine V) (tables : Tables V)
    (windows : WindowKernel V) (plan : LogicalPlan) (hwell : plan.WellFormed)
    (hverified : Verify.executable plan = .ok ())
    (hunprojected : plan.AllScans fun source => source.projection = none)
    (required : List Nat) :
    ((push plan required).eval (reading E tables windows) []).map (restrict required) =
      (plan.eval (reading E tables windows) []).map (restrict required) := by
  have hplan : Prunable plan := ⟨hwell, uncorrelated_of_executable hverified, hunprojected⟩
  refine (map_eq_of_rel (agree_push hplan required []) fun rows rows' hrows => ?_).symm
  refine map_eq_of_forall₂ hrows fun row row' hrow => map_congr_left fun index hindex => ?_
  exact hrow.cell index hindex

end Pruning

/-- A table with the columns `a`, `b` and `c`. -/
def threeColumns : PlanSchema :=
  ⟨["a", "b", "c"].map fun name => ⟨name, .int64, true, none, true, true⟩⟩

/-- `SELECT SUM(b) FROM t WHERE a > 1`. -/
def sumQuery : LogicalPlan :=
  let column (name : String) (index : Nat) : BoundExpr := .column ⟨.int64, name⟩ index
  .aggregate
    (.filter (.scan ⟨"t", none, none, none, none, threeColumns⟩)
      (.binary ⟨.boolean, "a > 1"⟩ (column "a" 0) .gt (.literal ⟨.int64, "1"⟩ (.int64 1)))
      threeColumns)
    [] [⟨.sum, some (column "b" 1), false, .int64, "SUM(b)"⟩] (.oneField "SUM(b)" .int64 true)

/-- Three rows, with 99 in all columns that are not read. -/
def threeRows : Tables (Option Int) where
  rows _ _ _ _ := [[some 1, some 10, some 7], [some 2, some 20, none], [some 3, some 30, some 8]]
  placeholder _ _ _ := some 99

/-- A kernel that computes no window function. -/
def noWindows : WindowKernel (Option Int) where
  compute _ _ := none
  width _ _ _ h := by cases h

theorem sum_of_two_columns :
    ((push sumQuery [0]).eval (reading (Engine.integers fun _ => []) threeRows noWindows) []).map
      (restrict [0]) = some [[some (some 50)]] := by
  rw [column_pruning_preserves_results (integers fun _ => []) threeRows noWindows sumQuery
    ⟨⟨trivial, by decide, rfl⟩, by decide, by
      intro aggregate haggregate expr hexpr
      rw [mem_singleton.mp haggregate] at hexpr
      cases hexpr
      decide, rfl⟩ rfl rfl [0]]
  decide +kernel

end RustDb.Optimizer
