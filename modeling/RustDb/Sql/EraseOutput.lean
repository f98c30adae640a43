import RustDb.Sql.WellFormed

/-!
# The output of `EXISTS`

`EXISTS` only asks whether its subquery has a row, so the planner drops the select list, the
`DISTINCT` and the order of the subquery.

* `eraseOutput`, `pruneProjectionInput`: the rewriting of the planner.
* `BuiltQuery`: the subqueries that the planner builds, up to the part below their
  outermost orders, limits and `DISTINCT`.
* `length_pruned`: a select list is dropped without changing the number of rows.
* `erasedDistinct`: the `DISTINCT` that is dropped below offsets.
-/

namespace RustDb.Sql

open RustDb.Lib List Option Engine BoundExpr

/-! ## The rewriting -/

/-- The rewriting that replaces columns by the columns they are mapped to. -/
def remapRewrite (mapping : Nat → Option Nat) : LeafRewrite where
  column info index := (mapping index).map (.column info ·)
  outerRef info depth index := some (.outerRef info depth index)
  keepsDeferred := true

/-- The message of the internal error about a column that is gone. -/
def removedColumnMessage (index : Nat) : String :=
  s!"EXISTS HAVING expression references removed aggregate column {index}"

/-- An expression for other places of its columns; the error names one that has no place. -/
def remapColumns (expr : BoundExpr) (mapping : Nat → Option Nat) : Except String BoundExpr :=
  match expr.rewrite (remapRewrite mapping) with
  | some expr => .ok expr
  | none =>
    let missing := expr.referencedColumns.find? fun index => (mapping index).isNone
    .error (removedColumnMessage (missing.getD 0))

/-- A count that keeps an aggregation without groups at one row. -/
def syntheticCount : AggregateExpr where
  function := .count
  expr := none
  distinct := false
  dataType := .int64
  displayName := "__rustdb_exists_count"

/-- The column of that count. -/
def syntheticCountSchema : PlanSchema := .oneField "__rustdb_exists_count" .int64 false

/-- Some columns of a schema. -/
def selectSchema (schema : PlanSchema) (indices : List Nat) : PlanSchema :=
  ⟨indices.filterMap (schema.fields[·]?)⟩

/-- The columns of an aggregate that stay below a predicate: the groups, and the aggregates
that the predicate reads. -/
def selectedColumns (groupWidth aggregateWidth : Nat) (required : List Nat) : List Nat :=
  range groupWidth ++
    ((range aggregateWidth).filter fun index => groupWidth + index ∈ required).map
      (groupWidth + ·)

/-- The input of a projection that is erased: aggregates that no `HAVING` reads are left out. -/
def pruneProjectionInput : LogicalPlan → Except String LogicalPlan
  | .aggregate input groupExprs _ schema =>
    if groupExprs.length = 0 then
      .ok (.aggregate input groupExprs [syntheticCount] syntheticCountSchema)
    else
      .ok (.aggregate input groupExprs []
        (selectSchema schema (range groupExprs.length)))
  | .filter (.aggregate input groupExprs aggregateExprs schema) predicate _ => do
    let groupWidth := groupExprs.length
    let required := predicate.referencedColumns
    let selected := selectedColumns groupWidth aggregateExprs.length required
    let predicate ← remapColumns predicate (selected.idxOf? ·)
    let kept := keepIndices (fun index => groupWidth + index ∈ required) aggregateExprs
    if groupWidth = 0 ∧ kept.isEmpty then
      .ok (.filter (.aggregate input groupExprs [syntheticCount] syntheticCountSchema)
        predicate syntheticCountSchema)
    else
      .ok (.filter (.aggregate input groupExprs kept (selectSchema schema selected))
        predicate (selectSchema schema selected))
  | .filter input predicate _ => .ok (.filter input predicate input.schema)
  | other => .ok other

/-- Erasing would change how many rows an `OFFSET` skips. -/
def projectionControlsOffsetCardinality : LogicalPlan → Bool
  | .sort input _ _ _ => projectionControlsOffsetCardinality input
  | .aggregate _ _ aggregateExprs _ => aggregateExprs.isEmpty
  | _ => false

/-- The select list of a subquery whose output is not read. -/
def existsRow : BoundExpr := .literal ⟨.int64, "__rustdb_exists_row"⟩ (.int64 1)

/-- The one column of an erased output. -/
def existsRowSchema : PlanSchema := .oneField "__rustdb_exists_row" .int64 false

/-- The query of an `EXISTS`, of which only the presence of a row matters. -/
def eraseOutput : LogicalPlan → Except String LogicalPlan
  | .projection input _ _ => do
    let input ← pruneProjectionInput input
    .ok (.projection input [existsRow] existsRowSchema)
  | .aggregate input _ [] _ => eraseOutput input
  | .sort input _ _ _ => eraseOutput input
  | .limit input offset bound _ =>
    if 0 < offset ∧ projectionControlsOffsetCardinality input then
      .ok (.limit input offset bound input.schema)
    else do
      let input ← eraseOutput input
      .ok (.limit input offset bound input.schema)
  | other => .ok other

/-! ## The plans of the planner -/

/-- The plan with its `OFFSET` and `LIMIT`, if it has any. -/
def applyQueryLimit (plan : LogicalPlan) (offset : Nat) (bound : Option Nat) : LogicalPlan :=
  if offset = 0 ∧ bound = none then plan else .limit plan offset bound plan.schema

/-- `ORDER BY`, with the number of rows that the limit above it can still use. -/
def applyOrder (plan : LogicalPlan) (order : List SortExpr) (bound : Option Nat)
    (offset : Nat) : LogicalPlan :=
  if order.isEmpty then plan
  else .sort plan order (bound.map (· + offset)) plan.schema

/-- The plans of a select or a set operation: no order, limit or `DISTINCT` on top. -/
def LogicalPlan.isBody : LogicalPlan → Bool
  | .aggregate .. => false
  | .sort .. => false
  | .limit .. => false
  | _ => true

/-- The plans that the planner builds for a subquery.  A query in parentheses may be ordered
and limited again. -/
inductive BuiltQuery : LogicalPlan → Prop
  | body (plan : LogicalPlan) (hplan : plan.WellFormed) (hbody : plan.isBody = true) :
    BuiltQuery plan
  | distinct (input : LogicalPlan) (groupExprs : List BoundExpr) (schema : PlanSchema)
      (hinput : input.WellFormed) (hbody : input.isBody = true) :
    BuiltQuery (.aggregate input groupExprs [] schema)
  | query (plan : LogicalPlan) (order : List SortExpr) (offset : Nat) (bound : Option Nat)
      (hplan : BuiltQuery plan) :
    BuiltQuery (applyQueryLimit (applyOrder plan order bound offset) offset bound)

/-- Whether an upper bound lets more than `skipped` rows through. -/
def boundAllows (bound : Option Nat) (skipped : Nat) : Bool :=
  match bound with
  | none => true
  | some bound => skipped < bound

/-- The `DISTINCT` that is dropped, and how many of its rows the limits above it skip. -/
def erasedDistinct : LogicalPlan → Nat → Option (LogicalPlan × List BoundExpr × Nat)
  | .aggregate input groupExprs [] _, skipped => some (input, groupExprs, skipped)
  | .sort input _ fetch _, skipped =>
    if boundAllows fetch skipped then erasedDistinct input skipped else none
  | .limit input offset bound _, skipped =>
    if boundAllows bound skipped then
      if 0 < offset ∧ projectionControlsOffsetCardinality input then none
      else erasedDistinct input (skipped + offset)
    else none
  | _, _ => none

/-! ## Counting rows -/

section Counting

variable {V : Type} [DecidableEq V] {E : Engine V} {outer : List (Row V)}

omit [DecidableEq V] in
theorem lt_length_limitRows {offset : Nat} {bound : Option Nat} :
    skipped < (limitRows offset bound rows).length ↔
      boundAllows bound skipped = true ∧ skipped + offset < rows.length := by
  rw [limitRows, length_take, length_drop]
  cases bound with
  | none =>
    simp only [getD_none, boundAllows, true_and]
    omega
  | some bound =>
    simp only [getD_some, boundAllows, decide_eq_true_iff]
    omega

theorem lt_length_sortRows {expressions : List SortExpr} {fetch : Option Nat}
    {rows' : List (Row V)} (h : E.sortRows outer expressions fetch rows = some rows') :
    skipped < rows'.length ↔ boundAllows fetch skipped = true ∧ skipped < rows.length := by
  obtain ⟨keys, hkeys, h⟩ := bind_eq_some_iff.mp h
  cases h
  have hlength := length_eq_of_mapM hkeys
  simp only [length_take, length_map, length_insertionSort, length_zip, hlength, min_self]
  cases fetch with
  | none => simp only [getD_none, min_self, boundAllows, true_and]
  | some fetch =>
    simp only [getD_some, boundAllows, decide_eq_true_iff]
    omega

/-! ## Pruned aggregates -/

variable {aggregates : List AggregateExpr} {groupWidth : Nat} {required : List Nat}

theorem selectedColumns_eq_nil (hwidth : groupWidth = 0)
    (h : (keepIndices (fun index => groupWidth + index ∈ required) aggregates).isEmpty = true) :
    selectedColumns groupWidth aggregates.length required = [] := by
  rw [List.isEmpty_iff, ← List.length_eq_zero_iff, length_keepIndices, List.length_eq_zero_iff] at h
  rw [selectedColumns, h, hwidth]
  rfl

/-- Two rows that aggregate the same group. -/
def SameGroup (E : Engine V) (outer : List (Row V)) (groupWidth : Nat)
    (aggregates aggregates' : List AggregateExpr) (row row' : Row V) : Prop :=
  ∃ (key : Row V) (group : List (Row V)) (values values' : Row V),
    key.length = groupWidth ∧
    aggregates.mapM (E.aggregateValue outer group) = some values ∧
    aggregates'.mapM (E.aggregateValue outer group) = some values' ∧
    row = key ++ values ∧ row' = key ++ values'

/-- Other aggregates of the same groups, as long as they have values. -/
theorem aggregateRows_replace (aggregates' : List AggregateExpr) {groupExprs : List BoundExpr}
    {out : List (Row V)} (h : E.aggregateRows outer groupExprs aggregates rows = some out)
    (hcolumns : groupExprs ≠ [] ∨ aggregates' ≠ [])
    (hsome : ∀ group values, aggregates.mapM (E.aggregateValue outer group) = some values →
      (aggregates'.mapM (E.aggregateValue outer group)).isSome = true) :
    ∃ out', E.aggregateRows outer groupExprs aggregates' rows = some out' ∧
      Forall₂ (SameGroup E outer groupExprs.length aggregates aggregates') out out' := by
  obtain ⟨-, groups, hgroups, h⟩ := aggregateRows_eq_some.mp h
  have hvalues : ∀ group ∈ groups,
      (do let values ← aggregates'.mapM (E.aggregateValue outer group.2)
          some (group.1 ++ values) : Option (Row V)).isSome = true := by
    intro group hgroup
    obtain ⟨row, -, hrow⟩ := exists_mem_of_mapM h hgroup
    obtain ⟨values, hvalues, -⟩ := bind_eq_some_iff.mp hrow
    obtain ⟨values', hvalues'⟩ := isSome_iff_exists.mp (hsome group.2 values hvalues)
    rw [hvalues']
    rfl
  obtain ⟨out', hout'⟩ := isSome_iff_exists.mp (mapM_isSome_iff.mpr hvalues)
  refine ⟨out', aggregateRows_eq_some.mpr ⟨hcolumns, groups, hgroups, hout'⟩, ?_⟩
  refine (forall₂_of_common (mapM_eq_some.mp h) (mapM_eq_some.mp hout')).imp ?_
  rintro row row' ⟨group, hgroup, hrow, hrow'⟩
  obtain ⟨values, hvalues, hrow⟩ := bind_eq_some_iff.mp hrow
  obtain ⟨values', hvalues', hrow'⟩ := bind_eq_some_iff.mp hrow'
  exact ⟨group.1, group.2, values, values', length_key_of_mem_groups hgroups hgroup,
    hvalues, hvalues', (some.inj hrow).symm, (some.inj hrow').symm⟩

theorem mapM_syntheticCount_isSome (group : List (Row V)) :
    ([syntheticCount].mapM (E.aggregateValue outer group)).isSome = true := rfl

/-- The kept columns of a row stand where the remapped predicate reads them. -/
theorem SameGroup.getElem?_selected {row row' : Row V}
    (h : SameGroup E outer groupWidth aggregates
      (keepIndices (fun index => groupWidth + index ∈ required) aggregates) row row')
    {position index : Nat}
    (hselected : (selectedColumns groupWidth aggregates.length required)[position]? =
      some index) : row'[position]? = row[index]? := by
  obtain ⟨key, group, values, values', hkey, hvalues, hvalues', rfl, rfl⟩ := h
  rw [mapM_keepIndices hvalues] at hvalues'
  cases hvalues'
  unfold selectedColumns at hselected
  rcases lt_or_ge position groupWidth with hlt | hge
  · rw [getElem?_append_left (by rwa [length_range]), getElem?_range hlt] at hselected
    cases hselected
    rw [getElem?_append_left (by omega), getElem?_append_left (by omega)]
  · rw [getElem?_append_right (by rwa [length_range]), length_range,
      getElem?_map, map_eq_some_iff] at hselected
    obtain ⟨offset, hoffset, rfl⟩ := hselected
    rw [← length_eq_of_mapM hvalues] at hoffset
    rw [getElem?_append_right (by omega), getElem?_append_right (by omega), hkey,
      getElem?_keepIndices hoffset, Nat.add_sub_cancel_left]

end Counting

/-! ## Pruned predicates -/

theorem mem_selectedColumns {groupWidth aggregateWidth index : Nat} {required : List Nat}
    (hindex : index < groupWidth + aggregateWidth) (hrequired : index ∈ required) :
    index ∈ selectedColumns groupWidth aggregateWidth required := by
  rw [selectedColumns, List.mem_append, List.mem_range, List.mem_map]
  rcases lt_or_ge index groupWidth with hlt | hge
  · exact .inl hlt
  · refine .inr ⟨index - groupWidth, mem_filter.mpr ⟨?_, ?_⟩, ?_⟩
    · exact mem_range.mpr (by omega)
    · rw [decide_eq_true_iff, Nat.add_sub_cancel' hge]
      exact hrequired
    · exact Nat.add_sub_cancel' hge

variable {predicate : BoundExpr}

theorem remapColumns_eq_ok {predicate' : BoundExpr} {mapping : Nat → Option Nat} :
    remapColumns predicate mapping = .ok predicate' ↔
      predicate.rewrite (remapRewrite mapping) = some predicate' := by
  unfold remapColumns
  split
  · next expr hexpr => rw [hexpr, Except.ok.injEq, some_inj]
  · next hnone => simp [hnone]

/-- No column is removed that the predicate reads. -/
theorem exists_remapColumns {selected : List Nat}
    (h : ∀ index ∈ predicate.referencedColumns, index ∈ selected) :
    ∃ predicate', remapColumns predicate (selected.idxOf? ·) = .ok predicate' := by
  have hsome : (predicate.rewrite (remapRewrite (selected.idxOf? ·))).isSome = true := by
    refine rewrite_isSome ⟨?_, fun _ _ _ _ => rfl, rfl⟩
    intro info index hleaf
    have hmem := h index (mem_referencedColumns.mpr ⟨info, hleaf⟩)
    show ((selected.idxOf? index).map (column info)).isSome = true
    rw [isSome_map]
    exact isSome_idxOf?.mpr hmem
  obtain ⟨predicate', hpredicate'⟩ := isSome_iff_exists.mp hsome
  exact ⟨predicate', remapColumns_eq_ok.mpr hpredicate'⟩

section Pruning

variable {V : Type} [DecidableEq V] {E : Engine V} {outer : List (Row V)}

theorem holds_remapColumns {predicate' : BoundExpr} {selected : List Nat}
    {row row' : Row V} (h : remapColumns predicate (selected.idxOf? ·) = .ok predicate')
    (hrows : ∀ position index : Nat, selected[position]? = some index →
      row'[position]? = row[index]?) :
    E.holds outer predicate row = E.holds outer predicate' row' := by
  have hvalue : predicate'.eval E.toScalars outer row' = predicate.eval E.toScalars outer row := by
    refine eval_rewrite (remapColumns_eq_ok.mp h) ⟨?_, ?_⟩
    · intro info index _ expr hexpr
      obtain ⟨position, hposition, rfl⟩ := map_eq_some_iff.mp hexpr
      obtain ⟨hlt, hget, -⟩ := idxOf?_eq_some_iff.mp hposition
      exact hrows position index (List.getElem?_eq_some_iff.mpr ⟨hlt, hget⟩)
    · intro info depth index _ expr hexpr
      cases hexpr
      rfl
  rw [holds, holds, hvalue]

variable {input : LogicalPlan}

/-- The HAVING predicate of a well-formed plan survives the pruning of the aggregates. -/
theorem exists_pruned (hinput : input.WellFormed) :
    ∃ input', pruneProjectionInput input = .ok input' := by
  unfold pruneProjectionInput
  split
  · split
    · exact ⟨_, rfl⟩
    · exact ⟨_, rfl⟩
  · next input groupExprs aggregateExprs schema predicate _ =>
    obtain ⟨⟨-, -, -, hwidth⟩, hpredicate, -⟩ := hinput
    have hselected : ∀ index ∈ predicate.referencedColumns, index ∈ selectedColumns
        groupExprs.length aggregateExprs.length predicate.referencedColumns := by
      intro index hindex
      refine mem_selectedColumns ?_ hindex
      rw [← hwidth]
      exact hpredicate index hindex
    obtain ⟨predicate', hpredicate'⟩ := exists_remapColumns hselected
    simp only [hpredicate']
    split
    · exact ⟨_, rfl⟩
    · exact ⟨_, rfl⟩
  · exact ⟨_, rfl⟩
  · exact ⟨_, rfl⟩

/-- Pruning keeps the number of rows. -/
theorem length_pruned {input' : LogicalPlan} {rows : List (Row V)}
    (hprune : pruneProjectionInput input = .ok input') (h : input.eval E outer = some rows) :
    ∃ rows', input'.eval E outer = some rows' ∧ rows'.length = rows.length := by
  unfold pruneProjectionInput at hprune
  split at hprune
  · next input groupExprs aggregateExprs schema =>
    obtain ⟨inner, hinner, h⟩ := bind_eq_some_iff.mp h
    split at hprune
    · cases hprune
      obtain ⟨out, hout, hall⟩ := aggregateRows_replace [syntheticCount] h (.inr nofun)
        fun group _ _ => mapM_syntheticCount_isSome group
      exact ⟨out, bind_eq_some_iff.mpr ⟨inner, hinner, hout⟩, hall.length_eq.symm⟩
    · next hgroups =>
      cases hprune
      obtain ⟨out, hout, hall⟩ := aggregateRows_replace [] h
        (.inl fun hnil => hgroups (by rw [hnil, length_nil])) fun _ _ _ => rfl
      exact ⟨out, bind_eq_some_iff.mpr ⟨inner, hinner, hout⟩, hall.length_eq.symm⟩
  · next input groupExprs aggregateExprs schema predicate _ =>
    obtain ⟨predicate', hpredicate', hprune⟩ := bind_eq_ok.mp hprune
    obtain ⟨grouped, hgrouped, h⟩ := bind_eq_some_iff.mp h
    obtain ⟨inner, hinner, hgrouped⟩ := bind_eq_some_iff.mp hgrouped
    dsimp only at hprune
    split at hprune
    · next hempty =>
      cases hprune
      obtain ⟨out, hout, hall⟩ := aggregateRows_replace [syntheticCount] hgrouped (.inr nofun)
        fun group _ _ => mapM_syntheticCount_isSome group
      -- The predicate reads no column: there are no groups, and it needs no aggregate.
      obtain ⟨kept, hkept, hrelated⟩ := tryFilter_forall₂ h hall fun row row' _ =>
        holds_remapColumns hpredicate' fun position index hselected => by
          rw [selectedColumns_eq_nil hempty.1 hempty.2] at hselected
          cases hselected
      refine ⟨kept, ?_, hrelated.length_eq.symm⟩
      exact bind_eq_some_iff.mpr ⟨out, bind_eq_some_iff.mpr ⟨inner, hinner, hout⟩, hkept⟩
    · next hkept =>
      cases hprune
      obtain ⟨out, hout, hall⟩ := aggregateRows_replace
        (keepIndices (fun index => groupExprs.length + index ∈ predicate.referencedColumns)
          aggregateExprs) hgrouped
        (by
          rw [← not_and_or]
          rintro ⟨hgroups, hnil⟩
          exact hkept ⟨by rw [hgroups, length_nil], by rw [hnil]; rfl⟩)
        fun _ _ hvalues => Option.isSome_of_eq_some (mapM_keepIndices hvalues)
      obtain ⟨kept, hkept, hrelated⟩ := tryFilter_forall₂ h hall fun row row' hgroup =>
        holds_remapColumns hpredicate' fun _ _ hselected => hgroup.getElem?_selected hselected
      refine ⟨kept, ?_, hrelated.length_eq.symm⟩
      exact bind_eq_some_iff.mpr ⟨out, bind_eq_some_iff.mpr ⟨inner, hinner, hout⟩, hkept⟩
  · cases hprune
    exact ⟨rows, h, rfl⟩
  · cases hprune
    exact ⟨rows, h, rfl⟩

end Pruning

/-! ## Erased subqueries -/

variable {plan : LogicalPlan}

theorem exists_erased_body (hplan : plan.WellFormed) (hbody : plan.isBody = true) :
    ∃ plan', eraseOutput plan = .ok plan' := by
  cases plan with
  | projection input expressions schema =>
    obtain ⟨input', hinput'⟩ := exists_pruned hplan.1
    exact ⟨_, bind_eq_ok.mpr ⟨input', hinput', rfl⟩⟩
  | aggregate | sort | limit => cases hbody
  | _ => exact ⟨_, rfl⟩

theorem eraseOutput_applyOrder (plan : LogicalPlan) (order : List SortExpr)
    (bound : Option Nat) (offset : Nat) :
    eraseOutput (applyOrder plan order bound offset) = eraseOutput plan := by
  unfold applyOrder
  split
  · rfl
  · rw [eraseOutput]

/-- The rewriting never fails on the plans of the planner. -/
theorem exists_erased (hplan : BuiltQuery plan) : ∃ plan', eraseOutput plan = .ok plan' := by
  induction hplan with
  | body plan hplan hbody => exact exists_erased_body hplan hbody
  | distinct input groupExprs schema hinput hbody =>
    rw [eraseOutput]
    exact exists_erased_body hinput hbody
  | query plan order offset bound _ ih =>
    obtain ⟨plan', hplan'⟩ := ih
    rw [← eraseOutput_applyOrder plan order bound offset] at hplan'
    unfold applyQueryLimit
    split
    · exact ⟨plan', hplan'⟩
    · rw [eraseOutput, hplan']
      split
      · exact ⟨_, rfl⟩
      · exact ⟨_, rfl⟩

section Erasing

variable {V : Type} [DecidableEq V] {E : Engine V} {outer : List (Row V)} {plan plan' : LogicalPlan}
  {rows : List (Row V)}

/-- Below the select list nothing changes that a count would show. -/
theorem length_erased_body (hbody : plan.isBody = true) (herase : eraseOutput plan = .ok plan')
    (h : plan.eval E outer = some rows) :
    ∃ rows', plan'.eval E outer = some rows' ∧ rows'.length = rows.length := by
  cases plan with
  | projection input expressions schema =>
    obtain ⟨input', hinput', herase⟩ := bind_eq_ok.mp herase
    cases herase
    obtain ⟨inner, hinner, h⟩ := bind_eq_some_iff.mp h
    obtain ⟨inner', hinner', hlength⟩ := length_pruned hinput' hinner
    have hones : (E.projectRows outer [existsRow] inner').isSome = true :=
      mapM_isSome_iff.mpr fun row _ => rfl
    obtain ⟨ones, hones⟩ := isSome_iff_exists.mp hones
    refine ⟨ones, bind_eq_some_iff.mpr ⟨inner', hinner', hones⟩, ?_⟩
    rw [length_eq_of_mapM hones, hlength, length_eq_of_mapM h]
  | aggregate | sort | limit => cases hbody
  | _ =>
    cases herase
    exact ⟨rows, h, rfl⟩

variable (E outer) in
/-- A dropped `DISTINCT` has a row after those that are skipped exactly when its input has. -/
def DistinctKeepsRow : Option (LogicalPlan × List BoundExpr × Nat) → Prop
  | none => True
  | some (input, groupExprs, skipped) =>
    ∀ rows groups, input.eval E outer = some rows →
      E.groups outer groupExprs rows = some groups →
      (skipped < groups.length ↔ skipped < rows.length)

theorem boundAllows_add (bound : Option Nat) (skipped offset : Nat) :
    boundAllows (bound.map (· + offset)) (skipped + offset) = boundAllows bound skipped := by
  cases bound with
  | none => rfl
  | some bound => simp [boundAllows]

variable {order : List SortExpr} {bound : Option Nat} {offset : Nat}

/-- The fetch of an order is no bound of its own. -/
theorem lt_length_applyOrder (h : (applyOrder plan order bound offset).eval E outer = some rows) :
    ∃ inner, plan.eval E outer = some inner ∧ ∀ skipped, boundAllows bound skipped = true →
      (skipped + offset < rows.length ↔ skipped + offset < inner.length) := by
  unfold applyOrder at h
  split at h
  · exact ⟨rows, h, fun _ _ => Iff.rfl⟩
  · obtain ⟨inner, hinner, h⟩ := bind_eq_some_iff.mp h
    refine ⟨inner, hinner, fun skipped hallows => ?_⟩
    rw [lt_length_sortRows h, boundAllows_add, hallows]
    exact and_iff_right rfl

theorem erasedDistinct_applyOrder {skipped : Nat} (h : boundAllows bound skipped = true) :
    erasedDistinct (applyOrder plan order bound offset) (skipped + offset) =
      erasedDistinct plan (skipped + offset) := by
  unfold applyOrder
  split
  · rfl
  · rw [erasedDistinct, boundAllows_add, if_pos h]

/-- An erased plan has more than `skipped` rows exactly when the plan has, unless a dropped
`DISTINCT` makes the difference. -/
theorem lt_length_erased_iff (hplan : BuiltQuery plan) (herase : eraseOutput plan = .ok plan')
    (h : plan.eval E outer = some rows) :
    ∃ rows', plan'.eval E outer = some rows' ∧ ∀ skipped,
      ((skipped < rows.length ↔ skipped < rows'.length) ↔
        DistinctKeepsRow E outer (erasedDistinct plan skipped)) := by
  induction hplan generalizing plan' rows with
  | body plan hplan hbody =>
    obtain ⟨rows', hrows', hlength⟩ := length_erased_body hbody herase h
    refine ⟨rows', hrows', fun skipped => iff_of_true (by rw [hlength]) ?_⟩
    cases plan with
    | aggregate | sort | limit => cases hbody
    | _ => exact trivial
  | distinct input groupExprs schema hinput hbody =>
    rw [eraseOutput] at herase
    obtain ⟨inner, hinner, h⟩ := bind_eq_some_iff.mp h
    obtain ⟨-, groups, hgroups, h⟩ := aggregateRows_eq_some.mp h
    obtain ⟨rows', hrows', hlength⟩ := length_erased_body hbody herase hinner
    refine ⟨rows', hrows', fun skipped => ?_⟩
    rw [length_eq_of_mapM h, hlength]
    constructor
    · intro hsame inner' groups' hinner' hgroups'
      rw [hinner] at hinner'
      cases hinner'
      rw [hgroups] at hgroups'
      cases hgroups'
      exact hsame
    · intro hkeeps
      exact hkeeps inner groups hinner hgroups
  | query plan order offset bound _ ih =>
    rw [← eraseOutput_applyOrder plan order bound offset] at ih
    unfold applyQueryLimit at herase h ⊢
    split at h
    · next hnone =>
      rw [if_pos hnone] at herase ⊢
      obtain ⟨inner, hinner, hcount⟩ := lt_length_applyOrder h
      obtain ⟨rows', hrows', hiff⟩ := ih herase hinner
      refine ⟨rows', hrows', fun skipped => ?_⟩
      have hallows : boundAllows bound skipped = true := by
        rw [hnone.2]
        rfl
      have hcount := hcount skipped hallows
      have hdistinct := @erasedDistinct_applyOrder plan order bound offset skipped hallows
      rw [hnone.1, add_zero] at hcount hdistinct
      rw [hnone.1, hdistinct, hcount]
      exact hiff skipped
    · next hsome =>
      rw [if_neg hsome] at herase ⊢
      obtain ⟨ordered, hordered, h⟩ := bind_eq_some_iff.mp h
      cases h
      obtain ⟨inner, hinner, hcount⟩ := lt_length_applyOrder hordered
      rw [eraseOutput] at herase
      split at herase
      · next hkept =>
        cases herase
        refine ⟨_, bind_eq_some_iff.mpr ⟨ordered, hordered, rfl⟩, fun skipped => ?_⟩
        refine iff_of_true Iff.rfl ?_
        rw [erasedDistinct, if_pos hkept]
        split <;> exact trivial
      · next hdropped =>
        obtain ⟨inner', hinner', herase⟩ := bind_eq_ok.mp herase
        cases herase
        obtain ⟨rows', hrows', hiff⟩ := ih hinner' hinner
        refine ⟨_, bind_eq_some_iff.mpr ⟨rows', hrows', rfl⟩, fun skipped => ?_⟩
        rw [lt_length_limitRows, lt_length_limitRows, erasedDistinct, if_neg hdropped]
        cases hallows : boundAllows bound skipped
        · exact iff_of_true (by simp) trivial
        · rw [if_pos rfl, erasedDistinct_applyOrder hallows, and_iff_right rfl,
            and_iff_right rfl, hcount skipped hallows]
          exact hiff (skipped + offset)

/-- The erased subquery of an `EXISTS` has a row exactly when the subquery has, unless the
enclosing offsets skip all rows of a dropped `DISTINCT` but not all rows of its input. -/
theorem erased_subquery_has_row_iff {plan : LogicalPlan} (hplan : BuiltQuery plan)
    {rows : List (Row V)} (h : plan.eval E outer = some rows) :
    (∃ plan' rows', eraseOutput plan = .ok plan' ∧ plan'.eval E outer = some rows' ∧
        (rows' ≠ [] ↔ rows ≠ [])) ↔
      DistinctKeepsRow E outer (erasedDistinct plan 0) := by
  obtain ⟨plan', hplan'⟩ := exists_erased hplan
  obtain ⟨rows', hrows', hiff⟩ := lt_length_erased_iff hplan hplan' h
  rw [← hiff 0, length_pos_iff, length_pos_iff]
  constructor
  · rintro ⟨plan'', rows'', hplan'', hrows'', hsame⟩
    rw [hplan'] at hplan''
    cases hplan''
    rw [hrows'] at hrows''
    cases hrows''
    exact hsame.symm
  · intro hsame
    exact ⟨plan', rows', hplan', hrows', hsame.symm⟩

end Erasing

/-! ## A nested limit hides a `DISTINCT` -/

/-- `SELECT DISTINCT a FROM t`. -/
def distinctQuery : LogicalPlan :=
  let schema : PlanSchema := .oneField "a" .int64 true
  let column : BoundExpr := .column ⟨.int64, "a"⟩ 0
  .aggregate (.projection (.scan ⟨"t", none, none, none, none, schema⟩) [column] schema)
    [column] [] schema

/-- `(SELECT DISTINCT a FROM t LIMIT 10) OFFSET offset`. -/
def nestedLimitQuery (offset : Nat) : LogicalPlan :=
  applyQueryLimit (applyOrder (applyQueryLimit (applyOrder distinctQuery [] (some 10) 0) 0
    (some 10)) [] none offset) offset none

theorem builtQuery_nestedLimitQuery (offset : Nat) : BuiltQuery (nestedLimitQuery offset) := by
  refine .query _ [] offset none (.query _ [] 0 (some 10) (.distinct _ _ _ ?_ rfl))
  exact ⟨trivial, by decide, rfl⟩

/-- The rows of `t`: two times the same. -/
def repeatedRow : String → List (Row (Option Int)) := fun _ => [[some 7], [some 7]]

/-- With one row skipped, the subquery is empty and the erased one is not. -/
theorem nested_limit_hides_distinct :
    BuiltQuery (nestedLimitQuery 1) ∧
      (nestedLimitQuery 1).eval (.integers repeatedRow) [] = some [] ∧
      ∃ plan', eraseOutput (nestedLimitQuery 1) = .ok plan' ∧
        plan'.eval (.integers repeatedRow) [] = some [[some 1]] :=
  ⟨builtQuery_nestedLimitQuery 1, by decide +kernel, _, rfl, by decide +kernel⟩

/-- Without an offset the same subquery is erased faithfully. -/
theorem nested_limit_without_offset :
    ∃ plan' rows', eraseOutput (nestedLimitQuery 0) = .ok plan' ∧
      plan'.eval (.integers repeatedRow) [] = some rows' ∧
      (rows' ≠ [] ↔ ([[some 7]] : List (Row (Option Int))) ≠ []) := by
  refine (erased_subquery_has_row_iff (builtQuery_nestedLimitQuery 0) ?_).mpr ?_
  · decide +kernel
  · intro rows groups hrows hgroups
    have hrows' : rows = [[some 7], [some 7]] := some.inj (hrows.symm.trans (by decide +kernel))
    subst hrows'
    have hgroups' : groups = [([some 7], [[some 7], [some 7]])] :=
      some.inj (hgroups.symm.trans (by decide +kernel))
    subst hgroups'
    decide

end RustDb.Sql
