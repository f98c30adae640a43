import RustDb.Optimizer.FilterPass

/-!
# Filters and joins

When a filter above a join may be a filter of one of its inputs.

* `below_filter_join_left`: a filter on left columns moves to the left input of a join that
  works left row by left row.  Errors of the join may get lost, rows not.
* `eq_filter_join_left`, `eq_filter_join_right`: when the predicates of the join cannot fail,
  nothing changes.
-/

namespace RustDb.Optimizer

open RustDb.Lib RustDb.Sql List Option LogicalPlan Engine BoundExpr

/-- The joins that give the rows of each left row together. -/
def leftMajor : JoinType → Bool
  | .right | .full => false
  | _ => true

/-- No expression of the condition can fail. -/
def innerPredicatesInfallible (condition : JoinCondition) : Bool :=
  condition.on.all (fun pair =>
      pair.1.isStructurallyInfallible && pair.2.isStructurallyInfallible) &&
    condition.residual.all isStructurallyInfallible &&
    condition.nullAware.all fun pair =>
      pair.1.isStructurallyInfallible && pair.2.isStructurallyInfallible

section

variable {V : Type} [DecidableEq V] {E : Engine V} {outer : List (Row V)}
  {condition : JoinCondition} {joinType : JoinType} {leftWidth rightWidth : Nat}

/-! ## Rows -/

variable {row : Row V}

/-- A predicate on the columns of the first part does not see the second part. -/
theorem holds_append_left {predicate : BoundExpr} (hrange : predicate.InRange row.length)
    (suffix : Row V) : E.holds outer predicate (row ++ suffix) = E.holds outer predicate row := by
  rw [holds, holds, eval_congr]
  intro index hindex
  exact getElem?_append_left (hrange index hindex)

variable {rows : List (Row V)} {test : Row V → Bool} {left : Probe V}

/-- All rows of a left row begin with it. -/
theorem exists_suffix_of_mem_leftOutput {candidates : List (Probe V)}
    (h : E.leftOutput joinType rightWidth left candidates = some rows) (hrow : row ∈ rows) :
    ∃ suffix, row = left.row ++ suffix := by
  have hpairs : row ∈ candidates.map (fun right => left.row ++ right.row) →
      ∃ suffix, row = left.row ++ suffix := by
    intro hmem
    obtain ⟨right, -, rfl⟩ := mem_map.mp hmem
    exact ⟨right.row, rfl⟩
  have hkept : ∀ kept : Prop, [Decidable kept] → row ∈ (if kept then [left.row] else []) →
      ∃ suffix, row = left.row ++ suffix := by
    intro kept _ hmem
    split at hmem
    · exact ⟨[], by rw [mem_singleton.mp hmem, append_nil]⟩
    · cases hmem
  unfold leftOutput at h
  cases joinType with
  | inner | right =>
    cases h
    exact hpairs hrow
  | left | full =>
    cases h
    split at hrow
    · exact ⟨_, mem_singleton.mp hrow⟩
    · exact hpairs hrow
  | semi =>
    cases h
    rw [← ite_not] at hrow
    exact hkept _ hrow
  | anti | nullAwareAnti =>
    cases h
    exact hkept _ hrow
  | leftSingle =>
    match candidates, h with
    | [], h | [right], h =>
      cases h
      exact ⟨_, mem_singleton.mp hrow⟩
  | mark =>
    cases h
    exact ⟨_, mem_singleton.mp hrow⟩

variable {keys : List BoundExpr} {member : Option BoundExpr}

/-- The probes of the rows that pass a test. -/
theorem probes_filter {probes : List (Probe V)}
    (h : E.probes outer keys member rows = some probes) (test : Row V → Bool) :
    E.probes outer keys member (rows.filter test) =
      some (probes.filter fun probe => test probe.row) := by
  refine mapM_filter h fun row hrow probe hprobe => ?_
  obtain ⟨values, -, hprobe⟩ := bind_eq_some_iff.mp hprobe
  cases member with
  | none =>
    cases hprobe
    rfl
  | some expr =>
    obtain ⟨value, -, hprobe⟩ := bind_eq_some_iff.mp hprobe
    cases hprobe
    rfl

/-! ## Filters on the left -/

variable {lefts rights : List (Probe V)}

theorem leftRows_filter_left
    (h : E.leftRows outer condition joinType rightWidth lefts rights = some rows)
    (htest : ∀ left ∈ lefts, ∀ suffix, test (left.row ++ suffix) = test left.row) :
    E.leftRows outer condition joinType rightWidth
      (lefts.filter fun left => test left.row) rights = some (rows.filter test) := by
  refine filter_tryFlatMap h fun left hleft part hpart row hrow => ?_
  obtain ⟨candidates, -, hpart⟩ := bind_eq_some_iff.mp hpart
  obtain ⟨suffix, rfl⟩ := exists_suffix_of_mem_leftOutput hpart hrow
  exact htest left hleft suffix

theorem joinRows_filter_left (hmajor : leftMajor joinType = true)
    {lefts rights : List (Row V)}
    (h : E.joinRows outer condition joinType leftWidth rightWidth lefts rights = some rows)
    (htest : ∀ left ∈ lefts, ∀ suffix, test (left ++ suffix) = test left) :
    E.joinRows outer condition joinType leftWidth rightWidth (lefts.filter test) rights =
      some (rows.filter test) := by
  obtain ⟨leftProbes, hleftProbes, h⟩ := bind_eq_some_iff.mp h
  obtain ⟨rightProbes, hrightProbes, h⟩ := bind_eq_some_iff.mp h
  refine bind_eq_some_iff.mpr ⟨_, probes_filter hleftProbes test, ?_⟩
  refine bind_eq_some_iff.mpr ⟨rightProbes, hrightProbes, ?_⟩
  have hprobeTest : ∀ left ∈ leftProbes, ∀ suffix, test (left.row ++ suffix) = test left.row := by
    intro left hleft
    apply htest
    rw [← map_row_probes hleftProbes]
    exact mem_map_of_mem hleft
  cases joinType with
  | right | full => cases hmajor
  | inner | left | semi | anti | leftSingle | mark | nullAwareAnti =>
    exact leftRows_filter_left h hprobeTest

/-! ## Filters on the right -/

variable {test' : Row V → Bool}

theorem rightRows_filter_right
    (h : E.rightRows outer condition leftWidth lefts rights = some rows)
    (hlefts : ∀ left ∈ lefts, left.row.length = leftWidth)
    (htest : ∀ left right : Row V, left.length = leftWidth →
      test (left ++ right) = test' right) :
    E.rightRows outer condition leftWidth lefts
      (rights.filter fun right => test' right.row) = some (rows.filter test) := by
  refine filter_tryFlatMap h fun right hright part hpart row hrow => ?_
  obtain ⟨candidates, hcandidates, hpart⟩ := bind_eq_some_iff.mp hpart
  obtain ⟨-, rfl⟩ := tryFilter_eq_some.mp hcandidates
  cases hpart
  split at hrow
  · rw [mem_singleton.mp hrow]
    exact htest _ _ (length_nulls _)
  · obtain ⟨left, hleft, rfl⟩ := mem_map.mp hrow
    exact htest _ _ (hlefts left (mem_filter.mp hleft).1)

theorem innerRows_filter_right
    (h : E.leftRows outer condition .inner rightWidth lefts rights = some rows)
    (hlefts : ∀ left ∈ lefts, left.row.length = leftWidth)
    (htest : ∀ left right : Row V, left.length = leftWidth →
      test (left ++ right) = test' right) :
    E.leftRows outer condition .inner rightWidth lefts
      (rights.filter fun right => test' right.row) = some (rows.filter test) := by
  refine tryFlatMap_filter_parts h fun left hleft part hpart => ?_
  obtain ⟨candidates, hcandidates, hpart⟩ := Option.bind_eq_some_iff.mp hpart
  cases hpart
  refine Option.bind_eq_some_iff.mpr ⟨_, tryFilter_filter hcandidates, ?_⟩
  show some _ = some _
  rw [List.filter_map]
  refine congrArg (fun probes => some (List.map _ probes)) (List.filter_congr fun right _ => ?_)
  exact (htest left.row right.row (hlefts left hleft)).symm

theorem joinRows_filter_right (hright : joinType = .right ∨ joinType = .inner)
    {lefts rights : List (Row V)} (hlefts : HasWidth leftWidth lefts)
    (h : E.joinRows outer condition joinType leftWidth rightWidth lefts rights = some rows)
    (htest : ∀ left right : Row V, left.length = leftWidth →
      test (left ++ right) = test' right) :
    E.joinRows outer condition joinType leftWidth rightWidth lefts (rights.filter test') =
      some (rows.filter test) := by
  obtain ⟨leftProbes, hleftProbes, h⟩ := bind_eq_some_iff.mp h
  obtain ⟨rightProbes, hrightProbes, h⟩ := bind_eq_some_iff.mp h
  refine bind_eq_some_iff.mpr ⟨leftProbes, hleftProbes, ?_⟩
  refine bind_eq_some_iff.mpr ⟨_, probes_filter hrightProbes test', ?_⟩
  have hwidths := hasWidth_of_probes hlefts hleftProbes
  obtain rfl | rfl := hright
  · exact rightRows_filter_right h hwidths htest
  · exact innerRows_filter_right h hwidths htest

/-! ## Joins that cannot fail -/

/-- The keys of one side of the condition. -/
theorem probes_isSome {width : Nat} {side : BoundExpr × BoundExpr → BoundExpr}
    (hrows : HasWidth width rows)
    (hkeys : ∀ pair ∈ condition.on,
      (side pair).isStructurallyInfallible = true ∧ (side pair).InRange width)
    (hmember : ∀ pair, condition.nullAware = some pair →
      (side pair).isStructurallyInfallible = true ∧ (side pair).InRange width) :
    (E.probes outer (condition.on.map side) (condition.nullAware.map side) rows).isSome =
      true := by
  have heval {expr : BoundExpr} {row : Row V} (hrow : row ∈ rows)
      (h : expr.isStructurallyInfallible = true ∧ expr.InRange width) :
      (expr.eval E.toScalars outer row).isSome = true :=
    isSome_eval_of_infallible h.1 (hrows row hrow ▸ h.2)
  refine mapM_isSome_iff.mpr fun row hrow => isSome_bind ?_ fun _ _ => ?_
  · refine mapM_isSome_iff.mpr fun key hkey => ?_
    obtain ⟨pair, hpair, rfl⟩ := mem_map.mp hkey
    exact heval hrow (hkeys pair hpair)
  · cases hpair : condition.nullAware with
    | none => rfl
    | some pair => exact isSome_bind (heval hrow (hmember pair hpair)) fun _ _ => rfl

/-- A condition whose expressions cannot fail, spelled out. -/
structure Infallible (condition : JoinCondition) : Prop where
  keys : ∀ pair ∈ condition.on, pair.1.isStructurallyInfallible = true ∧
    pair.2.isStructurallyInfallible = true
  residual : ∀ residual, condition.residual = some residual →
    residual.isStructurallyInfallible = true
  nullAware : ∀ pair, condition.nullAware = some pair →
    pair.1.isStructurallyInfallible = true ∧ pair.2.isStructurallyInfallible = true

omit [DecidableEq V] in
theorem infallible_of_check (h : innerPredicatesInfallible condition = true) :
    Infallible condition := by
  simp only [innerPredicatesInfallible, Bool.and_eq_true, List.all_eq_true, Option.all_eq_true] at h
  exact ⟨h.1.1, fun residual hresidual => h.1.2 residual hresidual,
    fun pair hpair => h.2 pair hpair⟩

theorem qualifies_isSome (hcondition : Infallible condition)
    (hrange : condition.InRange leftWidth rightWidth) {right : Probe V}
    (hleft : left.row.length = leftWidth) (hright : right.row.length = rightWidth) :
    (E.qualifies outer condition left right).isSome = true := by
  unfold qualifies
  split
  · cases hresidual : condition.residual with
    | none => rfl
    | some residual =>
      show (E.holds outer residual (left.row ++ right.row)).isSome = true
      rw [holds, isSome_map]
      refine isSome_eval_of_infallible (hcondition.residual residual hresidual) ?_
      rw [length_append, hleft, hright]
      exact hrange.residual residual hresidual
  · rfl

theorem leftOutput_isSome (hsingle : joinType ≠ .leftSingle) (left : Probe V)
    (candidates : List (Probe V)) :
    (E.leftOutput joinType rightWidth left candidates).isSome = true := by
  cases joinType with
  | leftSingle => exact absurd rfl hsingle
  | _ => rfl

/-- A join whose condition cannot fail has a result. -/
theorem joinRows_isSome (hsingle : joinType ≠ .leftSingle) (hcondition : Infallible condition)
    (hrange : condition.InRange leftWidth rightWidth) {lefts rights : List (Row V)}
    (hlefts : HasWidth leftWidth lefts) (hrights : HasWidth rightWidth rights) :
    (E.joinRows outer condition joinType leftWidth rightWidth lefts rights).isSome = true := by
  have hleftProbes : (E.probes outer _ _ lefts).isSome = true := probes_isSome hlefts
    (fun pair h => ⟨(hcondition.keys pair h).1, (hrange.keys pair h).1⟩)
    fun pair h => ⟨(hcondition.nullAware pair h).1, (hrange.nullAware pair h).1⟩
  have hrightProbes : (E.probes outer _ _ rights).isSome = true := probes_isSome hrights
    (fun pair h => ⟨(hcondition.keys pair h).2, (hrange.keys pair h).2⟩)
    fun pair h => ⟨(hcondition.nullAware pair h).2, (hrange.nullAware pair h).2⟩
  refine isSome_bind hleftProbes fun leftProbes hleftProbes =>
    isSome_bind hrightProbes fun rightProbes hrightProbes => ?_
  have hleftWidths := hasWidth_of_probes hlefts hleftProbes
  have hrightWidths := hasWidth_of_probes hrights hrightProbes
  have hqualifies : ∀ left ∈ leftProbes, ∀ right ∈ rightProbes,
      (E.qualifies outer condition left right).isSome = true := fun left hleft right hright =>
    qualifies_isSome hcondition hrange (hleftWidths left hleft) (hrightWidths right hright)
  -- In each join the candidates of a row exist, and so do the rows made of them.
  have hleftRows : (E.leftRows outer condition joinType rightWidth leftProbes
      rightProbes).isSome = true := by
    refine tryFlatMap_isSome_iff.mpr fun left hleft => ?_
    rw [tryFilter_eq_filter (hqualifies left hleft)]
    exact leftOutput_isSome hsingle left _
  have hcandidates : ∀ right ∈ rightProbes, tryFilter
      (fun left => E.qualifies outer condition left right) leftProbes = some (leftProbes.filter
        fun left => E.qualifies outer condition left right = some true) :=
    fun right hright => tryFilter_eq_filter fun left hleft => hqualifies left hleft right hright
  have hrightRows : (E.rightRows outer condition leftWidth leftProbes
      rightProbes).isSome = true := by
    refine tryFlatMap_isSome_iff.mpr fun right hright => ?_
    rw [hcandidates right hright]
    rfl
  have hunmatched : (E.unmatchedRows outer condition leftWidth leftProbes
      rightProbes).isSome = true := by
    refine tryFlatMap_isSome_iff.mpr fun right hright => ?_
    rw [hcandidates right hright]
    rfl
  cases joinType with
  | right => exact hrightRows
  | full =>
    exact isSome_bind hleftRows fun _ _ => isSome_bind hunmatched fun _ _ => rfl
  | inner | left | semi | anti | leftSingle | mark | nullAwareAnti => exact hleftRows

end

/-! ## Plans -/

section Plans

variable {V : Type} [DecidableEq V] {E : Engine V} {left right : LogicalPlan}
  {condition : JoinCondition} {joinType : JoinType} {joinSchema : PlanSchema}
  {predicate : BoundExpr}

section

variable (hjoin : (join left right condition joinType joinSchema).WellFormed)
include hjoin

/-- A filter on the left columns moves to the left input.  An error of the join can only
disappear. -/
theorem below_filter_join_left (hmajor : leftMajor joinType = true)
    (hpredicate : predicate.isStructurallyInfallible = true)
    (hrange : predicate.InRange left.width) (schema schema' : PlanSchema) : Related E Below
      (.filter (.join left right condition joinType joinSchema) predicate schema)
      (.join (.filter left predicate left.schema) right condition joinType schema') := by
  intro outer rows h
  obtain ⟨joined, hjoined, h⟩ := bind_eq_some_iff.mp h
  obtain ⟨lefts, hlefts, hjoined⟩ := bind_eq_some_iff.mp hjoined
  obtain ⟨rights, hrights, hjoined⟩ := bind_eq_some_iff.mp hjoined
  obtain ⟨-, rfl⟩ := tryFilter_eq_some.mp h
  have hwidth := hasWidth_eval hjoin.1 hlefts
  refine bind_eq_some_iff.mpr ⟨lefts.filter fun row => E.holds outer predicate row =
    some true, ?_, bind_eq_some_iff.mpr ⟨rights, hrights, ?_⟩⟩
  · exact bind_eq_some_iff.mpr
      ⟨lefts, hlefts, tryFilter_eq_filter (hwidth.holds_isSome E outer hpredicate hrange)⟩
  · refine joinRows_filter_left hmajor hjoined fun row hrow suffix => ?_
    rw [holds_append_left (hwidth row hrow ▸ hrange)]

variable {outer : List (Row V)}

/-- A filtered join that cannot fail has a result when its inputs have. -/
theorem filter_join_isSome (hsingle : joinType ≠ .leftSingle)
    (hcondition : innerPredicatesInfallible condition = true)
    (hpredicate : predicate.isStructurallyInfallible = true)
    (hrange : predicate.InRange joinSchema.width) (schema : PlanSchema)
    (hleft : (left.eval E outer).isSome = true) (hright : (right.eval E outer).isSome = true) :
    ((filter (.join left right condition joinType joinSchema) predicate
      schema).eval E outer).isSome = true := by
  have hjoined : ((join left right condition joinType joinSchema).eval E
      outer).isSome = true :=
    isSome_bind hleft fun lefts hlefts => isSome_bind hright fun rights hrights =>
      joinRows_isSome hsingle (infallible_of_check hcondition) hjoin.2.2.1
        (hasWidth_eval hjoin.1 hlefts) (hasWidth_eval hjoin.2.1 hrights)
  refine isSome_bind hjoined fun joined heval => ?_
  have hwidth : HasWidth joinSchema.width joined := hasWidth_eval hjoin heval
  rw [filterRows, tryFilter_eq_filter (hwidth.holds_isSome E outer hpredicate hrange)]
  rfl

end

theorem inputs_isSome_of_join
    (h : ((join left right condition joinType joinSchema).eval E outer).isSome =
      true) : (left.eval E outer).isSome = true ∧ (right.eval E outer).isSome = true := by
  obtain ⟨rows, h⟩ := isSome_iff_exists.mp h
  obtain ⟨lefts, hlefts, h⟩ := bind_eq_some_iff.mp h
  obtain ⟨rights, hrights, -⟩ := bind_eq_some_iff.mp h
  exact ⟨isSome_iff_exists.mpr ⟨lefts, hlefts⟩, isSome_iff_exists.mpr ⟨rights, hrights⟩⟩

/-- The input of a filter with a result has a result. -/
theorem input_isSome_of_filter {input : LogicalPlan} {schema : PlanSchema}
    (h : ((filter input predicate schema).eval E outer).isSome = true) :
    (input.eval E outer).isSome = true := by
  obtain ⟨rows, h⟩ := isSome_iff_exists.mp h
  obtain ⟨inner, hinner, -⟩ := bind_eq_some_iff.mp h
  exact isSome_iff_exists.mpr ⟨inner, hinner⟩

section

variable (hjoin : (join left right condition joinType joinSchema).WellFormed)
include hjoin

/-- On the left nothing changes when the predicates of the join cannot fail. -/
theorem eq_filter_join_left (hmajor : leftMajor joinType = true)
    (hsingle : joinType ≠ .leftSingle) (hcondition : innerPredicatesInfallible condition = true)
    (hpredicate : predicate.isStructurallyInfallible = true)
    (hrange : predicate.InRange left.width) (houtput : predicate.InRange joinSchema.width)
    (schema schema' : PlanSchema) : Related E (fun _ x y => x = y)
      (.filter (.join left right condition joinType joinSchema) predicate schema)
      (.join (.filter left predicate left.schema) right condition joinType schema') := by
  intro outer
  refine (below_filter_join_left hjoin hmajor hpredicate hrange schema schema' outer).eq ?_
  intro hsome
  obtain ⟨hleft, hright⟩ := inputs_isSome_of_join hsome
  exact filter_join_isSome hjoin hsingle hcondition hpredicate houtput schema
    (input_isSome_of_filter hleft) hright

/-- On the right nothing changes when the predicates of the join cannot fail.  `predicate'`
is the predicate on the right columns alone. -/
theorem eq_filter_join_right {predicate' : BoundExpr}
    (hright : joinType = .right ∨ joinType = .inner)
    (hcondition : innerPredicatesInfallible condition = true)
    (hpredicate : predicate.isStructurallyInfallible = true)
    (hpredicate' : predicate'.isStructurallyInfallible = true)
    (hrange : predicate'.InRange right.width) (houtput : predicate.InRange joinSchema.width)
    (hsame : ∀ outer (row row' : Row V), row.length = left.width →
      E.holds outer predicate (row ++ row') = E.holds outer predicate' row')
    (schema schema' : PlanSchema) : Related E (fun _ x y => x = y)
      (.filter (.join left right condition joinType joinSchema) predicate schema)
      (.join left (.filter right predicate' right.schema) condition joinType schema') := by
  intro outer
  refine Below.eq ?_ ?_
  · intro rows h
    obtain ⟨joined, hjoined, h⟩ := bind_eq_some_iff.mp h
    obtain ⟨lefts, hlefts, hjoined⟩ := bind_eq_some_iff.mp hjoined
    obtain ⟨rights, hrights, hjoined⟩ := bind_eq_some_iff.mp hjoined
    obtain ⟨-, rfl⟩ := tryFilter_eq_some.mp h
    have hwidth := hasWidth_eval hjoin.2.1 hrights
    refine bind_eq_some_iff.mpr ⟨lefts, hlefts, bind_eq_some_iff.mpr
      ⟨rights.filter fun row => E.holds outer predicate' row = some true, ?_, ?_⟩⟩
    · exact bind_eq_some_iff.mpr
        ⟨rights, hrights, tryFilter_eq_filter (hwidth.holds_isSome E outer hpredicate' hrange)⟩
    · refine joinRows_filter_right hright (hasWidth_eval hjoin.1 hlefts) hjoined ?_
      intro row row' hrow
      rw [hsame outer row row' hrow]
  · intro hsome
    have hsingle : joinType ≠ .leftSingle := by
      rintro rfl
      obtain h | h := hright <;> cases h
    obtain ⟨hleft, hfiltered⟩ := inputs_isSome_of_join hsome
    exact filter_join_isSome hjoin hsingle hcondition hpredicate houtput schema hleft
      (input_isSome_of_filter hfiltered)

end

end Plans

end RustDb.Optimizer
