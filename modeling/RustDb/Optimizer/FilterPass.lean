import RustDb.Sql.WellFormed

/-!
# Passes over filters

Two passes of the optimizer rebuild a plan from its leaves and treat only the filters in a
way of their own.

* `mapFilters`: such a pass, with the treatment of a filter as a parameter.
* `Sound`: what a treatment must do, up to a relation between results that sequencing
  respects.
* `related_mapFilters`: a sound treatment makes a sound pass.
* `FilterCoalesce.apply`: the pass that joins adjacent filters.
-/

namespace RustDb.Optimizer

open RustDb.Lib RustDb.Sql LogicalPlan

mutual

/-- The plan rebuilt from its leaves, with the filters treated by `onFilter`.  A filter meets its
input as the pass has left it. -/
def mapFilters (onFilter : BoundExpr → LogicalPlan → PlanSchema → LogicalPlan) :
    LogicalPlan → LogicalPlan
  | .empty produceOneRow schema => .empty produceOneRow schema
  | .scan source => .scan source
  | .filter input predicate schema => onFilter predicate (mapFilters onFilter input) schema
  | .projection input expressions schema =>
    .projection (mapFilters onFilter input) expressions schema
  | .scalarize input schema => .scalarize (mapFilters onFilter input) schema
  | .dependentJoin left right kind guard schema =>
    .dependentJoin (mapFilters onFilter left) (mapFilters onFilter right) kind guard schema
  | .aggregate input groupExprs aggregateExprs schema =>
    .aggregate (mapFilters onFilter input) groupExprs aggregateExprs schema
  | .append inputs schema => .append (mapFiltersAll onFilter inputs) schema
  | .repeatRows input count schema => .repeatRows (mapFilters onFilter input) count schema
  | .window input expressions schema => .window (mapFilters onFilter input) expressions schema
  | .sort input expressions fetch schema =>
    .sort (mapFilters onFilter input) expressions fetch schema
  | .limit input offset bound schema => .limit (mapFilters onFilter input) offset bound schema
  | .join left right condition joinType schema =>
    .join (mapFilters onFilter left) (mapFilters onFilter right) condition joinType schema

/-- The filters of several plans. -/
def mapFiltersAll (onFilter : BoundExpr → LogicalPlan → PlanSchema → LogicalPlan) :
    List LogicalPlan → List LogicalPlan
  | [] => []
  | input :: inputs => mapFilters onFilter input :: mapFiltersAll onFilter inputs

end

mutual

/-- A property of all filters that the pass meets, each with its rebuilt input. -/
def AllFilters (onFilter : BoundExpr → LogicalPlan → PlanSchema → LogicalPlan)
    (P : BoundExpr → LogicalPlan → Prop) : LogicalPlan → Prop
  | .empty .. => True
  | .scan _ => True
  | .filter input predicate _ =>
    AllFilters onFilter P input ∧ P predicate (mapFilters onFilter input)
  | .projection input _ _ => AllFilters onFilter P input
  | .scalarize input _ => AllFilters onFilter P input
  | .dependentJoin left right _ _ _ => AllFilters onFilter P left ∧ AllFilters onFilter P right
  | .aggregate input _ _ _ => AllFilters onFilter P input
  | .append inputs _ => AllFiltersAll onFilter P inputs
  | .repeatRows input _ _ => AllFilters onFilter P input
  | .window input _ _ => AllFilters onFilter P input
  | .sort input _ _ _ => AllFilters onFilter P input
  | .limit input _ _ _ => AllFilters onFilter P input
  | .join left right _ _ _ => AllFilters onFilter P left ∧ AllFilters onFilter P right

/-- The property of the filters of several plans. -/
def AllFiltersAll (onFilter : BoundExpr → LogicalPlan → PlanSchema → LogicalPlan)
    (P : BoundExpr → LogicalPlan → Prop) : List LogicalPlan → Prop
  | [] => True
  | input :: inputs => AllFilters onFilter P input ∧ AllFiltersAll onFilter P inputs

end

/-! ## Shapes -/

section Shapes

variable {onFilter : BoundExpr → LogicalPlan → PlanSchema → LogicalPlan}

/-- The treatment of a filter keeps plans well-formed and their width. -/
def KeepsShape (onFilter : BoundExpr → LogicalPlan → PlanSchema → LogicalPlan) : Prop :=
  ∀ predicate input schema, (filter input predicate schema).WellFormed →
    (onFilter predicate input schema).WellFormed ∧
      (onFilter predicate input schema).width = input.width

theorem mapFiltersAll_eq (inputs : List LogicalPlan) :
    mapFiltersAll onFilter inputs = inputs.map (mapFilters onFilter) := by
  induction inputs with
  | nil => rfl
  | cons input inputs ih => rw [mapFiltersAll, ih, List.map_cons]

theorem allFiltersAll_iff {P : BoundExpr → LogicalPlan → Prop} {inputs : List LogicalPlan} :
    AllFiltersAll onFilter P inputs ↔ ∀ input ∈ inputs, AllFilters onFilter P input := by
  induction inputs with
  | nil => simp [AllFiltersAll]
  | cons input inputs ih => rw [AllFiltersAll, ih, List.forall_mem_cons]

theorem allFilters_true (onFilter : BoundExpr → LogicalPlan → PlanSchema → LogicalPlan)
    (plan : LogicalPlan) : AllFilters onFilter (fun _ _ => True) plan := by
  induction plan using induction with
  | empty | scan => trivial
  | filter input predicate schema ih => exact ⟨ih, trivial⟩
  | projection input expressions schema ih | scalarize input schema ih
  | repeatRows input count schema ih | window input expressions schema ih
  | limit input offset bound schema ih | sort input expressions fetch schema ih
  | aggregate input groupExprs aggregateExprs schema ih => exact ih
  | dependentJoin left right kind guard schema ihleft ihright => exact ⟨ihleft, ihright⟩
  | join left right condition joinType schema ihleft ihright => exact ⟨ihleft, ihright⟩
  | append inputs schema ih => exact allFiltersAll_iff.mpr ih

/-- The pass keeps plans well-formed and their width. -/
theorem wellFormed_mapFilters (hkeeps : KeepsShape onFilter) {plan : LogicalPlan}
    (hplan : plan.WellFormed) :
    (mapFilters onFilter plan).WellFormed ∧ (mapFilters onFilter plan).width = plan.width := by
  induction plan using induction with
  | empty | scan => exact ⟨trivial, rfl⟩
  | filter input predicate schema ih =>
    obtain ⟨hinput, hpredicate, hwidth⟩ := hplan
    obtain ⟨hinput', hwidth'⟩ := ih hinput
    obtain ⟨hresult, hsame⟩ := hkeeps predicate (mapFilters onFilter input) schema
      ⟨hinput', hwidth' ▸ hpredicate, hwidth.trans hwidth'.symm⟩
    exact ⟨hresult, hsame.trans (hwidth'.trans hwidth.symm)⟩
  | projection input _ _ ih | scalarize input _ ih | aggregate input _ _ _ ih
  | repeatRows input _ _ ih | window input _ _ ih | sort input _ _ _ ih | limit input _ _ _ ih =>
    obtain ⟨hinput, hrest⟩ := hplan
    obtain ⟨hinput', hwidth'⟩ := ih hinput
    refine ⟨⟨hinput', ?_⟩, rfl⟩
    rw [hwidth']
    exact hrest
  | dependentJoin left right kind guard schema ihleft ihright =>
    obtain ⟨hleft, hright, hwidth⟩ := hplan
    obtain ⟨hleft', hwidth'⟩ := ihleft hleft
    exact ⟨⟨hleft', (ihright hright).1, hwidth' ▸ hwidth⟩, rfl⟩
  | append inputs schema ih =>
    refine ⟨?_, rfl⟩
    show AllWellFormed schema.width (mapFiltersAll onFilter inputs)
    rw [mapFiltersAll_eq, allWellFormed_iff]
    intro input' hinput'
    obtain ⟨input, hinput, rfl⟩ := List.mem_map.mp hinput'
    obtain ⟨hwell, hwidth⟩ := allWellFormed_iff.mp hplan input hinput
    obtain ⟨hwell', hwidth'⟩ := ih input hinput hwell
    exact ⟨hwell', hwidth'.trans hwidth⟩
  | join left right condition joinType schema ihleft ihright =>
    obtain ⟨hleft, hright, hrest⟩ := hplan
    obtain ⟨hleft', hleftWidth⟩ := ihleft hleft
    obtain ⟨hright', hrightWidth⟩ := ihright hright
    refine ⟨⟨hleft', hright', ?_⟩, rfl⟩
    rw [hleftWidth, hrightWidth]
    exact hrest

end Shapes

/-! ## Soundness -/

section Soundness

variable {V : Type} [DecidableEq V] {E : Engine V}
  {R : (α : Type) → Option α → Option α → Prop}
  {onFilter : BoundExpr → LogicalPlan → PlanSchema → LogicalPlan}
  {P : BoundExpr → LogicalPlan → Prop}

/-- The results of a second plan are related to those of a first one. -/
def Related (E : Engine V) (R : (α : Type) → Option α → Option α → Prop)
    (plan plan' : LogicalPlan) : Prop :=
  ∀ outer, R (List (Row V)) (plan.eval E outer) (plan'.eval E outer)

/-- The treatment of a filter is related to the filter. -/
def Sound (E : Engine V) (R : (α : Type) → Option α → Option α → Prop)
    (onFilter : BoundExpr → LogicalPlan → PlanSchema → LogicalPlan)
    (P : BoundExpr → LogicalPlan → Prop) : Prop :=
  ∀ predicate input schema, (filter input predicate schema).WellFormed →
    P predicate input →
    Related E R (.filter input predicate schema) (onFilter predicate input schema)

section

variable (hR : BindRelation R)
include hR

theorem Related.refl (plan : LogicalPlan) : Related E R plan plan :=
  fun _ => hR.refl _

theorem Related.trans {plan plan' plan'' : LogicalPlan} (h : Related E R plan plan')
    (h' : Related E R plan' plan'') : Related E R plan plan'' :=
  fun outer => hR.trans (h outer) (h' outer)

variable {input input' : LogicalPlan}

/-- An operator with one input respects the relation. -/
theorem Related.filter (h : Related E R input input')
    (predicate : BoundExpr) (schema schema' : PlanSchema) :
    Related E R (.filter input predicate schema) (.filter input' predicate schema') :=
  fun outer => hR.bind (h outer) fun _ _ => hR.refl _

theorem Related.projection (h : Related E R input input')
    (expressions : List BoundExpr) (schema schema' : PlanSchema) :
    Related E R (.projection input expressions schema)
      (.projection input' expressions schema') :=
  fun outer => hR.bind (h outer) fun _ _ => hR.refl _

/-- A join of inputs of the same widths respects the relation. -/
theorem Related.join {left left' right right' : LogicalPlan} (hleft : Related E R left left')
    (hright : Related E R right right') (hleftWidth : left'.width = left.width)
    (hrightWidth : right'.width = right.width) (condition : JoinCondition) (joinType : JoinType)
    (schema schema' : PlanSchema) : Related E R (.join left right condition joinType schema)
      (.join left' right' condition joinType schema') := by
  intro outer
  refine hR.bind (hleft outer) fun lefts _ => hR.bind (hright outer) fun rights _ => ?_
  rw [hleftWidth, hrightWidth]
  exact hR.refl _

theorem related_evalAll {inputs : List LogicalPlan}
    (h : ∀ input ∈ inputs, Related E R input (mapFilters onFilter input)) (outer : List (Row V)) :
    R (List (Row V)) (evalAll E inputs outer)
      (evalAll E (mapFiltersAll onFilter inputs) outer) := by
  induction inputs with
  | nil => exact hR.refl _
  | cons input inputs ih =>
    obtain ⟨hinput, hinputs⟩ := List.forall_mem_cons.mp h
    exact hR.bind (hinput outer) fun _ _ => hR.bind (ih hinputs) fun _ _ => hR.refl _

/-- A sound treatment of the filters makes a sound pass. -/
theorem related_mapFilters (hkeeps : KeepsShape onFilter) (hsound : Sound E R onFilter P)
    {plan : LogicalPlan} (hplan : plan.WellFormed) (hfilters : AllFilters onFilter P plan) :
    Related E R plan (mapFilters onFilter plan) := by
  induction plan using induction with
  | empty | scan => exact .refl hR _
  | filter input predicate schema ih =>
    obtain ⟨hinput, hpredicate, hwidth⟩ := hplan
    obtain ⟨hinput', hwidth'⟩ := wellFormed_mapFilters hkeeps hinput
    refine .trans hR (.filter hR (ih hinput hfilters.1) predicate schema schema) ?_
    exact hsound predicate _ schema
      ⟨hinput', hwidth' ▸ hpredicate, hwidth.trans hwidth'.symm⟩ hfilters.2
  | projection input expressions schema ih =>
    exact .projection hR (ih hplan.1 hfilters) expressions schema schema
  | scalarize input schema ih | repeatRows input count schema ih
  | window input expressions schema ih | limit input offset bound schema ih
  | sort input expressions fetch schema ih
  | aggregate input groupExprs aggregateExprs schema ih =>
    exact fun outer => hR.bind (ih hplan.1 hfilters outer) fun _ _ => hR.refl _
  | dependentJoin left right kind guard schema ihleft ihright =>
    intro outer
    refine hR.bind (ihleft hplan.1 hfilters.1 outer) fun lefts _ => ?_
    refine hR.tryFlatMap fun row _ => ?_
    refine hR.bind (hR.refl _) fun active _ => ?_
    exact hR.bind (ihright hplan.2.1 hfilters.2 (row :: outer)) fun _ _ => hR.refl _
  | append inputs schema ih =>
    refine fun outer => related_evalAll hR (fun input hinput => ?_) outer
    exact ih input hinput (allWellFormed_iff.mp hplan input hinput).1
      (allFiltersAll_iff.mp hfilters input hinput)
  | join left right condition joinType schema ihleft ihright =>
    obtain ⟨hleft, hright, -, -⟩ := hplan
    exact .join hR (ihleft hleft hfilters.1) (ihright hright hfilters.2)
      (wellFormed_mapFilters hkeeps hleft).2 (wellFormed_mapFilters hkeeps hright).2
      condition joinType schema schema

end

end Soundness

/-! ## Coalescing -/

namespace FilterCoalesce

/-- Both predicates, the inner one first. -/
def conjunction (inner outer : BoundExpr) : BoundExpr :=
  .binary ⟨.boolean, inner.displayName ++ " AND " ++ outer.displayName⟩ inner .and outer

/-- Two filters that cannot fail become one. -/
def filter (outer : BoundExpr) (input : LogicalPlan) (schema : PlanSchema) : LogicalPlan :=
  match input with
  | .filter input inner innerSchema =>
    if inner.isStructurallyInfallible && outer.isStructurallyInfallible then
      .filter input (conjunction inner outer) schema
    else .filter (.filter input inner innerSchema) outer schema
  | input => .filter input outer schema

/-- The pass: adjacent filters of the plan are merged. -/
def apply : LogicalPlan → LogicalPlan := mapFilters filter

theorem keepsShape_filter : KeepsShape filter := by
  intro predicate input schema hplan
  unfold filter
  split
  · next input inner innerSchema =>
    split
    · obtain ⟨⟨hinput, hinner, hinnerWidth⟩, hpredicate, hwidth⟩ := hplan
      have hwidth' : (LogicalPlan.filter input inner innerSchema).width = input.width :=
        hinnerWidth
      rw [hwidth'] at hpredicate hwidth
      refine ⟨⟨hinput, ?_, hwidth⟩, hwidth.trans hwidth'.symm⟩
      refine BoundExpr.inRange_iff.mpr fun info index hmem => ?_
      rcases List.mem_append.mp hmem with hmem | hmem
      · exact BoundExpr.inRange_iff.mp hinner info index hmem
      · exact BoundExpr.inRange_iff.mp hpredicate info index hmem
    · exact ⟨hplan, hplan.2.2⟩
  · exact ⟨hplan, hplan.2.2⟩

section

variable {V : Type} [DecidableEq V] {E : Engine V} {outer : List (Row V)}

/-- A conjunction is true on a row exactly when both of its predicates are. -/
theorem holds_conjunction {inner predicate : BoundExpr} {row : Row V}
    (hinner : (E.holds outer inner row).isSome = true)
    (hpredicate : (E.holds outer predicate row).isSome = true) :
    E.holds outer (conjunction inner predicate) row =
      some (E.holds outer inner row = some true && E.holds outer predicate row = some true) := by
  unfold Engine.holds at *
  rw [Option.isSome_map] at hinner hpredicate
  obtain ⟨a, ha⟩ := Option.isSome_iff_exists.mp hinner
  obtain ⟨b, hb⟩ := Option.isSome_iff_exists.mp hpredicate
  simp only [conjunction, BoundExpr.eval, ha, hb, Option.bind_eq_bind, Option.bind_some,
    Option.map_some]
  split
  · next hfalse => simp [E.truth_boolean, hfalse]
  · next hnot =>
    rw [Option.map_some, E.truth_boolean]
    cases hta : E.truth a with
    | none => cases E.truth b with
      | none => rfl
      | some b => cases b <;> rfl
    | some a => cases a with
      | false => exact absurd hta hnot
      | true => cases E.truth b with
        | none => rfl
        | some b => cases b <;> rfl

end

/-- Joining two infallible filters changes neither rows nor errors. -/
theorem sound_filter {V : Type} [DecidableEq V] {E : Engine V} :
    Sound E (fun _ x y => x = y) filter fun _ _ => True := by
  intro predicate input schema hplan _ outer
  unfold filter
  split
  · next input inner innerSchema =>
    split
    · next hinfallible =>
      obtain ⟨⟨hinput, hinner, hinnerWidth⟩, hpredicate, -⟩ := hplan
      rw [Bool.and_eq_true] at hinfallible
      show ((input.eval E outer).bind (E.filterRows outer inner)).bind
          (E.filterRows outer predicate) =
        (input.eval E outer).bind (E.filterRows outer (conjunction inner predicate))
      rw [Option.bind_assoc]
      cases hrows : input.eval E outer with
      | none => rfl
      | some rows =>
        have hwidth := hasWidth_eval hinput hrows
        have hinnerSome := hwidth.holds_isSome E outer hinfallible.1 hinner
        have houterSome := hwidth.holds_isSome E outer hinfallible.2
          (show predicate.InRange input.width from hinnerWidth ▸ hpredicate)
        exact tryFilter_tryFilter hinnerSome houterSome fun row hrow =>
          holds_conjunction (hinnerSome row hrow) (houterSome row hrow)
    · rfl
  · rfl

/-- Coalescing changes neither rows nor errors. -/
theorem eval_apply {V : Type} [DecidableEq V] {E : Engine V} {plan : LogicalPlan}
    (hplan : plan.WellFormed) (outer : List (Row V)) :
    (apply plan).eval E outer = plan.eval E outer :=
  (related_mapFilters bindRelation_eq keepsShape_filter sound_filter hplan
    (allFilters_true filter plan) outer).symm

end FilterCoalesce

end RustDb.Optimizer
