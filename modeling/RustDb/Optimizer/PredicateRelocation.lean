import RustDb.Optimizer.JoinFilters

/-!
# Predicate relocation

The pass that moves infallible filters through projections and below joins.

* `relocate`, `apply`: the pass.
* `crossesOnly`: a property of the semi and anti joins past which a filter moves.  The pass
  checks that the predicates of the other joins cannot fail; of these it does not.
* `relocated_relocate`: all that `relocate` can do with a filter.
* `below_apply`: rows never change, and an error can only disappear.
* `eval_apply`: nothing changes when the predicates of all joins that are passed cannot fail.
-/

namespace RustDb.Optimizer.PredicateRelocation

open RustDb.Lib RustDb.Sql List Option BoundExpr Engine

/-! ## The pass -/

/-- The rewriting of columns to the input columns that a projection copies. -/
def projectionRewrite (projection : List BoundExpr) : BoundExpr.LeafRewrite where
  column _ index :=
    match projection[index]? with
    | some (.column info source) => some (.column info source)
    | _ => none
  outerRef _ _ _ := none
  keepsDeferred := false

/-- A predicate below a projection, with the expressions in the place of its columns. -/
def remapProjectionColumns (expression : BoundExpr) (projection : List BoundExpr) :
    Option BoundExpr :=
  expression.rewrite (projectionRewrite projection)

/-- The rewriting of the columns of a join to the columns of its right input. -/
def rebaseRewrite (leftWidth : Nat) : BoundExpr.LeafRewrite where
  column info index := some (.column info (index - leftWidth))
  outerRef info depth index := some (.outerRef info depth index)
  keepsDeferred := true

/-- A predicate on the right input of a join. -/
def rebaseRightColumns (expression : BoundExpr) (leftWidth : Nat) : BoundExpr :=
  (expression.rewrite (rebaseRewrite leftWidth)).getD expression

/-- A column of a scalar subquery is read. -/
def referencesGeneratedAttachment (expression : BoundExpr) (schema : PlanSchema) : Bool :=
  expression.referencedColumns.any fun index =>
    schema.fields[index]?.any fun field => field.name.startsWith "__rustdb_scalar_subquery_"

/-- The predicate reads the left input only. -/
def referencesOnlyLeft (predicate : BoundExpr) (left : LogicalPlan) : Bool :=
  predicate.referencedColumns.all fun index => index < left.width

/-- The predicate reads the right input, and it only. -/
def referencesOnlyRight (predicate : BoundExpr) (left right : LogicalPlan) : Bool :=
  !predicate.referencedColumns.isEmpty &&
    predicate.referencedColumns.all fun index =>
      left.width ≤ index && index < left.width + right.width

/-- An input of a join. -/
inductive Side where
  | left
  | right
deriving DecidableEq, Repr

/-- The input of a join to which a filter above the join moves.  The predicates of an inner, left or
right join may not fail; those of the other kinds are not looked at. -/
def crossedSide (predicate : BoundExpr) (left right : LogicalPlan) (condition : JoinCondition) :
    JoinType → Option Side
  | .left =>
    if innerPredicatesInfallible condition && referencesOnlyLeft predicate left then some .left
    else none
  | .right =>
    if innerPredicatesInfallible condition && referencesOnlyRight predicate left right then
      some .right
    else none
  -- The predicates of these joins are not looked at.
  | .semi | .anti | .nullAwareAnti =>
    if referencesOnlyLeft predicate left then some .left else none
  | .inner =>
    if innerPredicatesInfallible condition && referencesOnlyLeft predicate left then some .left
    else if innerPredicatesInfallible condition && referencesOnlyRight predicate left right then
      some .right
    else none
  | .full | .leftSingle | .mark => none

/-- A predicate that cannot fail moves below projections that cannot fail and to the side of a join
that it reads. -/
def relocate (predicate : BoundExpr) (input : LogicalPlan) (schema : PlanSchema) :
    LogicalPlan :=
  if predicate.isStructurallyInfallible then
    match input with
    | .projection inner expressions projectionSchema =>
      if expressions.all BoundExpr.isStructurallyInfallible then
        match remapProjectionColumns predicate expressions with
        | none => .filter (.projection inner expressions projectionSchema) predicate schema
        | some mapped =>
          if referencesGeneratedAttachment mapped inner.schema then
            .filter (.projection inner expressions projectionSchema) predicate schema
          else .projection (relocate mapped inner inner.schema) expressions projectionSchema
      else .filter (.projection inner expressions projectionSchema) predicate schema
    | .join left right condition joinType joinSchema =>
      match crossedSide predicate left right condition joinType with
      | some .left =>
        .join (relocate predicate left left.schema) right condition joinType joinSchema
      | some .right =>
        .join left (relocate (rebaseRightColumns predicate left.width) right right.schema)
          condition joinType joinSchema
      | none => .filter (.join left right condition joinType joinSchema) predicate schema
    | input => .filter input predicate schema
  else .filter input predicate schema

/-- The pass: every filter of the plan is relocated. -/
def apply : LogicalPlan → LogicalPlan := mapFilters relocate

/-- The conditions of all joins past which `relocate` moves a filter have a property. -/
def crossesOnly (Q : JoinCondition → Bool) (predicate : BoundExpr) (input : LogicalPlan) : Bool :=
  if predicate.isStructurallyInfallible then
    match input with
    | .projection inner expressions _ =>
      if expressions.all BoundExpr.isStructurallyInfallible then
        match remapProjectionColumns predicate expressions with
        | none => true
        | some mapped =>
          if referencesGeneratedAttachment mapped inner.schema then true
          else crossesOnly Q mapped inner
      else true
    | .join left right condition joinType _ =>
      match crossedSide predicate left right condition joinType with
      | some .left => Q condition && crossesOnly Q predicate left
      | some .right => Q condition && crossesOnly Q (rebaseRightColumns predicate left.width) right
      | none => true
    | _ => true
  else true

/-! ## What the pass does with a filter -/

/-- A filter on an input and the plan that takes its place: the filter stays, moves through
a projection, or moves to an input of a join whose condition satisfies `Q`. -/
inductive Relocated (Q : JoinCondition → Bool) :
    BoundExpr → PlanSchema → LogicalPlan → LogicalPlan → Prop
  | stays (predicate : BoundExpr) (schema : PlanSchema) (input : LogicalPlan) :
    Relocated Q predicate schema input (.filter input predicate schema)
  | throughProjection {predicate mapped : BoundExpr} {inner inner' : LogicalPlan}
      {expressions : List BoundExpr} (schema projectionSchema : PlanSchema)
      (hpredicate : predicate.isStructurallyInfallible = true)
      (hexpressions : ∀ expr ∈ expressions, expr.isStructurallyInfallible = true)
      (hmapped : remapProjectionColumns predicate expressions = some mapped)
      (hinner : Relocated Q mapped inner.schema inner inner') :
    Relocated Q predicate schema (.projection inner expressions projectionSchema)
      (.projection inner' expressions projectionSchema)
  | toLeft {predicate : BoundExpr} {left left' right : LogicalPlan}
      {condition : JoinCondition} {joinType : JoinType} (schema joinSchema : PlanSchema)
      (hpredicate : predicate.isStructurallyInfallible = true)
      (hside : crossedSide predicate left right condition joinType = some .left)
      (hcondition : Q condition = true)
      (hleft : Relocated Q predicate left.schema left left') :
    Relocated Q predicate schema (.join left right condition joinType joinSchema)
      (.join left' right condition joinType joinSchema)
  | toRight {predicate : BoundExpr} {left right right' : LogicalPlan}
      {condition : JoinCondition} {joinType : JoinType} (schema joinSchema : PlanSchema)
      (hpredicate : predicate.isStructurallyInfallible = true)
      (hside : crossedSide predicate left right condition joinType = some .right)
      (hcondition : Q condition = true)
      (hright : Relocated Q (rebaseRightColumns predicate left.width) right.schema right
        right') :
    Relocated Q predicate schema (.join left right condition joinType joinSchema)
      (.join left right' condition joinType joinSchema)

variable {Q : JoinCondition → Bool} {predicate : BoundExpr}

section

variable (schema : PlanSchema) (hpredicate : predicate.isStructurallyInfallible = true)
include hpredicate

theorem relocated_projection {inner : LogicalPlan} {expressions : List BoundExpr}
    {projectionSchema : PlanSchema}
    (hcrosses : crossesOnly Q predicate (.projection inner expressions projectionSchema) = true)
    (ih : ∀ mapped schema, crossesOnly Q mapped inner = true →
      Relocated Q mapped schema inner (relocate mapped inner schema)) :
    Relocated Q predicate schema (.projection inner expressions projectionSchema)
      (relocate predicate (.projection inner expressions projectionSchema) schema) := by
  rw [crossesOnly, if_pos hpredicate] at hcrosses
  rw [relocate, if_pos hpredicate]
  split
  · next hexpressions =>
    rw [if_pos hexpressions] at hcrosses
    cases hmapped : remapProjectionColumns predicate expressions with
    | none => exact .stays ..
    | some mapped =>
      simp only [hmapped] at hcrosses ⊢
      split
      · exact .stays ..
      · next hgenerated =>
        rw [if_neg hgenerated] at hcrosses
        exact .throughProjection schema projectionSchema hpredicate
          (all_eq_true.mp hexpressions) hmapped (ih mapped inner.schema hcrosses)
  · exact .stays ..

variable {left right : LogicalPlan} {condition : JoinCondition} {joinType : JoinType}

theorem relocated_join {joinSchema : PlanSchema}
    (hcrosses : crossesOnly Q predicate (.join left right condition joinType joinSchema) = true)
    (ihleft : ∀ predicate schema, crossesOnly Q predicate left = true →
      Relocated Q predicate schema left (relocate predicate left schema))
    (ihright : ∀ predicate schema, crossesOnly Q predicate right = true →
      Relocated Q predicate schema right (relocate predicate right schema)) :
    Relocated Q predicate schema (.join left right condition joinType joinSchema)
      (relocate predicate (.join left right condition joinType joinSchema) schema) := by
  rw [crossesOnly, if_pos hpredicate] at hcrosses
  rw [relocate, if_pos hpredicate]
  cases hside : crossedSide predicate left right condition joinType with
  | none => exact .stays ..
  | some side =>
    cases side with
    | left =>
      simp only [hside, Bool.and_eq_true] at hcrosses
      exact .toLeft schema joinSchema hpredicate hside hcrosses.1
        (ihleft predicate left.schema hcrosses.2)
    | right =>
      simp only [hside, Bool.and_eq_true] at hcrosses
      exact .toRight schema joinSchema hpredicate hside hcrosses.1
        (ihright _ right.schema hcrosses.2)

end

/-- All that `relocate` can do. -/
theorem relocated_relocate (predicate : BoundExpr)
    (input : LogicalPlan) (schema : PlanSchema) (hcrosses : crossesOnly Q predicate input = true) :
    Relocated Q predicate schema input (relocate predicate input schema) := by
  induction input using LogicalPlan.induction generalizing predicate schema with
  | projection inner expressions projectionSchema ih =>
    cases hpredicate : predicate.isStructurallyInfallible with
    | true => exact relocated_projection schema hpredicate hcrosses ih
    | false =>
      rw [relocate, hpredicate]
      exact .stays ..
  | join left right condition joinType joinSchema ihleft ihright =>
    cases hpredicate : predicate.isStructurallyInfallible with
    | true => exact relocated_join schema hpredicate hcrosses ihleft ihright
    | false =>
      rw [relocate, hpredicate]
      exact .stays ..
  | _ =>
    rw [relocate.eq_def]
    split <;> exact .stays ..

theorem crossesOnly_true (predicate : BoundExpr) (input : LogicalPlan) :
    crossesOnly (fun _ => true) predicate input = true := by
  induction input using LogicalPlan.induction generalizing predicate with
  | projection inner expressions projectionSchema ih =>
    rw [crossesOnly]
    split
    · split
      · split
        · rfl
        · split
          · rfl
          · exact ih _
      · rfl
    · rfl
  | join left right condition joinType joinSchema ihleft ihright =>
    rw [crossesOnly]
    split
    · split
      · exact ihleft _
      · exact ihright _
      · rfl
    · rfl
  | _ =>
    rw [crossesOnly.eq_def]
    split <;> rfl

/-! ## Moved predicates -/

section Moved

variable {predicate mapped : BoundExpr} {expressions : List BoundExpr}

theorem column_of_projectionRewrite {info : ExprInfo} {index : Nat} {expr : BoundExpr}
    (h : (projectionRewrite expressions).column info index = some expr) :
    ∃ info' source, expr = .column info' source ∧
      expressions[index]? = some (.column info' source) := by
  unfold projectionRewrite at h
  dsimp only at h
  split at h
  · next info' source hget =>
    cases h
    exact ⟨info', source, rfl, hget⟩
  · cases h

section

variable (hmapped : remapProjectionColumns predicate expressions = some mapped)
include hmapped

theorem infallible_remapped (hpredicate : predicate.isStructurallyInfallible = true) :
    mapped.isStructurallyInfallible = true := by
  refine isStructurallyInfallible_rewrite hmapped hpredicate ?_
  intro info index leaf hleaf
  obtain ⟨info', source, rfl, -⟩ := column_of_projectionRewrite hleaf
  rfl

theorem inRange_remapped {width : Nat} (hexpressions : ∀ expr ∈ expressions, expr.InRange width) :
    mapped.InRange width := by
  refine BoundExpr.InRange.rewrite hmapped ?_ ?_
  · intro info index _ leaf hleaf
    obtain ⟨info', source, rfl, hget⟩ := column_of_projectionRewrite hleaf
    exact hexpressions _ (mem_of_getElem? hget)
  · intro info depth index leaf hleaf
    cases hleaf

end

theorem rewrite_rebaseRightColumns (predicate : BoundExpr) (leftWidth : Nat) :
    predicate.rewrite (rebaseRewrite leftWidth) =
      some (rebaseRightColumns predicate leftWidth) := by
  have hsome : (predicate.rewrite (rebaseRewrite leftWidth)).isSome = true :=
    rewrite_isSome ⟨fun _ _ _ => rfl, fun _ _ _ _ => rfl, rfl⟩
  obtain ⟨rebased, hrebased⟩ := isSome_iff_exists.mp hsome
  rw [rebaseRightColumns, hrebased]
  rfl

theorem infallible_rebased (hpredicate : predicate.isStructurallyInfallible = true)
    (leftWidth : Nat) :
    (rebaseRightColumns predicate leftWidth).isStructurallyInfallible = true := by
  refine isStructurallyInfallible_rewrite
    (rewrite_rebaseRightColumns predicate leftWidth) hpredicate ?_
  intro info index leaf hleaf
  cases hleaf
  rfl

variable {left : LogicalPlan}

theorem inRange_of_referencesOnlyLeft (h : referencesOnlyLeft predicate left = true) :
    predicate.InRange left.width := by
  intro index hindex
  exact of_decide_eq_true (all_eq_true.mp h index hindex)

variable {right : LogicalPlan}

theorem bounds_of_referencesOnlyRight (h : referencesOnlyRight predicate left right = true) :
    ∀ index ∈ predicate.referencedColumns,
      left.width ≤ index ∧ index < left.width + right.width := by
  intro index hindex
  rw [referencesOnlyRight, Bool.and_eq_true, List.all_eq_true] at h
  have hbounds := h.2 index hindex
  rw [Bool.and_eq_true, decide_eq_true_iff, decide_eq_true_iff] at hbounds
  exact hbounds

theorem inRange_rebased (h : referencesOnlyRight predicate left right = true) :
    (rebaseRightColumns predicate left.width).InRange right.width := by
  refine BoundExpr.InRange.rewrite (rewrite_rebaseRightColumns predicate left.width) ?_ ?_
  · intro info index hmem leaf hleaf
    cases hleaf
    have hbounds := bounds_of_referencesOnlyRight h index
      (mem_referencedColumns.mpr ⟨info, hmem⟩)
    refine inRange_iff.mpr fun info' index' hmem' => ?_
    cases mem_singleton.mp hmem'
    omega
  · intro info depth index leaf hleaf
    cases hleaf
    exact inRange_iff.mpr fun info' index' hmem' => by
      cases mem_singleton.mp hmem'

variable {V : Type} [DecidableEq V] {E : Engine V} {outer : List (Row V)} {row row' : Row V}

/-- The moved predicate has on a row the truth value of the predicate on the projected row. -/
theorem holds_remapped (hmapped : remapProjectionColumns predicate expressions = some mapped)
    (hrow : E.evalRow outer expressions row = some row') :
    E.holds outer predicate row' = E.holds outer mapped row := by
  have hvalue : mapped.eval E.toScalars outer row = predicate.eval E.toScalars outer row' := by
    refine eval_rewrite hmapped ⟨?_, ?_⟩
    · intro info index _ expr hexpr
      obtain ⟨info', source, rfl, hget⟩ := column_of_projectionRewrite hexpr
      obtain ⟨hlt, hget⟩ := List.getElem?_eq_some_iff.mp hget
      have hvalues := mapM_eq_some.mp hrow
      have hlt' : index < row'.length := hvalues.length_eq ▸ hlt
      have hcell := List.Forall₂.get hvalues hlt hlt'
      rw [get_eq_getElem, hget, get_eq_getElem] at hcell
      rw [hcell, getElem?_eq_getElem hlt']
    · intro info depth index _ expr hexpr
      cases hexpr
  rw [holds, holds, hvalue]

/-- A predicate on the right columns of a join, on the right row alone. -/
theorem holds_rebased (h : referencesOnlyRight predicate left right = true)
    (hrow : row.length = left.width) :
    E.holds outer predicate (row ++ row') =
      E.holds outer (rebaseRightColumns predicate left.width) row' := by
  have hvalue : (rebaseRightColumns predicate left.width).eval E.toScalars outer row' =
      predicate.eval E.toScalars outer (row ++ row') := by
    refine eval_rewrite (rewrite_rebaseRightColumns predicate left.width) ⟨?_, ?_⟩
    · intro info index hmem expr hexpr
      cases hexpr
      have hbounds := bounds_of_referencesOnlyRight h index
        (mem_referencedColumns.mpr ⟨info, hmem⟩)
      rw [eval, getElem?_append_right (by omega), hrow]
    · intro info depth index _ expr hexpr
      cases hexpr
      rfl
  rw [holds, holds, hvalue]

end Moved

/-! ## Soundness -/

theorem crossedSide_left (h : crossedSide predicate left right condition joinType = some .left) :
    leftMajor joinType = true ∧ joinType ≠ .leftSingle ∧
      referencesOnlyLeft predicate left = true := by
  cases joinType with
  | full | leftSingle | mark => cases h
  | semi | anti | nullAwareAnti =>
    rw [crossedSide] at h
    split at h
    · next hreferences => exact ⟨rfl, by decide, hreferences⟩
    · cases h
  | right =>
    rw [crossedSide] at h
    split at h <;> cases h
  | left =>
    rw [crossedSide] at h
    split at h
    · next hchecked => exact ⟨rfl, by decide, (Bool.and_eq_true_iff.mp hchecked).2⟩
    · cases h
  | inner =>
    rw [crossedSide] at h
    split at h
    · next hchecked => exact ⟨rfl, by decide, (Bool.and_eq_true_iff.mp hchecked).2⟩
    · split at h <;> cases h

theorem crossedSide_right (h : crossedSide predicate left right condition joinType = some .right) :
    (joinType = .right ∨ joinType = .inner) ∧ innerPredicatesInfallible condition = true ∧
      referencesOnlyRight predicate left right = true := by
  cases joinType with
  | full | leftSingle | mark => cases h
  | left | semi | anti | nullAwareAnti =>
    rw [crossedSide] at h
    split at h <;> cases h
  | right =>
    rw [crossedSide] at h
    split at h
    · next hchecked => exact ⟨.inl rfl, Bool.and_eq_true_iff.mp hchecked⟩
    · cases h
  | inner =>
    rw [crossedSide] at h
    split at h
    · cases h
    · split at h
      · next hchecked => exact ⟨.inr rfl, Bool.and_eq_true_iff.mp hchecked⟩
      · cases h

/-- A relocated filter keeps a plan well-formed and its width. -/
theorem Relocated.wellFormed {schema : PlanSchema} {input result : LogicalPlan}
    (h : Relocated Q predicate schema input result)
    (hplan : (LogicalPlan.filter input predicate schema).WellFormed) :
    result.WellFormed ∧ result.width = input.width := by
  induction h with
  | stays => exact ⟨hplan, hplan.2.2⟩
  | throughProjection _ _ _ _ hmapped _ ih =>
    obtain ⟨⟨hinner, hexpressions, hwidth⟩, -, -⟩ := hplan
    obtain ⟨hinner', hwidth'⟩ := ih ⟨hinner, inRange_remapped hmapped hexpressions, rfl⟩
    exact ⟨⟨hinner', hwidth' ▸ hexpressions, hwidth⟩, rfl⟩
  | toLeft _ _ _ hside _ _ ih =>
    obtain ⟨⟨hleft, hright, hcondition, hwidth⟩, -, -⟩ := hplan
    obtain ⟨-, -, hreferences⟩ := crossedSide_left hside
    obtain ⟨hleft', hwidth'⟩ := ih ⟨hleft, inRange_of_referencesOnlyLeft hreferences, rfl⟩
    refine ⟨⟨hleft', hright, ?_, ?_⟩, rfl⟩
    · rw [hwidth']
      exact hcondition
    · rw [hwidth']
      exact hwidth
  | toRight _ _ _ hside _ _ ih =>
    obtain ⟨⟨hleft, hright, hcondition, hwidth⟩, -, -⟩ := hplan
    obtain ⟨-, -, hreferences⟩ := crossedSide_right hside
    obtain ⟨hright', hwidth'⟩ := ih ⟨hright, inRange_rebased hreferences, rfl⟩
    refine ⟨⟨hleft, hright', ?_, ?_⟩, rfl⟩
    · rw [hwidth']
      exact hcondition
    · rw [hwidth']
      exact hwidth

theorem keepsShape_relocate : KeepsShape relocate := by
  intro predicate input schema hplan
  exact (relocated_relocate predicate input schema (crossesOnly_true predicate input)).wellFormed
    hplan

section Sound

variable {V : Type} [DecidableEq V] {E : Engine V}
  {R : (α : Type) → Option α → Option α → Prop}

theorem related_of_eq (hR : BindRelation R) {plan plan' : LogicalPlan}
    (h : Related E (fun _ x y => x = y) plan plan') : Related E R plan plan' := by
  intro outer
  rw [h outer]
  exact hR.refl _

variable {predicate : BoundExpr} {schema : PlanSchema}

/-- A filter moves through a projection that cannot fail. -/
theorem eq_filter_projection {mapped : BoundExpr} {inner : LogicalPlan}
    {expressions : List BoundExpr} {projectionSchema : PlanSchema}
    (hplan : (LogicalPlan.filter (.projection inner expressions projectionSchema) predicate
      schema).WellFormed) (hpredicate : predicate.isStructurallyInfallible = true)
    (hexpressions : ∀ expr ∈ expressions, expr.isStructurallyInfallible = true)
    (hmapped : remapProjectionColumns predicate expressions = some mapped) :
    Related E (fun _ x y => x = y)
      (.filter (.projection inner expressions projectionSchema) predicate schema)
      (.projection (.filter inner mapped inner.schema) expressions projectionSchema) := by
  obtain ⟨⟨hinner, hrange, -⟩, -, -⟩ := hplan
  intro outer
  show ((inner.eval E outer).bind (E.projectRows outer expressions)).bind
      (E.filterRows outer predicate) =
    ((inner.eval E outer).bind (E.filterRows outer mapped)).bind (E.projectRows outer expressions)
  cases hrows : inner.eval E outer with
  | none => rfl
  | some rows =>
    have hwidth := LogicalPlan.hasWidth_eval hinner hrows
    have hprojected : (E.projectRows outer expressions rows).isSome = true :=
      mapM_isSome_iff.mpr fun row hrow => mapM_isSome_iff.mpr fun expr hexpr =>
        isSome_eval_of_infallible (hexpressions expr hexpr)
          (hwidth row hrow ▸ hrange expr hexpr)
    obtain ⟨projected, hprojected⟩ := isSome_iff_exists.mp hprojected
    have hmappedSome := hwidth.holds_isSome E outer (infallible_remapped hmapped hpredicate)
      (inRange_remapped hmapped hrange)
    have hsame : ∀ row ∈ rows, ∀ row', E.evalRow outer expressions row = some row' →
        E.holds outer predicate row' = E.holds outer mapped row :=
      fun row _ row' hrow' => holds_remapped hmapped hrow'
    have hpredicateSome : ∀ row' ∈ projected, (E.holds outer predicate row').isSome = true := by
      intro row' hrow'
      obtain ⟨row, hrow, heval⟩ := exists_of_mem_mapM hprojected hrow'
      rw [hsame row hrow row' heval]
      exact hmappedSome row hrow
    rw [bind_some, bind_some, hprojected, bind_some, filterRows,
      filterRows, tryFilter_eq_filter hpredicateSome, tryFilter_eq_filter hmappedSome,
      bind_some]
    exact (mapM_filter hprojected fun row hrow row' heval => by
      rw [hsame row hrow row' heval]).symm

variable {Q : JoinCondition → Bool}

/-- What must hold of a filter that moves to the left input of a join. -/
def SoundToLeft (E : Engine V) (R : (α : Type) → Option α → Option α → Prop)
    (Q : JoinCondition → Bool) : Prop :=
  ∀ {left right : LogicalPlan} {condition : JoinCondition} {joinType : JoinType}
    {joinSchema : PlanSchema} {predicate : BoundExpr},
    (LogicalPlan.join left right condition joinType joinSchema).WellFormed →
    crossedSide predicate left right condition joinType = some .left →
    predicate.isStructurallyInfallible = true → predicate.InRange joinSchema.width →
    Q condition = true → ∀ schema,
    Related E R (.filter (.join left right condition joinType joinSchema) predicate schema)
      (.join (.filter left predicate left.schema) right condition joinType joinSchema)

/-- A relocated filter is related to the filter when every step to the left of a join is. -/
theorem Relocated.related (hR : BindRelation R) (hsound : SoundToLeft E R Q)
    {input result : LogicalPlan} (h : Relocated Q predicate schema input result)
    (hplan : (LogicalPlan.filter input predicate schema).WellFormed) :
    Related E R (.filter input predicate schema) result := by
  induction h with
  | stays => exact .refl hR _
  | throughProjection schema projectionSchema hpredicate hexpressions hmapped _ ih =>
    refine .trans hR (related_of_eq hR
      (eq_filter_projection hplan hpredicate hexpressions hmapped)) ?_
    obtain ⟨⟨hinner, hrange, -⟩, -, -⟩ := hplan
    exact .projection hR (ih ⟨hinner, inRange_remapped hmapped hrange, rfl⟩) _ _ _
  | toLeft schema joinSchema hpredicate hside hcondition hleft ih =>
    obtain ⟨hjoin, hrange, -⟩ := hplan
    obtain ⟨-, -, hreferences⟩ := crossedSide_left hside
    have hinput := inRange_of_referencesOnlyLeft hreferences
    refine .trans hR (hsound hjoin hside hpredicate hrange hcondition schema) ?_
    exact .join hR (ih ⟨hjoin.1, hinput, rfl⟩) (.refl hR _)
      (hleft.wellFormed ⟨hjoin.1, hinput, rfl⟩).2 rfl _ _ _ _
  | toRight schema joinSchema hpredicate hside hcondition hright ih =>
    obtain ⟨hjoin, hrange, -⟩ := hplan
    obtain ⟨htype, hinfallible, hreferences⟩ := crossedSide_right hside
    have hinput := inRange_rebased hreferences
    refine .trans hR (related_of_eq hR (eq_filter_join_right hjoin htype hinfallible hpredicate
      (infallible_rebased hpredicate _) hinput hrange
      (fun outer row row' hrow => holds_rebased hreferences hrow) schema joinSchema)) ?_
    exact .join hR (.refl hR _) (ih ⟨hjoin.2.1, hinput, rfl⟩) rfl
      (hright.wellFormed ⟨hjoin.2.1, hinput, rfl⟩).2 _ _ _ _

theorem sound_relocate (hR : BindRelation R) (hsound : SoundToLeft E R Q) :
    Sound E R relocate fun predicate input => crossesOnly Q predicate input = true := by
  intro predicate input schema hplan hcrosses
  exact (relocated_relocate predicate input schema hcrosses).related hR hsound hplan

theorem soundToLeft_below : SoundToLeft E Below fun _ => true := by
  intro left right condition joinType joinSchema predicate hjoin hside hpredicate _ _ schema
  obtain ⟨hmajor, -, hreferences⟩ := crossedSide_left hside
  exact below_filter_join_left hjoin hmajor hpredicate
    (inRange_of_referencesOnlyLeft hreferences) schema joinSchema

theorem soundToLeft_eq : SoundToLeft E (fun _ x y => x = y) innerPredicatesInfallible := by
  intro left right condition joinType joinSchema predicate hjoin hside hpredicate hrange
    hcondition schema
  obtain ⟨hmajor, hsingle, hreferences⟩ := crossedSide_left hside
  exact eq_filter_join_left hjoin hmajor hsingle hcondition hpredicate
    (inRange_of_referencesOnlyLeft hreferences) hrange schema joinSchema

end Sound

/-! ## The passes on whole plans -/

/-- The predicates of every join past which the pass moves a filter cannot fail. -/
def CrossesOnlyInfallible (plan : LogicalPlan) : Prop :=
  AllFilters relocate
    (fun predicate input => crossesOnly innerPredicatesInfallible predicate input = true) plan

section Passes

variable {V : Type} [DecidableEq V]

theorem allFilters_crossesOnly_true (plan : LogicalPlan) :
    AllFilters relocate
      (fun predicate input => crossesOnly (fun _ => true) predicate input = true) plan := by
  have htrue : (fun predicate input => crossesOnly (fun _ => true) predicate input = true) =
      fun _ _ => True := by
    funext predicate input
    exact eq_true (crossesOnly_true predicate input)
  rw [htrue]
  exact allFilters_true relocate plan

variable {E : Engine V} {plan : LogicalPlan}

/-- Relocation changes no row, and an error can only disappear. -/
theorem below_apply (hplan : plan.WellFormed) : Related E Below plan (apply plan) :=
  related_mapFilters bindRelation_below keepsShape_relocate
    (sound_relocate bindRelation_below soundToLeft_below) hplan
    (allFilters_crossesOnly_true plan)

/-- Relocation changes nothing when the predicates of all joins that are passed cannot
fail. -/
theorem eval_apply (hplan : plan.WellFormed) (hcrosses : CrossesOnlyInfallible plan)
    (outer : List (Row V)) : (apply plan).eval E outer = plan.eval E outer :=
  (related_mapFilters bindRelation_eq keepsShape_relocate
    (sound_relocate bindRelation_eq soundToLeft_eq) hplan hcrosses outer).symm

/-- Coalescing changes neither rows nor errors.  Relocation changes no row, and no error
either when the predicates of all joins past which it moves a filter cannot fail. -/
theorem filter_passes_preserve_rows_and_errors {plan : LogicalPlan} (hplan : plan.WellFormed)
    (E : Engine V) (outer : List (Row V)) :
    (FilterCoalesce.apply plan).eval E outer = plan.eval E outer ∧
      (∀ rows, plan.eval E outer = some rows → (apply plan).eval E outer = some rows) ∧
      (CrossesOnlyInfallible plan → (apply plan).eval E outer = plan.eval E outer) :=
  ⟨FilterCoalesce.eval_apply hplan outer, below_apply hplan outer,
    fun hcrosses => eval_apply hplan hcrosses outer⟩

end Passes

/-! ## A semi join whose error disappears -/

/-- A table of one integer column. -/
def integerTable (name column : String) : LogicalPlan :=
  .scan ⟨name, none, none, none, none, .oneField column .int64 true⟩

/-- The predicate `t.a < 100`. -/
def belowHundred : BoundExpr :=
  .binary ⟨.boolean, "a < 100"⟩ (.column ⟨.int64, "a"⟩ 0) .lt
    (.literal ⟨.int64, "100"⟩ (.int64 100))

/-- `t SEMI JOIN s ON key = s.b WHERE t.a < 100`. -/
def filteredSemiJoin (key : BoundExpr) : LogicalPlan :=
  .filter (.join (integerTable "t" "a") (integerTable "s" "b")
      ⟨[(key, .column ⟨.int64, "b"⟩ 0)], false, none, none⟩ .semi (.oneField "a" .int64 true))
    belowHundred (.oneField "a" .int64 true)

/-- The key `t.a % (t.a - 200)`, which fails on the row 200. -/
def moduloKey : BoundExpr :=
  .binary ⟨.int64, "a % a - 200"⟩ (.column ⟨.int64, "a"⟩ 0) .modulo
    (.binary ⟨.int64, "a - 200"⟩ (.column ⟨.int64, "a"⟩ 0) .subtract
      (.literal ⟨.int64, "200"⟩ (.int64 200)))

theorem wellFormed_filteredSemiJoin {key : BoundExpr} (hkey : key.InRange 1) :
    (filteredSemiJoin key).WellFormed := by
  have hpredicate : belowHundred.InRange 1 := by decide
  have hcolumn : (column ⟨.int64, "b"⟩ 0).InRange 1 := by decide
  refine ⟨⟨trivial, trivial, ⟨?_, ?_, ?_⟩, rfl⟩, hpredicate, rfl⟩
  · exact forall_mem_singleton.mpr ⟨hkey, hcolumn⟩
  · intro residual h
    cases h
  · intro pair h
    cases h

/-- The rows of `t` are 200 and 1, the row of `s` is 1. -/
def semiJoinTables (name : String) : List (Row (Option Int)) :=
  if name = "t" then [[some 200], [some 1]] else [[some 1]]

/-- The key divides by zero on the row 200: the plan fails, and the relocated plan does
not. -/
theorem semi_join_error_disappears :
    (filteredSemiJoin moduloKey).WellFormed ∧
      (filteredSemiJoin moduloKey).eval (.integers semiJoinTables) [] = none ∧
      (apply (filteredSemiJoin moduloKey)).eval (.integers semiJoinTables) [] = some [[some 1]] :=
  ⟨wellFormed_filteredSemiJoin (by decide), by decide +kernel, by decide +kernel⟩

/-- With a plain column as the key nothing changes. -/
theorem semi_join_on_column_is_relocated :
    (apply (filteredSemiJoin (.column ⟨.int64, "a"⟩ 0))).eval (.integers semiJoinTables) [] =
      some [[some 1]] := by
  have hplan : (filteredSemiJoin (.column ⟨.int64, "a"⟩ 0)).WellFormed :=
    wellFormed_filteredSemiJoin (by decide)
  rw [(filter_passes_preserve_rows_and_errors hplan (.integers semiJoinTables) []).2.2
    ⟨⟨trivial, trivial⟩, by decide +kernel⟩]
  decide +kernel

/-! ## Sequences of passes -/

/-- Any sequence of the two passes keeps the rows of a plan, and the plan well-formed. -/
theorem filter_pipeline_preserves_rows {V : Type} [DecidableEq V] {E : Engine V}
    {outer : List (Row V)} {rows : List (Row V)} (passes : List (LogicalPlan → LogicalPlan))
    (hpasses : ∀ pass ∈ passes, pass = apply ∨ pass = FilterCoalesce.apply) {plan : LogicalPlan}
    (hplan : plan.WellFormed) (hrows : plan.eval E outer = some rows) :
    (passes.foldl (fun plan pass => pass plan) plan).WellFormed ∧
      (passes.foldl (fun plan pass => pass plan) plan).eval E outer = some rows := by
  induction passes generalizing plan with
  | nil => exact ⟨hplan, hrows⟩
  | cons pass passes ih =>
    rw [forall_mem_cons] at hpasses
    rcases hpasses.1 with rfl | rfl
    · exact ih hpasses.2 (wellFormed_mapFilters keepsShape_relocate hplan).1
        (below_apply hplan outer rows hrows)
    · exact ih hpasses.2 (wellFormed_mapFilters FilterCoalesce.keepsShape_filter hplan).1
        ((FilterCoalesce.eval_apply hplan outer).trans hrows)

theorem semi_join_passes_keep_rows :
    (FilterCoalesce.apply (apply (apply (filteredSemiJoin (.column ⟨.int64, "a"⟩ 0))))).eval
      (.integers semiJoinTables) [] = some [[some 1]] :=
  (filter_pipeline_preserves_rows [apply, apply, FilterCoalesce.apply] (by simp)
    (wellFormed_filteredSemiJoin (by decide)) (by decide +kernel)).2

end RustDb.Optimizer.PredicateRelocation
