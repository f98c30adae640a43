import RustDb.Lib.Related
import RustDb.Sql.WellFormed

/-!
# Rows with the same columns

Two runs of an operator on rows that differ only in columns that it does not read.

* `SameOn`: two rows with the same cells in some columns.
* `Agree`: two relations of such rows, row by row.
* One lemma for every kernel: either both runs fail, or their results agree on the columns
  that are asked for.
-/

namespace RustDb.Sql

open RustDb.Lib List

variable {V : Type}

/-- Two rows of one width with the same cells in the given columns. -/
structure SameOn (columns : List Nat) (row row' : Row V) : Prop where
  length : row.length = row'.length
  cell : ∀ index ∈ columns, row[index]? = row'[index]?

/-- Two relations whose rows have the same cells in the given columns. -/
def Agree (columns : List Nat) (rows rows' : List (Row V)) : Prop :=
  List.Forall₂ (SameOn columns) rows rows'

namespace SameOn

variable {columns columns' : List Nat} {row row' left left' right right' : Row V}

theorem refl (columns : List Nat) (row : Row V) : SameOn columns row row :=
  ⟨rfl, fun _ _ => rfl⟩

theorem mono (h : SameOn columns row row') (hsub : columns' ⊆ columns) :
    SameOn columns' row row' :=
  ⟨h.length, fun index hindex => h.cell index (hsub hindex)⟩

theorem append {leftColumns rightColumns : List Nat} (hleft : SameOn leftColumns left left')
    (hright : SameOn rightColumns right right')
    (hleftColumns : ∀ index ∈ columns, index < left.length → index ∈ leftColumns)
    (hrightColumns : ∀ index ∈ columns, left.length ≤ index →
      index - left.length ∈ rightColumns) :
    SameOn columns (left ++ right) (left' ++ right') := by
  constructor
  · rw [length_append, length_append, hleft.length, hright.length]
  · intro index hindex
    have hlength := hleft.length
    rcases Nat.lt_or_ge index left.length with hlt | hge
    · rw [getElem?_append_left hlt, getElem?_append_left (by omega)]
      exact hleft.cell index (hleftColumns index hindex hlt)
    · rw [getElem?_append_right hge, getElem?_append_right (by omega), ← hlength]
      exact hright.cell _ (hrightColumns index hindex hge)

section

variable (h : SameOn columns row row')
include h

theorem take (n : Nat) : SameOn columns (row.take n) (row'.take n) := by
  constructor
  · rw [length_take, length_take, h.length]
  · intro index hindex
    rw [getElem?_take, getElem?_take, h.cell index hindex]

variable [DecidableEq V] {S : Scalars V} {outer : List (Row V)}

theorem eval_eq {expr : BoundExpr} (hexpr : expr.referencedColumns ⊆ columns) :
    expr.eval S outer row = expr.eval S outer row' :=
  BoundExpr.eval_congr fun index hindex => h.cell index (hexpr hindex)

variable {E : Engine V}

theorem evalRow_eq {expressions : List BoundExpr}
    (hexpressions : ∀ expr ∈ expressions, expr.referencedColumns ⊆ columns) :
    E.evalRow outer expressions row = E.evalRow outer expressions row' :=
  mapM_congr fun expr hexpr => h.eval_eq (hexpressions expr hexpr)

theorem holds_eq {predicate : BoundExpr} (hpredicate : predicate.referencedColumns ⊆ columns) :
    E.holds outer predicate row = E.holds outer predicate row' := by
  rw [Engine.holds, Engine.holds, h.eval_eq hpredicate]

end

end SameOn

theorem Agree.refl (columns : List Nat) (rows : List (Row V)) : Agree columns rows rows :=
  forall₂_same.mpr fun row _ => .refl columns row

theorem Agree.mono {columns columns' : List Nat} {rows rows' : List (Row V)}
    (h : Agree columns rows rows') (hsub : columns' ⊆ columns) : Agree columns' rows rows' :=
  h.imp fun _ _ hrow => hrow.mono hsub

namespace Engine

variable [DecidableEq V] {E : Engine V} {outer : List (Row V)} {columns required : List Nat}
  {rows rows' : List (Row V)} {expressions : List BoundExpr}

/-- A projection whose outputs are read, or are columns and literals that never fail. -/
theorem sameOn_evalRow {row row' : Row V} (h : SameOn columns row row')
    (hread : ∀ index expr, expressions[index]? = some expr →
      expr.referencedColumns ⊆ columns ∨ index ∉ required ∧
        (expr.eval E.toScalars outer row).isSome = (expr.eval E.toScalars outer row').isSome) :
    Option.Rel (SameOn required) (E.evalRow outer expressions row)
      (E.evalRow outer expressions row') := by
  have hsome : ∀ expr ∈ expressions, (expr.eval E.toScalars outer row).isSome =
      (expr.eval E.toScalars outer row').isSome := by
    intro expr hexpr
    obtain ⟨index, hindex⟩ := mem_iff_getElem?.mp hexpr
    rcases hread index expr hindex with hsub | hpruned
    · rw [h.eval_eq hsub]
    · exact hpruned.2
  cases hrow : E.evalRow outer expressions row with
  | none =>
    cases hrow' : E.evalRow outer expressions row' with
    | none => exact .none
    | some values' =>
      have hall := mapM_isSome_iff.mp (Option.isSome_iff_exists.mpr ⟨_, hrow'⟩)
      have : (E.evalRow outer expressions row).isSome = true :=
        mapM_isSome_iff.mpr fun expr hexpr => (hsome expr hexpr).trans (hall expr hexpr)
      rw [hrow] at this
      cases this
  | some values =>
    have hall := mapM_isSome_iff.mp (Option.isSome_iff_exists.mpr ⟨_, hrow⟩)
    obtain ⟨values', hrow'⟩ := Option.isSome_iff_exists.mp (mapM_isSome_iff.mpr fun expr hexpr =>
      (hsome expr hexpr).symm.trans (hall expr hexpr))
    rw [show E.evalRow outer expressions row' = some values' from hrow']
    refine .some ⟨(length_eq_of_mapM hrow).trans (length_eq_of_mapM hrow').symm, ?_⟩
    intro index hindex
    cases hexpr : expressions[index]? with
    | none =>
      have hlength := getElem?_eq_none_iff.mp hexpr
      rw [getElem?_eq_none (by rw [length_eq_of_mapM hrow]; exact hlength),
        getElem?_eq_none (by rw [length_eq_of_mapM hrow']; exact hlength)]
    | some expr =>
      rw [getElem?_of_mapM hrow hexpr, getElem?_of_mapM hrow' hexpr]
      rcases hread index expr hexpr with hsub | hpruned
      · exact h.eval_eq hsub
      · exact absurd hindex hpruned.1

theorem agree_projectRows (h : Agree columns rows rows')
    (hread : ∀ index expr, expressions[index]? = some expr →
      expr.referencedColumns ⊆ columns ∨ index ∉ required ∧
        ∀ row row' : Row V, row.length = row'.length →
          (expr.eval E.toScalars outer row).isSome =
            (expr.eval E.toScalars outer row').isSome) :
    Option.Rel (Agree required) (E.projectRows outer expressions rows)
      (E.projectRows outer expressions rows') := by
  refine rel_mapM h fun row row' hrow => sameOn_evalRow hrow fun index expr hexpr => ?_
  rcases hread index expr hexpr with hsub | hpruned
  · exact .inl hsub
  · exact .inr ⟨hpruned.1, hpruned.2 row row' hrow.length⟩

omit [DecidableEq V] in
theorem agree_scalarizeRows (h : Agree columns rows rows') :
    Option.Rel (Agree columns) (E.scalarizeRows rows) (E.scalarizeRows rows') := by
  cases h with
  | nil => exact .some (Agree.refl columns _)
  | cons hrow hrest =>
    cases hrest with
    | nil => exact .some (.cons hrow .nil)
    | cons => exact .none

theorem agree_repeatedRows (h : Agree columns rows rows') {count : BoundExpr} (width : Nat)
    (hcount : count.referencedColumns ⊆ columns) :
    Option.Rel (Agree columns) (E.repeatedRows outer count width rows)
      (E.repeatedRows outer count width rows') := by
  refine rel_tryFlatMap h fun row row' hrow => ?_
  rw [hrow.length]
  split
  · exact .none
  · rw [hrow.eval_eq hcount]
    refine rel_bind_same fun value => ?_
    refine rel_bind_same fun times => ?_
    refine .some (forall₂_iff_get.mpr ⟨by simp, ?_⟩)
    intro index hindex hindex'
    simp only [get_eq_getElem, getElem_replicate]
    exact hrow.take width

theorem agree_sortRows (h : Agree columns rows rows') {expressions : List SortExpr}
    (fetch : Option Nat)
    (hexpressions : ∀ order ∈ expressions, order.expr.referencedColumns ⊆ columns) :
    Option.Rel (Agree columns) (E.sortRows outer expressions fetch rows)
      (E.sortRows outer expressions fetch rows') := by
  have hkeys : rows.mapM (E.evalRow outer (expressions.map SortExpr.expr)) =
      rows'.mapM (E.evalRow outer (expressions.map SortExpr.expr)) := by
    refine mapM_eq_of_forall₂ h fun row row' hrow => hrow.evalRow_eq fun expr hexpr => ?_
    obtain ⟨order, horder, rfl⟩ := mem_map.mp hexpr
    exact hexpressions order horder
  rw [sortRows, sortRows, hkeys]
  refine rel_bind_same fun keys => ?_
  have hsorted : Agree columns (((keys.zip rows).insertionSort fun a b =>
        E.before (expressions.map fun order => (order.descending, order.nullsFirst))
          a.1 b.1 = true).map Prod.snd)
      (((keys.zip rows').insertionSort fun a b =>
        E.before (expressions.map fun order => (order.descending, order.nullsFirst))
          a.1 b.1 = true).map Prod.snd) := by
    refine rel_map (fun _ _ hpair => hpair.2) (forall₂_insertionSort ?_ (forall₂_zip keys h))
    intro a b a' b' hab hab'
    rw [hab.1, hab'.1]
  refine .some ?_
  rw [hsorted.length_eq]
  exact forall₂_take _ hsorted

/-! ## Aggregates -/

section Aggregates

variable {R : Row V → Row V → Prop} {groups groups' : List BoundExpr}
  {aggregates aggregates' : List AggregateExpr}

theorem aggregateValue_congr {group group' : List (Row V)} {aggregate aggregate' : AggregateExpr}
    (h : List.Forall₂ R group group') (hfunction : aggregate'.function = aggregate.function)
    (hdistinct : aggregate'.distinct = aggregate.distinct)
    (htype : aggregate'.dataType = aggregate.dataType)
    (hexpr : ∀ row row', R row row' → aggregate.expr.map (·.eval E.toScalars outer row) =
      aggregate'.expr.map (·.eval E.toScalars outer row'))
    (hnone : aggregate.expr = none ↔ aggregate'.expr = none) :
    E.aggregateValue outer group aggregate = E.aggregateValue outer group' aggregate' := by
  unfold aggregateValue
  cases harg : aggregate.expr with
  | none => rw [hnone.mp harg, h.length_eq]
  | some expr =>
    cases harg' : aggregate'.expr with
    | none =>
      rw [hnone.mpr harg'] at harg
      cases harg
    | some expr' =>
      have hvalues : (group.mapM fun row => expr.eval E.toScalars outer row) =
          group'.mapM fun row => expr'.eval E.toScalars outer row := by
        refine mapM_eq_of_forall₂ h fun row row' hrow => ?_
        have hsame := hexpr row row' hrow
        rw [harg, harg'] at hsame
        exact Option.some.inj hsame
      simp only [hvalues, hfunction, hdistinct, htype]

/-- Aggregates of related rows on which the expressions have the same values. -/
theorem aggregateRows_congr (h : List.Forall₂ R rows rows')
    (hempty : groups = [] ↔ groups' = [])
    (hgroups : ∀ row row', R row row' →
      E.evalRow outer groups row = E.evalRow outer groups' row')
    (haggregates : List.Forall₂ (fun aggregate aggregate' => ∀ group group',
      List.Forall₂ R group group' →
        E.aggregateValue outer group aggregate = E.aggregateValue outer group' aggregate')
      aggregates aggregates') :
    E.aggregateRows outer groups aggregates rows =
      E.aggregateRows outer groups' aggregates' rows' := by
  have hvalues : ∀ group group', List.Forall₂ R group group' →
      aggregates.mapM (E.aggregateValue outer group) =
        aggregates'.mapM (E.aggregateValue outer group') := fun group group' hgroup =>
    mapM_eq_of_forall₂ haggregates fun _ _ hsame => hsame group group' hgroup
  have hparts : Option.Rel (List.Forall₂ fun a b => a.1 = b.1 ∧ List.Forall₂ R a.2 b.2)
      (E.groups outer groups rows) (E.groups outer groups' rows') := by
    unfold Engine.groups
    by_cases hgroup : groups = []
    · rw [if_pos hgroup, if_pos (hempty.mp hgroup)]
      exact .some (.cons ⟨rfl, h⟩ .nil)
    · rw [if_neg hgroup, if_neg fun hgroup' => hgroup (hempty.mpr hgroup')]
      rw [mapM_eq_of_forall₂ h hgroups]
      refine rel_bind_same fun keys => ?_
      refine .some (rel_map (R := Eq) ?_ (forall₂_refl _))
      rintro key _ rfl
      refine ⟨rfl, rel_map (fun _ _ hpair => hpair.2) (rel_filter ?_ (forall₂_zip keys h))⟩
      intro a b hab
      simp only [hab.1]
  have hnone : E.refuses (groups.length + aggregates.length) =
      E.refuses (groups'.length + aggregates'.length) := by
    rw [Bool.eq_iff_iff, refuses_iff, refuses_iff, haggregates.length_eq, Nat.add_eq_zero_iff,
      Nat.add_eq_zero_iff, length_eq_zero_iff, hempty, ← length_eq_zero_iff]
  rw [aggregateRows, aggregateRows, hnone]
  split
  · rfl
  · refine bind_eq_of_rel hparts fun parts parts' hrelated => ?_
    refine mapM_eq_of_forall₂ hrelated fun a b hab => ?_
    simp only [hab.1, hvalues a.2 b.2 hab.2]

end Aggregates

/-! ## Joins -/

section Joins

/-- Two rows of a join input with the same keys and the same cells in the given columns. -/
structure SameProbe (width : Nat) (columns : List Nat) (probe probe' : Probe V) : Prop where
  width : probe.row.length = width
  row : SameOn columns probe.row probe'.row
  keys : probe.keys = probe'.keys
  member : probe.member = probe'.member

variable {width leftWidth rightWidth : Nat} {leftColumns rightColumns : List Nat}
  {condition : JoinCondition} {joinType : JoinType} {left left' right right' : Probe V}
  {lefts lefts' rights rights' : List (Probe V)}

theorem rel_probes (h : Agree columns rows rows') (hwidth : HasWidth width rows)
    {keys : List BoundExpr} {member : Option BoundExpr}
    (hkeys : ∀ expr ∈ keys, expr.referencedColumns ⊆ columns)
    (hmember : ∀ expr, member = some expr → expr.referencedColumns ⊆ columns) :
    Option.Rel (List.Forall₂ (SameProbe width columns)) (E.probes outer keys member rows)
      (E.probes outer keys member rows') := by
  have hrows : List.Forall₂ (fun row row' => row.length = width ∧ SameOn columns row row')
      rows rows' := forall₂_imp_of_mem h fun row hrow row' hsame => ⟨hwidth row hrow, hsame⟩
  refine rel_mapM hrows fun row row' hrow => ?_
  rw [hrow.2.evalRow_eq hkeys]
  refine rel_bind_same fun values => ?_
  cases member with
  | none => exact .some ⟨hrow.1, hrow.2, rfl, rfl⟩
  | some expr =>
    simp only [hrow.2.eval_eq (hmember expr rfl)]
    refine rel_bind_same fun value => ?_
    exact .some ⟨hrow.1, hrow.2, rfl, rfl⟩

/-- Columns of a pair of rows are columns of the left or of the right row. -/
structure Covers (leftWidth : Nat) (leftColumns rightColumns columns : List Nat) : Prop where
  left : ∀ index ∈ columns, index < leftWidth → index ∈ leftColumns
  right : ∀ index ∈ columns, leftWidth ≤ index → index - leftWidth ∈ rightColumns

omit [DecidableEq V] in
theorem SameProbe.pair (hcovers : Covers leftWidth leftColumns rightColumns columns)
    (hleft : SameProbe leftWidth leftColumns left left') {row row' : Row V}
    (hrow : SameOn rightColumns row row') :
    SameOn columns (left.row ++ row) (left'.row ++ row') := by
  refine hleft.row.append hrow ?_ ?_
  · rw [hleft.width]
    exact hcovers.left
  · rw [hleft.width]
    exact hcovers.right

theorem qualifies_congr
    (hresidual : ∀ residual, condition.residual = some residual →
      Covers leftWidth leftColumns rightColumns residual.referencedColumns)
    (hleft : SameProbe leftWidth leftColumns left left')
    (hright : SameProbe rightWidth rightColumns right right') :
    E.qualifies outer condition left right = E.qualifies outer condition left' right' := by
  unfold qualifies keysMatch
  rw [hleft.keys, hright.keys]
  cases hres : condition.residual with
  | none => rfl
  | some residual =>
    simp only [(hleft.pair (hresidual residual hres) hright.row).holds_eq (List.Subset.refl _)]

omit [DecidableEq V] in
theorem map_member_congr
    (h : List.Forall₂ (SameProbe rightWidth rightColumns) candidates candidates') :
    candidates.filterMap Probe.member = candidates'.filterMap Probe.member := by
  induction h with
  | nil => rfl
  | cons hprobe _ ih => rw [filterMap_cons, filterMap_cons, hprobe.member, ih]

omit [DecidableEq V] in
theorem isEmpty_congr {α β : Type} {R : α → β → Prop} {l : List α} {l' : List β}
    (h : List.Forall₂ R l l') : l.isEmpty = l'.isEmpty := by
  cases h <;> rfl

theorem marker_congr (hleft : SameProbe leftWidth leftColumns left left')
    (h : List.Forall₂ (SameProbe rightWidth rightColumns) candidates candidates') :
    E.marker left candidates = E.marker left' candidates' := by
  unfold marker
  rw [hleft.member, isEmpty_congr h, map_member_congr h]

omit [DecidableEq V] in
theorem SameProbe.refl_right (hleft : SameProbe leftWidth leftColumns left left')
    (hcovers : ∀ index ∈ required, index < leftWidth → index ∈ leftColumns) (row : Row V) :
    SameOn required (left.row ++ row) (left'.row ++ row) := by
  refine hleft.row.append (.refl (required.map (· - leftWidth)) row) ?_ ?_
  · rw [hleft.width]
    exact hcovers
  · rw [hleft.width]
    intro index hindex _
    exact mem_map.mpr ⟨index, hindex, rfl⟩

theorem agree_leftOutput (width : Nat)
    (hleftCovers : ∀ index ∈ required, index < leftWidth → index ∈ leftColumns)
    (hcovers : joinType.materializesRight = true →
      Covers leftWidth leftColumns rightColumns required)
    (hleft : SameProbe leftWidth leftColumns left left')
    (h : List.Forall₂ (SameProbe rightWidth rightColumns) candidates candidates') :
    Option.Rel (Agree required) (E.leftOutput joinType width left candidates)
      (E.leftOutput joinType width left' candidates') := by
  have hpairs : Covers leftWidth leftColumns rightColumns required →
      Agree required (candidates.map fun right => left.row ++ right.row)
        (candidates'.map fun right => left'.row ++ right.row) := fun hboth =>
    rel_map (fun _ _ hright => hleft.pair hboth hright.row) h
  have hfilled : SameOn required (left.row ++ E.nulls width) (left'.row ++ E.nulls width) :=
    hleft.refl_right hleftCovers _
  have hrow := hleft.refl_right hleftCovers []
  rw [append_nil, append_nil] at hrow
  unfold leftOutput
  cases joinType with
  | inner | right => exact .some (hpairs (hcovers rfl))
  | left | full =>
    simp only [isEmpty_congr h]
    refine .some ?_
    split
    · exact .cons hfilled .nil
    · exact hpairs (hcovers rfl)
  | semi | anti =>
    simp only [isEmpty_congr h]
    refine .some ?_
    split
    · first | exact .nil | exact .cons hrow .nil
    · first | exact .cons hrow .nil | exact .nil
  | leftSingle =>
    cases h with
    | nil => exact .some (.cons hfilled .nil)
    | cons hright hrest =>
      cases hrest with
      | nil => exact .some (.cons (hleft.pair (hcovers rfl) hright.row) .nil)
      | cons => exact .none
  | mark =>
    simp only [marker_congr hleft h]
    exact .some (.cons (hleft.refl_right hleftCovers _) .nil)
  | nullAwareAnti =>
    simp only [marker_congr hleft h]
    refine .some ?_
    split
    · exact .cons hrow .nil
    · exact .nil

omit [DecidableEq V] in
theorem SameProbe.nulls_append (hcovers : Covers leftWidth leftColumns rightColumns required)
    (hright : SameProbe rightWidth rightColumns right right') :
    SameOn required (E.nulls leftWidth ++ right.row) (E.nulls leftWidth ++ right'.row) := by
  refine (SameOn.refl leftColumns (E.nulls leftWidth)).append hright.row ?_ ?_
  · rw [length_nulls]
    exact hcovers.left
  · rw [length_nulls]
    exact hcovers.right

section Sides

variable (hresidual : ∀ residual, condition.residual = some residual →
    Covers leftWidth leftColumns rightColumns residual.referencedColumns)
  (hlefts : List.Forall₂ (SameProbe leftWidth leftColumns) lefts lefts')
  (hrights : List.Forall₂ (SameProbe rightWidth rightColumns) rights rights')

include hresidual hlefts hrights

theorem agree_leftRows (width : Nat)
    (hleftCovers : ∀ index ∈ required, index < leftWidth → index ∈ leftColumns)
    (hcovers : joinType.materializesRight = true →
      Covers leftWidth leftColumns rightColumns required) :
    Option.Rel (Agree required) (E.leftRows outer condition joinType width lefts rights)
      (E.leftRows outer condition joinType width lefts' rights') := by
  refine rel_tryFlatMap hlefts fun left left' hleft => ?_
  refine rel_bind (rel_tryFilter hrights fun right right' hright =>
    qualifies_congr hresidual hleft hright) fun candidates candidates' hcandidates => ?_
  exact agree_leftOutput width hleftCovers hcovers hleft hcandidates

/-- Rows that each right row contributes, by the left rows it meets. -/
theorem agree_byRight {output output' : Probe V → List (Probe V) → List (Row V)}
    (h : ∀ right right' candidates candidates', SameProbe rightWidth rightColumns right right' →
      List.Forall₂ (SameProbe leftWidth leftColumns) candidates candidates' →
      Agree required (output right candidates) (output' right' candidates')) :
    Option.Rel (Agree required)
      (tryFlatMap (fun right => do
        let candidates ← tryFilter (fun left => E.qualifies outer condition left right) lefts
        some (output right candidates)) rights)
      (tryFlatMap (fun right => do
        let candidates ← tryFilter (fun left => E.qualifies outer condition left right) lefts'
        some (output' right candidates)) rights') := by
  refine rel_tryFlatMap hrights fun right right' hright => ?_
  refine rel_bind (rel_tryFilter hlefts fun left left' hleft =>
    qualifies_congr hresidual hleft hright) fun candidates candidates' hcandidates => ?_
  exact .some (h right right' candidates candidates' hright hcandidates)

theorem agree_rightRows (hcovers : Covers leftWidth leftColumns rightColumns required) :
    Option.Rel (Agree required) (E.rightRows outer condition leftWidth lefts rights)
      (E.rightRows outer condition leftWidth lefts' rights') := by
  refine agree_byRight hresidual hlefts hrights fun right right' _ _ hright hcandidates => ?_
  rw [isEmpty_congr hcandidates]
  split
  · exact .cons (hright.nulls_append hcovers) .nil
  · exact rel_map (fun _ _ hleft => hleft.pair hcovers hright.row) hcandidates

theorem agree_unmatchedRows (hcovers : Covers leftWidth leftColumns rightColumns required) :
    Option.Rel (Agree required) (E.unmatchedRows outer condition leftWidth lefts rights)
      (E.unmatchedRows outer condition leftWidth lefts' rights') := by
  refine agree_byRight hresidual hlefts hrights fun right right' _ _ hright hcandidates => ?_
  rw [isEmpty_congr hcandidates]
  split
  · exact .cons (hright.nulls_append hcovers) .nil
  · exact .nil

end Sides

/-- The columns of the inputs that a join reads. -/
structure JoinReads (leftWidth : Nat) (condition : JoinCondition) (joinType : JoinType)
    (required leftColumns rightColumns : List Nat) : Prop where
  keys : ∀ pair ∈ condition.on, pair.1.referencedColumns ⊆ leftColumns ∧
    pair.2.referencedColumns ⊆ rightColumns
  residual : ∀ residual, condition.residual = some residual →
    Covers leftWidth leftColumns rightColumns residual.referencedColumns
  nullAware : ∀ pair, condition.nullAware = some pair →
    pair.1.referencedColumns ⊆ leftColumns ∧ pair.2.referencedColumns ⊆ rightColumns
  left : ∀ index ∈ required, index < leftWidth → index ∈ leftColumns
  right : joinType.materializesRight = true → ∀ index ∈ required, leftWidth ≤ index →
    index - leftWidth ∈ rightColumns

theorem agree_joinRows {leftRows leftRows' rightRows rightRows' : List (Row V)}
    (hreads : JoinReads leftWidth condition joinType required leftColumns rightColumns)
    (hleft : Agree leftColumns leftRows leftRows') (hleftWidth : HasWidth leftWidth leftRows)
    (hright : Agree rightColumns rightRows rightRows')
    (hrightWidth : HasWidth rightWidth rightRows) :
    Option.Rel (Agree required)
      (E.joinRows outer condition joinType leftWidth rightWidth leftRows rightRows)
      (E.joinRows outer condition joinType leftWidth rightWidth leftRows' rightRows') := by
  have hcovers : joinType.materializesRight = true →
      Covers leftWidth leftColumns rightColumns required := fun hmaterializes =>
    ⟨hreads.left, hreads.right hmaterializes⟩
  have hprobes {width : Nat} {columns : List Nat} {rows rows' : List (Row V)}
      {s : BoundExpr × BoundExpr → BoundExpr} (h : Agree columns rows rows')
      (hwidth : HasWidth width rows)
      (hkeys : ∀ pair ∈ condition.on, (s pair).referencedColumns ⊆ columns)
      (hmember : ∀ pair, condition.nullAware = some pair → (s pair).referencedColumns ⊆ columns) :
      Option.Rel (List.Forall₂ (SameProbe width columns))
        (E.probes outer (condition.on.map s) (condition.nullAware.map s) rows)
        (E.probes outer (condition.on.map s) (condition.nullAware.map s) rows') := by
    refine rel_probes h hwidth (forall_mem_map.mpr hkeys) fun expr hexpr => ?_
    obtain ⟨pair, hpair, rfl⟩ := Option.map_eq_some_iff.mp hexpr
    exact hmember pair hpair
  have hlefts := hprobes (s := Prod.fst) hleft hleftWidth
    (fun pair hpair => (hreads.keys pair hpair).1)
    (fun pair hpair => (hreads.nullAware pair hpair).1)
  have hrights := hprobes (s := Prod.snd) hright hrightWidth
    (fun pair hpair => (hreads.keys pair hpair).2)
    (fun pair hpair => (hreads.nullAware pair hpair).2)
  refine rel_bind hlefts fun lefts lefts' hlefts => rel_bind hrights fun rights rights' hrights => ?_
  have hleftRows : Option.Rel (Agree required)
      (E.leftRows outer condition joinType rightWidth lefts rights)
      (E.leftRows outer condition joinType rightWidth lefts' rights') :=
    agree_leftRows hreads.residual hlefts hrights rightWidth hreads.left hcovers
  cases joinType with
  | right => exact agree_rightRows hreads.residual hlefts hrights (hcovers rfl)
  | full =>
    refine rel_bind hleftRows fun matched matched' hmatched => ?_
    refine rel_bind (agree_unmatchedRows hreads.residual hlefts hrights (hcovers rfl))
      fun unmatched unmatched' hunmatched => ?_
    exact .some (rel_append hmatched hunmatched)
  | inner | left | semi | anti | leftSingle | mark | nullAwareAnti => exact hleftRows

end Joins

end Engine

end RustDb.Sql
