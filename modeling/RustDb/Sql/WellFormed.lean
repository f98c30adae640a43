import RustDb.Sql.Plan

/-!
# Well-formed plans

* `LogicalPlan.WellFormed`: what the binder promises of the columns and widths of a plan.
* `LogicalPlan.AllScans`: a property of all scans of a plan.
* `LogicalPlan.hasWidth_eval`: the rows of a well-formed plan have the width of its schema.
-/

namespace RustDb.Sql

open RustDb.Lib List Option

/-! ## Well-formedness -/

/-- The columns of the output of a join. -/
def JoinType.outputWidth (left right : Nat) : JoinType → Nat
  | .inner | .left | .right | .full | .leftSingle => left + right
  | .semi | .anti | .nullAwareAnti => left
  | .mark => left + 1

/-- Whether the columns of the right input are columns of the join. -/
def JoinType.materializesRight : JoinType → Bool
  | .inner | .left | .right | .full | .leftSingle => true
  | .semi | .anti | .mark | .nullAwareAnti => false

/-- The columns of the output of a correlated subquery. -/
def DependentJoinKind.outputWidth (left : Nat) : DependentJoinKind → Nat
  | .scalar | .guardedScalar _ | .exists | .in _ => left + 1
  | .existsFilter _ | .inFilter .. => left

/-- The columns of the condition are columns of the inputs. -/
structure JoinCondition.InRange (condition : JoinCondition) (left right : Nat) : Prop where
  keys : ∀ pair ∈ condition.on, pair.1.InRange left ∧ pair.2.InRange right
  residual : ∀ residual, condition.residual = some residual → residual.InRange (left + right)
  nullAware : ∀ pair, condition.nullAware = some pair →
    pair.1.InRange left ∧ pair.2.InRange right

namespace LogicalPlan

mutual

/-- What the binder promises: columns exist, and schemas have the width of the rows. -/
def WellFormed : LogicalPlan → Prop
  | .empty .. => True
  | .scan _ => True
  | .filter input predicate schema =>
    WellFormed input ∧ predicate.InRange input.width ∧ schema.width = input.width
  | .projection input expressions schema =>
    WellFormed input ∧ (∀ expr ∈ expressions, expr.InRange input.width) ∧
      schema.width = expressions.length
  | .scalarize input schema => WellFormed input ∧ input.width = 1 ∧ schema.width = 1
  | .dependentJoin left right kind _ schema =>
    WellFormed left ∧ WellFormed right ∧ schema.width = kind.outputWidth left.width
  | .aggregate input groupExprs aggregateExprs schema =>
    WellFormed input ∧ (∀ expr ∈ groupExprs, expr.InRange input.width) ∧
      (∀ aggregate ∈ aggregateExprs, ∀ expr, aggregate.expr = some expr →
        expr.InRange input.width) ∧
      schema.width = groupExprs.length + aggregateExprs.length
  | .append inputs schema => AllWellFormed schema.width inputs
  | .repeatRows input count schema =>
    WellFormed input ∧ count.InRange input.width ∧ schema.width ≤ input.width
  | .window input expressions schema =>
    WellFormed input ∧ schema.width = input.width + expressions.length
  | .sort input expressions _ schema =>
    WellFormed input ∧ (∀ order ∈ expressions, order.expr.InRange input.width) ∧
      schema.width = input.width
  | .limit input _ _ schema => WellFormed input ∧ schema.width = input.width
  | .join left right condition joinType schema =>
    WellFormed left ∧ WellFormed right ∧ condition.InRange left.width right.width ∧
      schema.width = joinType.outputWidth left.width right.width

/-- Well-formed plans of one width. -/
def AllWellFormed (width : Nat) : List LogicalPlan → Prop
  | [] => True
  | input :: inputs => WellFormed input ∧ input.width = width ∧ AllWellFormed width inputs

end

mutual

/-- A property of all scans of a plan. -/
def AllScans (P : Scan → Prop) : LogicalPlan → Prop
  | .empty .. => True
  | .scan source => P source
  | .filter input _ _ => AllScans P input
  | .projection input _ _ => AllScans P input
  | .scalarize input _ => AllScans P input
  | .dependentJoin left right _ _ _ => AllScans P left ∧ AllScans P right
  | .aggregate input _ _ _ => AllScans P input
  | .append inputs _ => AllScansAll P inputs
  | .repeatRows input _ _ => AllScans P input
  | .window input _ _ => AllScans P input
  | .sort input _ _ _ => AllScans P input
  | .limit input _ _ _ => AllScans P input
  | .join left right _ _ _ => AllScans P left ∧ AllScans P right

/-- The property of the scans of several plans. -/
def AllScansAll (P : Scan → Prop) : List LogicalPlan → Prop
  | [] => True
  | input :: inputs => AllScans P input ∧ AllScansAll P inputs

end

end LogicalPlan

section Widths

variable {V : Type} [DecidableEq V] {E : Engine V} {outer : List (Row V)}

/-- All rows have the given number of columns. -/
def HasWidth (width : Nat) (rows : List (Row V)) : Prop := ∀ row ∈ rows, row.length = width

variable (E outer) in
/-- An infallible predicate has a truth value on every row. -/
theorem HasWidth.holds_isSome {width : Nat} {rows : List (Row V)} (hrows : HasWidth width rows)
    {predicate : BoundExpr} (hpredicate : predicate.isStructurallyInfallible = true)
    (hrange : predicate.InRange width) :
    ∀ row ∈ rows, (E.holds outer predicate row).isSome = true := by
  intro row hrow
  rw [Engine.holds, isSome_map]
  exact BoundExpr.isSome_eval_of_infallible hpredicate (hrows row hrow ▸ hrange)

namespace Engine

variable {expressions : List BoundExpr} {row : Row V}

theorem length_evalRow {row' : Row V} (h : E.evalRow outer expressions row = some row') :
    row'.length = expressions.length :=
  length_eq_of_mapM h

variable {rows rows' : List (Row V)}

theorem mem_filterRows {predicate : BoundExpr}
    (h : E.filterRows outer predicate rows = some rows') (hrow : row ∈ rows') : row ∈ rows := by
  obtain ⟨-, rfl⟩ := tryFilter_eq_some.mp h
  exact (mem_filter.mp hrow).1

theorem hasWidth_projectRows (h : E.projectRows outer expressions rows = some rows') :
    HasWidth expressions.length rows' := by
  intro row' hrow'
  obtain ⟨row, -, hrow⟩ := exists_of_mem_mapM h hrow'
  exact length_evalRow hrow

omit [DecidableEq V] in
theorem hasWidth_scalarizeRows (hrows : HasWidth 1 rows)
    (h : E.scalarizeRows rows = some rows') : HasWidth 1 rows' := by
  unfold scalarizeRows at h
  split at h
  · cases h
    exact forall_mem_singleton.mpr rfl
  · cases h
    exact hrows
  · cases h

variable {groupExprs : List BoundExpr}

theorem length_key_of_mem_groups {groups : List (Row V × List (Row V))}
    (h : E.groups outer groupExprs rows = some groups) {group : Row V × List (Row V)}
    (hgroup : group ∈ groups) : group.1.length = groupExprs.length := by
  unfold Engine.groups at h
  split at h
  · next hnil =>
    cases h
    rw [mem_singleton.mp hgroup, hnil]
    rfl
  · obtain ⟨keys, hkeys, h⟩ := bind_eq_some_iff.mp h
    cases h
    obtain ⟨key, hkey, rfl⟩ := mem_map.mp hgroup
    obtain ⟨row, -, hrow⟩ := exists_of_mem_mapM hkeys (mem_eraseDups.mp hkey)
    exact length_evalRow hrow

variable {aggregateExprs : List AggregateExpr}

theorem aggregateRows_eq_some :
    E.aggregateRows outer groupExprs aggregateExprs rows = some rows' ↔
      (groupExprs ≠ [] ∨ aggregateExprs ≠ []) ∧ ∃ groups,
        E.groups outer groupExprs rows = some groups ∧
        (groups.mapM fun group => do
          let values ← aggregateExprs.mapM (E.aggregateValue outer group.2)
          some (group.1 ++ values)) = some rows' := by
  have hnone : E.refuses (groupExprs.length + aggregateExprs.length) = true ↔
      groupExprs = [] ∧ aggregateExprs = [] := by
    rw [refuses_iff, Nat.add_eq_zero_iff, length_eq_zero_iff, length_eq_zero_iff]
  rw [aggregateRows, ← not_and_or, ← hnone]
  split
  · next h => simp [h]
  · next h =>
    rw [and_iff_right h]
    exact bind_eq_some_iff

theorem hasWidth_aggregateRows
    (h : E.aggregateRows outer groupExprs aggregateExprs rows = some rows') :
    HasWidth (groupExprs.length + aggregateExprs.length) rows' := by
  intro row' hrow'
  obtain ⟨-, groups, hgroups, h⟩ := aggregateRows_eq_some.mp h
  obtain ⟨group, hgroup, h⟩ := exists_of_mem_mapM h hrow'
  obtain ⟨values, hvalues, h⟩ := bind_eq_some_iff.mp h
  cases h
  rw [length_append, length_key_of_mem_groups hgroups hgroup, length_eq_of_mapM hvalues]

theorem mem_sortRows {expressions : List SortExpr} {fetch : Option Nat}
    (h : E.sortRows outer expressions fetch rows = some rows') (hrow : row ∈ rows') :
    row ∈ rows := by
  obtain ⟨keys, hkeys, h⟩ := bind_eq_some_iff.mp h
  cases h
  obtain ⟨pair, hpair, rfl⟩ := mem_map.mp (mem_of_mem_take hrow)
  exact (of_mem_zip ((mem_insertionSort _).mp hpair)).2

omit [DecidableEq V] in
theorem mem_limitRows {offset : Nat} {bound : Option Nat}
    (hrow : row ∈ limitRows offset bound rows) : row ∈ rows :=
  mem_of_mem_drop (mem_of_mem_take hrow)

variable {width : Nat}

theorem hasWidth_repeatedRows {count : BoundExpr}
    (h : E.repeatedRows outer count width rows = some rows') : HasWidth width rows' := by
  intro row hrow
  obtain ⟨row', hrow', part, hpart, hmem⟩ := exists_of_mem_tryFlatMap h hrow
  split at hpart
  · cases hpart
  · next hwidth =>
    simp only [bind_eq_bind, bind_eq_some_iff] at hpart
    obtain ⟨value, -, times, -, hpart⟩ := hpart
    cases hpart
    rw [eq_of_mem_replicate hmem, length_take]
    omega

omit [DecidableEq V] in
theorem hasWidth_window {expressions : List WindowExpr} (hrows : HasWidth width rows)
    (h : E.window expressions outer rows = some rows') :
    HasWidth (width + expressions.length) rows' := by
  have hall := E.width_window expressions outer rows rows' h
  clear h
  induction hall with
  | nil => exact forall_mem_nil _
  | cons hrow _ ih =>
    obtain ⟨hhead, htail⟩ := forall_mem_cons.mp hrows
    exact forall_mem_cons.mpr ⟨by rw [hrow, hhead], ih htail⟩

/-! ### Joins -/

variable {keys : List BoundExpr} {member : Option BoundExpr} {probes : List (Probe V)}

theorem probes_eq_some (h : E.probes outer keys member rows = some probes) :
    List.Forall₂ (fun row probe => probe.row = row ∧ E.evalRow outer keys row = some probe.keys ∧
      member.mapM (fun expr => expr.eval E.toScalars outer row) = some probe.member)
      rows probes := by
  refine (mapM_eq_some.mp h).imp fun row probe h => ?_
  obtain ⟨values, hvalues, h⟩ := bind_eq_some_iff.mp h
  cases member with
  | none =>
    cases h
    exact ⟨rfl, hvalues, rfl⟩
  | some expr =>
    obtain ⟨value, hvalue, h⟩ := bind_eq_some_iff.mp h
    cases h
    refine ⟨rfl, hvalues, ?_⟩
    simp [hvalue]

/-- The rows of the probes are the rows of the input. -/
theorem map_row_probes (h : E.probes outer keys member rows = some probes) :
    probes.map Probe.row = rows := by
  have hmap := map_eq_map_of_forall₂ (probes_eq_some h) (f := id) (g := Probe.row)
    fun row probe hrow => hrow.1.symm
  rw [← hmap, List.map_id]

theorem hasWidth_of_probes (hrows : HasWidth width rows)
    (h : E.probes outer keys member rows = some probes) :
    ∀ probe ∈ probes, probe.row.length = width := by
  intro probe hprobe
  apply hrows
  rw [← map_row_probes h]
  exact mem_map_of_mem hprobe

omit [DecidableEq V] in
@[simp] theorem length_nulls (width : Nat) : (E.nulls width).length = width :=
  length_replicate

variable {joinType : JoinType} {leftWidth rightWidth : Nat}

/-- The rows that a left row contributes to a join. -/
theorem hasWidth_leftOutput {left : Probe V} {candidates : List (Probe V)}
    (hleft : left.row.length = leftWidth)
    (hcandidates : ∀ right ∈ candidates, right.row.length = rightWidth)
    (h : E.leftOutput joinType rightWidth left candidates = some rows) :
    HasWidth (joinType.outputWidth leftWidth rightWidth) rows := by
  have hpairs : HasWidth (leftWidth + rightWidth)
      (candidates.map fun right => left.row ++ right.row) := by
    intro row hrow
    obtain ⟨right, hright, rfl⟩ := mem_map.mp hrow
    rw [length_append, hleft, hcandidates right hright]
  have hfilled : HasWidth (leftWidth + rightWidth) [left.row ++ E.nulls rightWidth] :=
    forall_mem_singleton.mpr (by rw [length_append, hleft, length_nulls])
  have hsingle : HasWidth leftWidth [left.row] := forall_mem_singleton.mpr hleft
  unfold leftOutput at h
  cases joinType with
  | inner | right =>
    cases h
    exact hpairs
  | left | full =>
    cases h
    split
    · exact hfilled
    · exact hpairs
  | semi | anti | nullAwareAnti =>
    cases h
    split
    · first | exact hsingle | exact forall_mem_nil _
    · first | exact hsingle | exact forall_mem_nil _
  | leftSingle =>
    match candidates, hpairs, h with
    | [], _, h =>
      cases h
      exact hfilled
    | [right], hpairs, h =>
      cases h
      exact hpairs
  | mark =>
    cases h
    exact forall_mem_singleton.mpr (by simp [hleft, JoinType.outputWidth])

variable {condition : JoinCondition} {lefts rights : List (Probe V)}

section

variable (hlefts : ∀ left ∈ lefts, left.row.length = leftWidth)
  (hrights : ∀ right ∈ rights, right.row.length = rightWidth)
include hlefts hrights

theorem hasWidth_leftRows
    (h : E.leftRows outer condition joinType rightWidth lefts rights = some rows) :
    HasWidth (joinType.outputWidth leftWidth rightWidth) rows := by
  intro row hrow
  obtain ⟨left, hleft, part, hpart, hmem⟩ := exists_of_mem_tryFlatMap h hrow
  obtain ⟨candidates, hcandidates, hpart⟩ := bind_eq_some_iff.mp hpart
  obtain ⟨-, rfl⟩ := tryFilter_eq_some.mp hcandidates
  refine hasWidth_leftOutput (hlefts left hleft) ?_ hpart row hmem
  intro right hright
  exact hrights right (mem_filter.mp hright).1

theorem hasWidth_rightRows (h : E.rightRows outer condition leftWidth lefts rights = some rows) :
    HasWidth (leftWidth + rightWidth) rows := by
  intro row hrow
  obtain ⟨right, hright, part, hpart, hmem⟩ := exists_of_mem_tryFlatMap h hrow
  obtain ⟨candidates, hcandidates, hpart⟩ := bind_eq_some_iff.mp hpart
  obtain ⟨-, rfl⟩ := tryFilter_eq_some.mp hcandidates
  cases hpart
  split at hmem
  · rw [mem_singleton.mp hmem, length_append, length_nulls, hrights right hright]
  · obtain ⟨left, hleft, rfl⟩ := mem_map.mp hmem
    rw [length_append, hlefts left (mem_filter.mp hleft).1, hrights right hright]

end

theorem hasWidth_unmatchedRows (hrights : ∀ right ∈ rights, right.row.length = rightWidth)
    (h : E.unmatchedRows outer condition leftWidth lefts rights = some rows) :
    HasWidth (leftWidth + rightWidth) rows := by
  intro row hrow
  obtain ⟨right, hright, part, hpart, hmem⟩ := exists_of_mem_tryFlatMap h hrow
  obtain ⟨candidates, -, hpart⟩ := bind_eq_some_iff.mp hpart
  cases hpart
  split at hmem
  · rw [mem_singleton.mp hmem, length_append, length_nulls, hrights right hright]
  · cases hmem

theorem hasWidth_joinRows {lefts rights : List (Row V)} (hlefts : HasWidth leftWidth lefts)
    (hrights : HasWidth rightWidth rights)
    (h : E.joinRows outer condition joinType leftWidth rightWidth lefts rights = some rows) :
    HasWidth (joinType.outputWidth leftWidth rightWidth) rows := by
  obtain ⟨leftProbes, hleftProbes, h⟩ := bind_eq_some_iff.mp h
  obtain ⟨rightProbes, hrightProbes, h⟩ := bind_eq_some_iff.mp h
  have hlefts := hasWidth_of_probes hlefts hleftProbes
  have hrights := hasWidth_of_probes hrights hrightProbes
  cases joinType with
  | right => exact hasWidth_rightRows hlefts hrights h
  | full =>
    simp only [bind_eq_bind, bind_eq_some_iff] at h
    obtain ⟨matched, hmatched, unmatched, hunmatched, h⟩ := h
    cases h
    exact forall_mem_append.mpr ⟨hasWidth_leftRows hlefts hrights hmatched,
      hasWidth_unmatchedRows hrights hunmatched⟩
  | inner | left | semi | anti | leftSingle | mark | nullAwareAnti =>
    exact hasWidth_leftRows hlefts hrights h

/-! ### Correlated subqueries -/

variable {kind : DependentJoinKind}

theorem hasWidth_dependentOutput {active : Bool} {subquery : List (Row V)}
    (h : E.dependentOutput outer kind active row subquery = some rows) :
    HasWidth (kind.outputWidth row.length) rows := by
  have hone : ∀ value, HasWidth (row.length + 1) [row ++ [value]] := fun value =>
    forall_mem_singleton.mpr (by simp)
  have hkept : ∀ kept : Prop, [Decidable kept] →
      HasWidth row.length (if kept then [row] else []) := by
    intro kept _
    split
    · exact forall_mem_singleton.mpr rfl
    · exact forall_mem_nil _
  cases kind with
  | scalar | guardedScalar | «in» =>
    obtain ⟨value, -, h⟩ := bind_eq_some_iff.mp h
    cases h
    exact hone _
  | «exists» =>
    cases h
    exact hone _
  | existsFilter negated =>
    cases h
    exact hkept _
  | inFilter needle negated =>
    obtain ⟨marker, -, h⟩ := bind_eq_some_iff.mp h
    cases h
    exact hkept _

theorem hasWidth_dependentRows {guard : Option BoundExpr}
    {subquery : Row V → Option (List (Row V))} {lefts : List (Row V)}
    (hlefts : HasWidth width lefts)
    (h : E.dependentRows outer kind guard subquery lefts = some rows) :
    HasWidth (kind.outputWidth width) rows := by
  intro row hrow
  obtain ⟨left, hleft, part, hpart, hmem⟩ := exists_of_mem_tryFlatMap h hrow
  simp only [bind_eq_bind, bind_eq_some_iff] at hpart
  obtain ⟨active, -, inner, -, hpart⟩ := hpart
  rw [← hlefts left hleft]
  exact hasWidth_dependentOutput hpart row hmem

end Engine

namespace LogicalPlan

theorem allWellFormed_iff {width : Nat} {inputs : List LogicalPlan} :
    AllWellFormed width inputs ↔ ∀ input ∈ inputs, input.WellFormed ∧ input.width = width := by
  induction inputs with
  | nil => simp [AllWellFormed]
  | cons input inputs ih => rw [AllWellFormed, forall_mem_cons, ih, and_assoc]

/-- The rows of a well-formed plan have the width of its schema. -/
theorem hasWidth_eval {plan : LogicalPlan} (hplan : plan.WellFormed) {rows : List (Row V)}
    (h : plan.eval E outer = some rows) : HasWidth plan.width rows := by
  induction plan using LogicalPlan.induction generalizing outer rows with
  | empty produceOneRow schema =>
    cases h
    split
    · exact forall_mem_singleton.mpr (Engine.length_nulls _)
    · exact forall_mem_nil _
  | scan source =>
    cases h
    exact E.width_table source
  | filter input predicate schema ih =>
    obtain ⟨hinput, -, hwidth⟩ := hplan
    obtain ⟨inner, hinner, h⟩ := bind_eq_some_iff.mp h
    intro row hrow
    rw [ih hinput hinner row (Engine.mem_filterRows h hrow)]
    exact hwidth.symm
  | projection input expressions schema ih =>
    obtain ⟨-, -, hwidth⟩ := hplan
    obtain ⟨inner, -, h⟩ := bind_eq_some_iff.mp h
    intro row hrow
    rw [Engine.hasWidth_projectRows h row hrow]
    exact hwidth.symm
  | scalarize input schema ih =>
    obtain ⟨hinput, hone, hwidth⟩ := hplan
    obtain ⟨inner, hinner, h⟩ := bind_eq_some_iff.mp h
    have hrows := ih hinput hinner
    rw [hone] at hrows
    intro row hrow
    rw [Engine.hasWidth_scalarizeRows hrows h row hrow]
    exact hwidth.symm
  | dependentJoin left right kind guard schema ihleft _ =>
    obtain ⟨hleft, -, hwidth⟩ := hplan
    obtain ⟨lefts, hlefts, h⟩ := bind_eq_some_iff.mp h
    intro row hrow
    rw [Engine.hasWidth_dependentRows (ihleft hleft hlefts) h row hrow]
    exact hwidth.symm
  | aggregate input groupExprs aggregateExprs schema ih =>
    obtain ⟨-, -, -, hwidth⟩ := hplan
    obtain ⟨inner, -, h⟩ := bind_eq_some_iff.mp h
    intro row hrow
    rw [Engine.hasWidth_aggregateRows h row hrow]
    exact hwidth.symm
  | append inputs schema ih =>
    have hall := allWellFormed_iff.mp hplan
    clear hplan
    rw [eval] at h
    induction inputs generalizing rows with
    | nil =>
      cases h
      exact forall_mem_nil _
    | cons input inputs ihinputs =>
      obtain ⟨hinput, hinputs⟩ := forall_mem_cons.mp hall
      obtain ⟨ihinput, ihrest⟩ := forall_mem_cons.mp ih
      obtain ⟨first, hfirst, h⟩ := bind_eq_some_iff.mp h
      obtain ⟨rest, hrest, h⟩ := bind_eq_some_iff.mp h
      cases h
      have hwidth := ihinput hinput.1 hfirst
      rw [hinput.2] at hwidth
      exact forall_mem_append.mpr ⟨hwidth, ihinputs ihrest hrest hinputs⟩
  | repeatRows input count schema ih =>
    obtain ⟨inner, hinner, h⟩ := bind_eq_some_iff.mp h
    exact Engine.hasWidth_repeatedRows h
  | window input expressions schema ih =>
    obtain ⟨hinput, hwidth⟩ := hplan
    obtain ⟨inner, hinner, h⟩ := bind_eq_some_iff.mp h
    intro row hrow
    rw [Engine.hasWidth_window (ih hinput hinner) h row hrow]
    exact hwidth.symm
  | sort input expressions fetch schema ih =>
    obtain ⟨hinput, -, hwidth⟩ := hplan
    obtain ⟨inner, hinner, h⟩ := bind_eq_some_iff.mp h
    intro row hrow
    rw [ih hinput hinner row (Engine.mem_sortRows h hrow)]
    exact hwidth.symm
  | limit input offset bound schema ih =>
    obtain ⟨hinput, hwidth⟩ := hplan
    obtain ⟨inner, hinner, h⟩ := bind_eq_some_iff.mp h
    cases h
    intro row hrow
    rw [ih hinput hinner row (Engine.mem_limitRows hrow)]
    exact hwidth.symm
  | join left right condition joinType schema ihleft ihright =>
    obtain ⟨hleft, hright, -, hwidth⟩ := hplan
    obtain ⟨lefts, hlefts, h⟩ := bind_eq_some_iff.mp h
    obtain ⟨rights, hrights, h⟩ := bind_eq_some_iff.mp h
    intro row hrow
    rw [Engine.hasWidth_joinRows (ihleft hleft hlefts) (ihright hright hrights) h row hrow]
    exact hwidth.symm

end LogicalPlan

end Widths

end RustDb.Sql
