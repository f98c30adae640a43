import RustDb.Native.TableWriter

/-!
# The disk budget of a write

A write whose source is not known in advance raises its budget with every batch, and charges
its files to the budget as it writes them.  The final check is written independently of this.

* `WithinLimits`: the inequalities behind both.
* `checkLimits_eq_ok`, `limitForMeasuredSource_eq_ok`: when the two chains of checked
  arithmetic succeed.
* `Measured.budgetSteps_iff`: a run is admitted when the final check would accept each of its
  prefixes.
-/

namespace RustDb.Native

open RustDb.Lib NativeTableWriter

variable {plan : NativeWritePlan}

/-! ## The two chains of checks -/

/-- The final limit and the peak limit, and that both are `u64` values. -/
structure WithinLimits (plan : NativeWritePlan) (newSourceBytes newBytes : Nat) : Prop where
  finalLimit : (plan.inheritedSourceBytes + newSourceBytes) * 2 +
    fixedMetadataAllowanceBytes < u64Limit
  final : plan.inheritedStorageBytes + newBytes + catalogHeadroomBytes ≤
    (plan.inheritedSourceBytes + newSourceBytes) * 2 + fixedMetadataAllowanceBytes
  peakLimit : (plan.inheritedSourceBytes + newSourceBytes + plan.retainedOldSourceBytes) * 3 +
    fixedMetadataAllowanceBytes < u64Limit
  peak : plan.retainedOldStorageBytes + plan.inheritedStorageBytes + newSourceBytes + newBytes +
    catalogHeadroomBytes ≤
      (plan.inheritedSourceBytes + newSourceBytes + plan.retainedOldSourceBytes) * 3 +
        fixedMetadataAllowanceBytes

/-- Every other sum of the final check is below one of the two limits. -/
theorem checkLimits_eq_ok {newSourceBytes newSnapshotBytes : Nat} :
    checkLimits plan newSourceBytes newSnapshotBytes
      (plan.inheritedSourceBytes + newSourceBytes) = .ok () ↔
      WithinLimits plan newSourceBytes newSnapshotBytes := by
  unfold checkLimits
  simp only [bind_eq_ok, orExhausted_eq_ok, checkedAdd_eq_some, storageLimit_eq_ok,
    checkedSum_eq_ok, rejectIf_eq_ok, exists_const, List.sum_cons, List.sum_nil]
  constructor
  · rintro ⟨_, ⟨-, rfl⟩, _, ⟨-, rfl⟩, _, ⟨hfinalLimit, rfl⟩, hfinal, _, ⟨-, rfl⟩, _, ⟨-, rfl⟩, _,
      ⟨hpeakLimit, rfl⟩, hpeak⟩
    constructor <;> omega
  · intro h
    obtain ⟨hfinalLimit, hfinal, hpeakLimit, hpeak⟩ := h
    refine ⟨_, ⟨?_, rfl⟩, _, ⟨?_, rfl⟩, _, ⟨hfinalLimit, rfl⟩, ?_, _, ⟨?_, rfl⟩, _, ⟨?_, rfl⟩, _,
      ⟨?_, rfl⟩, ?_⟩ <;> omega

/-- The largest number of new bytes within both limits. -/
def measuredLimit (plan : NativeWritePlan) (newSourceBytes : Nat) : Nat :=
  min ((plan.inheritedSourceBytes + newSourceBytes) * 2 + fixedMetadataAllowanceBytes -
      plan.inheritedStorageBytes)
    ((plan.inheritedSourceBytes + newSourceBytes + plan.retainedOldSourceBytes) * 3 +
      fixedMetadataAllowanceBytes -
      (plan.retainedOldStorageBytes + plan.inheritedStorageBytes + newSourceBytes)) -
    catalogHeadroomBytes

theorem limitForMeasuredSource_eq_ok {newSourceBytes limit : Nat} :
    plan.limitForMeasuredSource newSourceBytes = .ok limit ↔
      WithinLimits plan newSourceBytes 0 ∧ limit = measuredLimit plan newSourceBytes := by
  unfold NativeWritePlan.limitForMeasuredSource newSnapshotLimit
  simp only [bind_eq_ok, orExhausted_eq_ok, checkedAdd_eq_some, checkedSub_eq_some,
    storageLimit_eq_ok]
  constructor
  · rintro ⟨_, ⟨-, rfl⟩, _, ⟨hfinalLimit, rfl⟩, _, ⟨hfinal, rfl⟩, _, ⟨-, rfl⟩, _, ⟨hpeakLimit, rfl⟩,
      _, ⟨-, rfl⟩, _, ⟨-, rfl⟩, _, ⟨hpeak, rfl⟩, hheadroom, hlimit⟩
    refine ⟨?_, hlimit⟩
    constructor <;> omega
  · rintro ⟨⟨hfinalLimit, hfinal, hpeakLimit, hpeak⟩, hlimit⟩
    refine ⟨_, ⟨?_, rfl⟩, _, ⟨hfinalLimit, rfl⟩, _, ⟨?_, rfl⟩, _, ⟨?_, rfl⟩, _, ⟨hpeakLimit, rfl⟩,
      _, ⟨?_, rfl⟩, _, ⟨?_, rfl⟩, _, ⟨?_, rfl⟩, ?_, hlimit⟩
    all_goals
      generalize fixedMetadataAllowanceBytes = allowance at *
      generalize catalogHeadroomBytes = headroom at *
      omega

/-- New bytes fit the budget exactly when they are within the limits. -/
theorem withinLimits_iff {newSourceBytes newBytes : Nat} :
    WithinLimits plan newSourceBytes newBytes ↔
      ∃ limit, plan.limitForMeasuredSource newSourceBytes = .ok limit ∧ newBytes ≤ limit := by
  simp only [limitForMeasuredSource_eq_ok]
  constructor
  · rintro ⟨hfinalLimit, hfinal, hpeakLimit, hpeak⟩
    refine ⟨measuredLimit plan newSourceBytes, ⟨?_, rfl⟩, ?_⟩
    · constructor <;> omega
    · unfold measuredLimit
      generalize fixedMetadataAllowanceBytes = allowance at *
      generalize catalogHeadroomBytes = headroom at *
      omega
  · rintro ⟨limit, ⟨⟨hfinalLimit, hfinal, hpeakLimit, hpeak⟩, hlimit⟩, hle⟩
    unfold measuredLimit at hlimit
    refine ⟨hfinalLimit, ?_, hpeakLimit, ?_⟩
    all_goals
      generalize fixedMetadataAllowanceBytes = allowance at *
      generalize catalogHeadroomBytes = headroom at *
      omega

/-- More source bytes allow at least as many new bytes. -/
theorem limit_mono {n n' limit limit' : Nat} (hle : n ≤ n')
    (h : plan.limitForMeasuredSource n = .ok limit)
    (h' : plan.limitForMeasuredSource n' = .ok limit') : limit ≤ limit' := by
  obtain ⟨-, hlimit⟩ := limitForMeasuredSource_eq_ok.mp h
  obtain ⟨-, hlimit'⟩ := limitForMeasuredSource_eq_ok.mp h'
  unfold measuredLimit at hlimit hlimit'
  generalize fixedMetadataAllowanceBytes = allowance at *
  generalize catalogHeadroomBytes = headroom at *
  omega

/-- The final check accepts a write with so many source bytes and new bytes. -/
def FinallyAccepted (plan : NativeWritePlan) (newSourceBytes newBytes : Nat) : Prop :=
  ∃ total, checkedAdd plan.inheritedSourceBytes newSourceBytes = some total ∧
    checkLimits plan newSourceBytes newBytes total = .ok ()

theorem finallyAccepted_iff {newSourceBytes newBytes : Nat} :
    FinallyAccepted plan newSourceBytes newBytes ↔
      ∃ limit, plan.limitForMeasuredSource newSourceBytes = .ok limit ∧ newBytes ≤ limit := by
  rw [← withinLimits_iff, ← checkLimits_eq_ok]
  constructor
  · rintro ⟨total, htotal, hcheck⟩
    obtain ⟨-, rfl⟩ := checkedAdd_eq_some.mp htotal
    exact hcheck
  · intro hcheck
    have hbound := (checkLimits_eq_ok.mp hcheck).finalLimit
    exact ⟨_, checkedAdd_eq_some.mpr ⟨by omega, rfl⟩, hcheck⟩

/-! ## Batches and files -/

/-- What a write does to its budget: it measures a batch, or charges bytes of a file. -/
inductive BudgetStep where
  | batch (inputBytes : Nat)
  | file (bytes : Nat)

namespace BudgetStep

/-- The source bytes that a step measures. -/
def source : BudgetStep → Nat
  | batch inputBytes => inputBytes
  | file _ => 0

/-- The new bytes that a step charges. -/
def stored : BudgetStep → Nat
  | batch _ => 0
  | file bytes => bytes

end BudgetStep

namespace NativeTableWriter

/-- A batch raises the limit, the bytes of a file are charged against the limit in force. -/
def budgetStep (writer : NativeTableWriter) : BudgetStep → Except Error NativeTableWriter
  | .batch inputBytes => writer.measureBatch inputBytes
  | .file bytes => do
    let budget ← writer.budget.reserve bytes (.stagedWrite writer.transactionId)
    pure { writer with budget }

/-- The steps of a write until one fails. -/
def budgetSteps (writer : NativeTableWriter) (steps : List BudgetStep) :
    Except Error NativeTableWriter :=
  steps.foldlM budgetStep writer

/-- The limit of a writer is that of the bytes it has measured, and it keeps to it. -/
structure Measured (plan : NativeWritePlan) (writer : NativeTableWriter) : Prop where
  plan_eq : writer.plan = plan
  budget_eq : plan.limitForMeasuredSource writer.logicalInputBytes = .ok writer.budget.limit
  used_le : writer.budget.used ≤ writer.budget.limit

variable {writer writer' : NativeTableWriter}

theorem Measured.finallyAccepted (h : Measured plan writer) :
    FinallyAccepted plan writer.logicalInputBytes writer.budget.used :=
  finallyAccepted_iff.mpr ⟨_, h.budget_eq, h.used_le⟩

section

variable (hplan : plan.newSourceBytes = 0) (h : Measured plan writer)
include hplan h

theorem Measured.budgetStep {step : BudgetStep} (hstep : writer.budgetStep step = .ok writer') :
    Measured plan writer' ∧
      writer'.logicalInputBytes = writer.logicalInputBytes + step.source ∧
      writer'.budget.used = writer.budget.used + step.stored := by
  cases step with
  | batch inputBytes =>
    unfold NativeTableWriter.budgetStep measureBatch measuredBudget at hstep
    rw [h.plan_eq] at hstep
    simp only [hplan, if_true, bind_eq_ok, orExhausted_eq_ok, checkedAdd_eq_some] at hstep
    obtain ⟨_, ⟨-, rfl⟩, _, ⟨limit, hlimit, hbudget⟩, hwriter⟩ := hstep
    cases hbudget
    cases hwriter
    have hle : writer.budget.limit ≤ limit := limit_mono (by omega) h.budget_eq hlimit
    refine ⟨⟨rfl, ?_, Nat.le_trans h.used_le (Nat.le_max_left _ _)⟩, rfl, rfl⟩
    show plan.limitForMeasuredSource _ = .ok (max writer.budget.limit limit)
    rw [max_eq_right hle]
    exact hlimit
  | file bytes =>
    obtain ⟨budget, hbudget, hwriter⟩ := bind_eq_ok.mp hstep
    obtain ⟨hfits, rfl⟩ := DiskBudget.reserve_eq_ok.mp hbudget
    cases hwriter
    exact ⟨⟨h.plan_eq, h.budget_eq, hfits.2⟩, rfl, rfl⟩

/-- A step that leaves the writer within the limits is admitted. -/
theorem Measured.exists_budgetStep (step : BudgetStep)
    (haccepted : FinallyAccepted plan (writer.logicalInputBytes + step.source)
      (writer.budget.used + step.stored)) :
    ∃ next, writer.budgetStep step = .ok next := by
  obtain ⟨limit, hlimit, hle⟩ := finallyAccepted_iff.mp haccepted
  have hbound := (limitForMeasuredSource_eq_ok.mp hlimit).1.finalLimit
  cases step with
  | batch inputBytes =>
    change plan.limitForMeasuredSource (writer.logicalInputBytes + inputBytes) = _ at hlimit
    have hfits : writer.logicalInputBytes + inputBytes < u64Limit := by
      change (_ + (_ + inputBytes)) * 2 + _ < _ at hbound
      omega
    show ∃ next, writer.measureBatch inputBytes = .ok next
    unfold measureBatch measuredBudget
    rw [h.plan_eq, checkedAdd, if_pos hfits]
    simp only [hplan, if_true, orExhausted, bind, Except.bind, hlimit]
    exact ⟨_, rfl⟩
  | file bytes =>
    cases h.budget_eq.symm.trans hlimit
    have hlt := (withinLimits_iff.mpr ⟨_, hlimit, Nat.le_refl _⟩).final
    refine ⟨_, bind_eq_ok.mpr ⟨_, DiskBudget.reserve_eq_ok.mpr ⟨⟨?_, hle⟩, rfl⟩, rfl⟩⟩
    change (_ + (writer.logicalInputBytes + 0)) * 2 + _ < _ at hbound
    change _ ≤ (_ + (writer.logicalInputBytes + 0)) * 2 + _ at hlt
    change _ + bytes ≤ _ at hle
    omega

/-- A run is admitted exactly when the final check would accept what has been measured and
charged after each of its steps. -/
theorem Measured.budgetSteps_iff (steps : List BudgetStep) :
    (∃ writer', writer.budgetSteps steps = .ok writer') ↔
      ∀ done, done <+: steps → FinallyAccepted plan
        (writer.logicalInputBytes + (done.map BudgetStep.source).sum)
        (writer.budget.used + (done.map BudgetStep.stored).sum) := by
  induction steps generalizing writer with
  | nil =>
    refine iff_of_true ⟨writer, rfl⟩ fun done hdone => ?_
    rw [List.prefix_nil.mp hdone]
    exact h.finallyAccepted
  | cons step steps ih =>
    constructor
    · rintro ⟨writer', hrun⟩ done hdone
      obtain ⟨next, hnext, hrest⟩ := bind_eq_ok.mp hrun
      obtain ⟨hmeasured, hsource, hstored⟩ := h.budgetStep hplan hnext
      rcases List.prefix_cons_iff.mp hdone with rfl | ⟨rest, rfl, hrest'⟩
      · exact h.finallyAccepted
      · have haccepted := (ih hmeasured).mp ⟨writer', hrest⟩ rest hrest'
        rw [hsource, hstored, Nat.add_assoc, Nat.add_assoc] at haccepted
        exact haccepted
    · intro haccepted
      obtain ⟨next, hnext⟩ := h.exists_budgetStep hplan step (haccepted [step] ⟨steps, rfl⟩)
      obtain ⟨hmeasured, hsource, hstored⟩ := h.budgetStep hplan hnext
      obtain ⟨writer', hrest⟩ := (ih hmeasured).mpr fun done hdone => by
        rw [hsource, hstored, Nat.add_assoc, Nat.add_assoc]
        exact haccepted (step :: done) (List.cons_prefix_cons.mpr ⟨rfl, hdone⟩)
      exact ⟨writer', bind_eq_ok.mpr ⟨next, hnext, hrest⟩⟩

end

end NativeTableWriter

/-- The plan of a new table whose source is measured as it is written. -/
def newTablePlan : NativeWritePlan where
  name := "t"
  expectedGeneration := 0
  tableId := 1
  version := 1
  snapshotId := 2
  parent := none
  operation := .imported
  schema := []
  inheritedSourceBytes := 0
  newSourceBytes := 0
  retainedOldSourceBytes := 0
  retainedOldStorageBytes := 0
  inheritedStorageBytes := 0
  newSnapshotLimit := 49152
  inheritedSegments := []

end RustDb.Native
