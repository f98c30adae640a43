import RustDb.Native.Rebase

/-!
# Rebased snapshots

What the second half of `rebase::write` leaves on the disk.

* `planOf` and `manifestOf`: the manifest of the rebased snapshot.
* `writeMerged_spec`: the program publishes that manifest in a new directory, with
  the rewritten delete vectors, and changes nothing else that a reader can see.
-/

namespace RustDb.Native

open Std RustDb.Lib Faulty Staging ExtTreeMap Spec TableSnapshot SnapshotDirectory NativeTableWriter

namespace Rebase

variable {faults : Prop} {s₀ s : Database} {name : String} {delta : Nat}
  {base current transaction : TableSnapshot} {merge : Merge} {plan : NativeWritePlan}

/-- The plan of the rebased snapshot. -/
def planOf (s₀ : Database) (name : String) (base current transaction : TableSnapshot)
    (merge : Merge) (delta : Nat) : Except Error NativeWritePlan := do
  let catalog := s₀.state.catalog
  let plan ← transactionPlanFor s₀ name merge.mode catalog.generation (some current)
    catalog.schemas transaction.schema delta
  let inheritedStorageBytes ← rebasedStorageBytes plan base transaction
  pure (rebasedPlan plan merge inheritedStorageBytes (plan.snapshotId + 1))

theorem deltaSourceBytes_eq_ok :
    deltaSourceBytes base transaction = .ok delta ↔
      transaction.sourceBytes = base.sourceBytes + delta := by
  unfold deltaSourceBytes checkedSub
  split_ifs with h
  · simp only [Except.ok.injEq]
    omega
  · simp only [false_iff]
    omega

theorem Merge.mode_cases (merge : Merge) :
    merge.mode = .append ∨ merge.mode = .update ∨ merge.mode = .delete := by
  unfold Merge.mode
  split
  · exact .inl rfl
  · exact .inr (.inl rfl)

/-- The plan of a rebase extends the current snapshot. -/
structure PlannedOn (plan : NativeWritePlan) (current : TableSnapshot) (merge : Merge)
    (snapshotId delta : Nat) : Prop where
  tableId_eq : plan.tableId = current.tableId
  version_eq : plan.version = current.version + 1
  version_lt : current.version + 1 < u64Limit
  snapshotId_eq : plan.snapshotId = snapshotId
  parent_eq : plan.parent = some current.tableReference
  operation_ne : plan.operation ≠ .imported
  schema_eq : plan.schema = current.schema
  inheritedSourceBytes_eq : plan.inheritedSourceBytes = current.sourceBytes
  newSourceBytes_eq : plan.newSourceBytes = delta
  inheritedSegments_eq : plan.inheritedSegments = merge.segments

theorem planOf_plannedOn (h : planOf s₀ name base current transaction merge delta = .ok plan) :
    PlannedOn plan current merge (s₀.nextUuid + 1) delta := by
  simp only [planOf, bind_eq_ok] at h
  obtain ⟨plan', hplan, bytes, -, h⟩ := h
  cases h
  simp only [transactionPlanFor, bind_eq_ok] at hplan
  obtain ⟨-, -, -, -, hplan⟩ := hplan
  have hext := planFor_extends merge.mode_cases hplan
  exact ⟨hext.tableId_eq, hext.version_eq, hext.version_lt,
    congrArg (· + 1) hext.snapshotId_eq, hext.parent_eq, hext.operation_ne,
    hext.schema_eq, hext.inheritedSourceBytes_eq, hext.newSourceBytes_eq, rfl⟩

/-- The bytes that a rebase measures are those that the transaction added. -/
theorem measured_eq :
    (if plan.newSourceBytes = 0 then 0 else plan.newSourceBytes) =
      plan.newSourceBytes := by
  split
  · rename_i h
    exact h.symm
  · rfl

variable [Digests]

/-- The segments of the rebased snapshot. -/
def segmentsOf (plan : NativeWritePlan) (merge : Merge) : List NativeSegment :=
  applyVectors plan merge.vectors plan.inheritedSegments

/-- The budget of the rebased snapshot. -/
def budgetOf (plan : NativeWritePlan) : DiskBudget :=
  { limit := plan.newSnapshotLimit, used := 0 }

/-- The snapshot that a rebase builds from its plan, before it is written. -/
def snapshotOf (databaseId : Uuid) (plan : NativeWritePlan) (merge : Merge)
    (delta : Nat) : TableSnapshot :=
  ofSegments databaseId plan.tableId plan.version plan.snapshotId
    plan.parent plan.operation plan.schema (plan.inheritedSourceBytes + delta)
    (segmentsOf plan merge)

/-- The manifest of the rebased snapshot. -/
def manifestOf (databaseId : Uuid) (plan : NativeWritePlan) (merge : Merge)
    (delta : Nat) : TableManifest :=
  (snapshotOf databaseId plan merge delta).toTableManifest

/-- What the writer of a rebased snapshot checks. -/
structure Built (databaseId : Uuid) (plan : NativeWritePlan) (merge : Merge)
    (delta : Nat) : Prop where
  source : plan.inheritedSourceBytes + delta < u64Limit
  valid : SnapshotValid (snapshotOf databaseId plan merge delta)
  limits : checkLimits plan delta (vectorBytes merge.vectors)
    (plan.inheritedSourceBytes + delta) = .ok ()

/-- What the second half of a rebase computes and checks. -/
structure Computes (s₀ : Database) (name : String)
    (base current transaction : TableSnapshot) (merge : Merge) (delta : Nat)
    (plan : NativeWritePlan) : Prop where
  delta_eq : transaction.sourceBytes = base.sourceBytes + delta
  plan_eq : planOf s₀ name base current transaction merge delta = .ok plan
  built : Built s₀.disk.databaseId plan merge delta

/-- The directory of the rebased snapshot. -/
def directoryOf (merge : Merge) (manifest : TableManifest) : SnapshotDirectory :=
  (empty.addVectors merge.vectors).addMetadata manifest

/-- The disk with the rebased snapshot. -/
def diskWith (disk : Disk) (merge : Merge) (manifest : TableManifest) : Disk :=
  { disk with
    snapshots := disk.snapshots.insert manifest.key (directoryOf merge manifest) }

/-- The reference to a manifest that this code wrote. -/
def referenceOf (manifest : TableManifest) : TableReference :=
  { tableId := manifest.tableId
    version := manifest.version
    snapshotId := manifest.snapshotId
    manifestSha256 := Digests.manifest manifest }

theorem diskWith_manifestOf (disk : Disk) (merge : Merge) (manifest : TableManifest) :
    (diskWith disk merge manifest).manifestOf (referenceOf manifest).key =
      some ⟨manifest, Digests.manifest manifest⟩ := by
  show (disk.snapshots.insert manifest.key (directoryOf merge manifest))[manifest.key]?.bind
    SnapshotDirectory.manifest = _
  rw [getElem?_insert_self]
  rfl

/-- The outcome of a rebase. -/
structure RebasedAs (keys : List SnapshotKey) (s₀ : Database) (merge : Merge)
    (manifest : TableManifest) (published : NativePublishedSnapshot) (s : Database) :
    Prop where
  quiet : Quiet keys s₀ s
  manifest_eq : published.snapshot.toTableManifest = manifest
  free : manifest.key ∉ s₀.disk.snapshots
  snapshots_eq : s.disk.snapshots = (diskWith s₀.disk merge manifest).snapshots
  stored : Stored s.disk s₀.disk.databaseId (referenceOf manifest) manifest

/-- What the second half of a rebase does to a merge it was given. -/
structure Stores (s₀ : Database) (name : String)
    (base current transaction : TableSnapshot) (merge : Merge) (delta : Nat)
    (plan : NativeWritePlan) (published : NativePublishedSnapshot) (s : Database) :
    Prop where
  computes : Computes s₀ name base current transaction merge delta plan
  rebased : RebasedAs [] s₀ merge (manifestOf s₀.disk.databaseId plan merge delta)
    published s

/-- What the writer of a rebased snapshot needs besides. -/
structure Feasible (s₀ : Database) (merge : Merge) (plan : NativeWritePlan)
    (manifest : TableManifest) : Prop where
  ready : s₀.Ready
  room : s₀.wal.nextLsn + 1 < u64Limit
  fits : (budgetOf plan).Fits (vectorBytes merge.vectors)
  target : ∀ id vector, (id, vector) ∈ merge.vectors →
    ∃ segment ∈ plan.inheritedSegments, segment.segmentId = id ∧
      segment.rows = vector.rowCount
  nodup : (merge.vectors.map Prod.fst).Nodup
  distinct : (plan.inheritedSegments.map NativeSegment.segmentId).Nodup
  free : manifest.key ∉ s₀.disk.snapshots
  stored : Stored (diskWith s₀.disk merge manifest) s₀.disk.databaseId
    (referenceOf manifest) manifest

/-- Vectors do not touch the marker and the manifest of a directory. -/
theorem addVectors_unsealed (vectors : List (Uuid × DeleteVector))
    (directory : SnapshotDirectory) :
    (directory.addVectors vectors).marker = directory.marker ∧
      (directory.addVectors vectors).manifest = directory.manifest := by
  induction vectors generalizing directory with
  | nil => exact ⟨rfl, rfl⟩
  | cons entry rest ih => exact ih (directory.addVector entry.1 entry.2)

/-- The writer of a rebased snapshot after its delete vectors. -/
def writerOf (transactionId : Uuid) (plan : NativeWritePlan) (merge : Merge) :
    NativeTableWriter :=
  (started transactionId plan).withVectors merge.vectors

theorem writerOf_finish (transactionId : Uuid) (plan : NativeWritePlan) (merge : Merge) :
    (writerOf transactionId plan merge).finish =
      finishWrite transactionId { plan with inheritedSegments := segmentsOf plan merge }
        { limit := plan.newSnapshotLimit, used := vectorBytes merge.vectors }
        (segmentsOf plan merge) plan.newSourceBytes
        (orExhausted "native source byte count overflow"
          (checkedAdd plan.inheritedSourceBytes plan.newSourceBytes)) := by
  have h : (writerOf transactionId plan merge).finish =
      finishWrite transactionId { plan with inheritedSegments := segmentsOf plan merge }
        { limit := plan.newSnapshotLimit, used := 0 + vectorBytes merge.vectors }
        (segmentsOf plan merge ++ [])
        (if plan.newSourceBytes = 0 then 0 else plan.newSourceBytes)
        (orExhausted "native source byte count overflow" (checkedAdd plan.inheritedSourceBytes
            (if plan.newSourceBytes = 0 then 0 else plan.newSourceBytes))) := rfl
  rw [h, measured_eq, List.append_nil, zero_add]

/-- A prepared rebase. -/
structure PreparedAs (transactionId : Uuid) (manifest : TableManifest)
    (prepared : PreparedSnapshot) : Prop where
  transactionId_eq : prepared.transactionId = transactionId
  manifest_eq : prepared.snapshot.toTableManifest = manifest
  sha_eq : prepared.snapshot.manifestSha256 = Digests.manifest manifest

variable {transactionId : Uuid} {manifest : TableManifest} {prepared : PreparedSnapshot}

theorem PreparedAs.key_eq (h : PreparedAs transactionId manifest prepared) :
    prepared.snapshot.key = manifest.key := by
  rw [h.manifest_eq]

theorem PreparedAs.tableReference_eq (h : PreparedAs transactionId manifest prepared) :
    prepared.snapshot.tableReference = referenceOf manifest := by
  unfold tableReference referenceOf
  rw [h.manifest_eq, h.sha_eq]

section

variable (plan : NativeWritePlan)
  (merge : Merge)
  (hmanifest : manifest = manifestOf s₀.disk.databaseId plan merge plan.newSourceBytes)
include hmanifest

theorem writerOf_finish_spec : Spec faults (· = s₀) (writerOf transactionId plan merge).finish
      (outcome
        (fun r s => Built s₀.disk.databaseId plan merge plan.newSourceBytes ∧
          PreparedAs transactionId manifest r ∧
          Staged transactionId (.addMetadata manifest) s₀ s)
        fun s => Quiet [] s₀ s ∧ (faults ∨ ¬ (Unsealed s₀.disk transactionId ∧
          Built s₀.disk.databaseId plan merge plan.newSourceBytes))) := by
  rw [writerOf_finish]
  refine weakenOutcome finishWrite_spec ?_ ?_
  · rintro r s ⟨bytes, snapshot, hbytes, hsnapshot, hlimits, rfl, hstaged⟩
    rw [orExhausted_eq_ok, checkedAdd_eq_some] at hbytes
    obtain ⟨hsource, rfl⟩ := hbytes
    obtain ⟨hvalid, rfl⟩ := new_eq_ok.mp hsnapshot
    subst hmanifest
    exact ⟨⟨hsource, hvalid, hlimits⟩, ⟨rfl, rfl, rfl⟩, hstaged⟩
  · rintro _ s ⟨hs, hwhy⟩
    refine ⟨hs, hwhy.imp_right fun hno ⟨hsealed, hbuilt⟩ => hno ⟨hsealed, ?_⟩⟩
    exact ⟨_, _, orExhausted_eq_ok.mpr (checkedAdd_eq_some.mpr ⟨hbuilt.source, rfl⟩),
      new_eq_ok.mpr ⟨hbuilt.valid, rfl⟩, hbuilt.limits⟩

theorem storeMerged_spec : Spec faults (· = s₀) (storeMerged plan merge)
      (outcome
        (fun r s => Built s₀.disk.databaseId plan merge plan.newSourceBytes ∧
          RebasedAs [manifest.key] s₀ merge manifest r s)
        fun s => Quiet [manifest.key] s₀ s ∧ (faults ∨
          ¬ (Built s₀.disk.databaseId plan merge plan.newSourceBytes ∧
            Feasible s₀ merge plan manifest))) := by
  unfold storeMerged
  refine andThen begin_spec ?_ fun writer s₁ ⟨hwriter, hbegun⟩ => ?_
  · rintro _ s ⟨hs, hwhy⟩
    refine ⟨hs.of_nil, hwhy.imp_right fun hno hyes => hno ⟨hyes.2.ready, hyes.2.room⟩⟩
  subst hwriter
  obtain ⟨id, hid⟩ : ∃ id, id = s₀.nextUuid := ⟨_, rfl⟩
  rw [← hid]
  have hdir₁ : s₁.disk.staging[id]? = some (ready id .empty) := by
    rw [hbegun.staging_eq, hid, getElem?_insert_self]
  have hmem₁ : id ∈ s₁.disk.staging := mem_iff_exists_getElem?.mpr ⟨_, hdir₁⟩
  have hfiles₁ : files s₁.disk id = .empty := by
    rw [files, hdir₁]
    rfl
  refine andThen (Program.orClean_keeps (weakenOutcome
    (writeDeleteVectors_spec merge.vectors _) (fun _ _ h => h) ?_)
    Quiet.keeps_abortOwned) (fun _ _ h => h) fun writer s₂ ⟨hwriter, hstaged⟩ => ?_
  · rintro _ s ⟨⟨f, hs⟩, hwhy⟩
    refine ⟨hbegun.quiet.trans hs.quiet, hwhy.imp_right fun hno ⟨_, hf⟩ => hno ?_⟩
    refine ⟨hmem₁, hf.target, hf.nodup, hf.distinct, fun segmentId vector _ => ?_, hf.fits⟩
    show segmentId ∉ (files s₁.disk id).deleteVectors
    rw [hfiles₁]
    exact not_mem_empty
  subst hwriter
  change Staged id (.addVectors merge.vectors) s₁ s₂ at hstaged
  have hquiet₂ : Quiet [manifest.key] s₀ s₂ := hbegun.quiet.trans hstaged.quiet
  have hmem₂ : id ∈ s₂.disk.staging := hstaged.mem_staging hmem₁
  have hfiles₂ : files s₂.disk id = empty.addVectors merge.vectors := by
    rw [← hfiles₁]
    exact hstaged.files_eq hmem₁
  have hdb₂ : s₂.disk.databaseId = s₀.disk.databaseId := hquiet₂.databaseId_eq
  rw [← hdb₂] at hmanifest
  refine andThen (writerOf_finish_spec plan merge hmanifest) ?_
    fun prepared s₃ ⟨hbuilt, hprepared, hsealed⟩ => ?_
  · rintro _ s ⟨hs, hwhy⟩
    refine ⟨hquiet₂.trans hs.of_nil, hwhy.imp_right fun hno ⟨hbuilt, _⟩ => hno ?_⟩
    refine ⟨⟨hmem₂, ?_, ?_⟩, hdb₂ ▸ hbuilt⟩
    · rw [hfiles₂]
      exact (addVectors_unsealed _ _).1
    · rw [hfiles₂]
      exact (addVectors_unsealed _ _).2
  rw [hdb₂] at hbuilt
  have hquiet₃ : Quiet [manifest.key] s₀ s₃ := hquiet₂.trans hsealed.quiet
  have hsnapshots₃ : s₃.disk.snapshots = s₀.disk.snapshots := by
    rw [hsealed.snapshots_eq, hstaged.snapshots_eq, hbegun.snapshots_eq]
  have hdir₃ : s₃.disk.staging[id]? = some (ready id (directoryOf merge manifest)) := by
    rw [hsealed.staging_eq, getElem?_put, hstaged.staging_eq, getElem?_put, hdir₁]
    rfl
  have hmoved : (prepared.moved (ready id (directoryOf merge manifest))
      s₃).disk.snapshots = (diskWith s₀.disk merge manifest).snapshots := by
    show s₃.disk.snapshots.insert prepared.snapshot.key _ = _
    rw [hsnapshots₃, hprepared.key_eq]
    rfl
  refine weakenOutcome (publishTransactionWrite_spec prepared) ?_ ?_
  · rintro r s ⟨directory, hpublished⟩
    have hdirectory : directory = ready id (directoryOf merge manifest) := by
      have h := hpublished.staged
      rw [hprepared.transactionId_eq, hdir₃] at h
      exact (Option.some.inj h).symm
    subst hdirectory
    obtain ⟨found, hstored, hsnapshot⟩ := hpublished.loaded
    have hstored : Stored (diskWith s₀.disk merge manifest) s₀.disk.databaseId
        (referenceOf manifest) found := by
      have hdb₃ : (prepared.moved (ready id (directoryOf merge manifest))
        s₃).disk.databaseId = s₀.disk.databaseId := hquiet₃.databaseId_eq
      rw [hdb₃, hprepared.tableReference_eq] at hstored
      exact hstored.of_snapshots_eq hmoved.symm
    obtain rfl : found = manifest := by
      have h := hstored.manifest_eq
      rw [diskWith_manifestOf] at h
      exact (congrArg ManifestFile.manifest (Option.some.inj h)).symm
    have hsnapshots : s.disk.snapshots = (diskWith s₀.disk merge found).snapshots := by
      rw [hpublished.state_eq]
      exact hmoved
    have hfree : found.key ∉ s₀.disk.snapshots := by
      rw [← hsnapshots₃, ← hprepared.key_eq]
      exact hpublished.free
    have hquiet : Quiet [found.key] s₀ s :=
      hquiet₃.trans (hprepared.key_eq ▸ hpublished.quiet)
    exact ⟨hbuilt, hquiet, by rw [hsnapshot]; rfl, hfree, hsnapshots,
      hstored.of_snapshots_eq hsnapshots⟩
  · rintro _ s ⟨hs, hwhy⟩
    rw [hprepared.key_eq] at hs
    refine ⟨hquiet₃.trans hs, hwhy.imp_right fun hno ⟨_, hf⟩ => ?_⟩
    refine hno (ready id (directoryOf merge manifest)) manifest ⟨?_, ?_, ?_, ?_⟩
    · rw [hprepared.key_eq, hsnapshots₃]
      exact hf.free
    · rw [hprepared.transactionId_eq]
      exact hdir₃
    · rw [hprepared.transactionId_eq]
      unfold Staging.Marked
      rw [hdir₃]
      rfl
    · rw [hquiet₃.databaseId_eq, hprepared.tableReference_eq]
      exact hf.stored.of_snapshots_eq hmoved

end

/-- Nothing that a rebase computes can be stored. -/
def Infeasible (s₀ : Database) (name : String) (base current transaction : TableSnapshot)
    (merge : Merge) : Prop :=
  ∀ delta plan, Computes s₀ name base current transaction merge delta plan →
    ¬ Feasible s₀ merge plan (manifestOf s₀.disk.databaseId plan merge delta)

/-- `storeMerged` with a plan from an earlier state, in which fewer ids were drawn. -/
theorem storePlanned_spec {n : Nat} (hdelta : transaction.sourceBytes = base.sourceBytes + delta)
    (hplan : planOf s₀ name base current transaction merge delta = .ok plan)
    (hn : s₀.nextUuid ≤ n) :
    Spec faults (· = { s₀ with nextUuid := n }) (storeMerged plan merge)
      (outcome
        (fun r s => ∃ delta plan,
          Stores s₀ name base current transaction merge delta plan r s)
        fun s => Quiet [] s₀ s ∧
          (faults ∨ Infeasible s₀ name base current transaction merge)) := by
  have hplanned := planOf_plannedOn hplan
  have hnew : s₀.IsNew (manifestOf s₀.disk.databaseId plan merge delta).key := by
    show s₀.nextUuid ≤ plan.snapshotId
    rw [hplanned.snapshotId_eq]
    exact Nat.le_succ _
  have hquiet : ∀ s, Quiet [(manifestOf s₀.disk.databaseId plan merge delta).key]
      { s₀ with nextUuid := n } s → Quiet [] s₀ s := fun s hs =>
    ((Quiet.of_nextUuid n hn).trans hs).of_new fun key hkey =>
      .inr (List.mem_singleton.mp hkey ▸ hnew)
  refine weakenOutcome (storeMerged_spec plan merge
    (congrArg (manifestOf s₀.disk.databaseId plan merge) hplanned.newSourceBytes_eq.symm))
    ?_ ?_
  · rintro r s ⟨hbuilt, hrebased⟩
    rw [hplanned.newSourceBytes_eq] at hbuilt
    exact ⟨delta, plan, ⟨hdelta, hplan, hbuilt⟩, hquiet s hrebased.quiet,
      hrebased.manifest_eq, hrebased.free, hrebased.snapshots_eq, hrebased.stored⟩
  · rintro _ s ⟨hs, hwhy⟩
    refine ⟨hquiet s hs, hwhy.imp_right fun hno delta' plan' hcomputes hfeasible => ?_⟩
    obtain rfl : delta' = delta :=
      add_left_cancel (hcomputes.delta_eq.symm.trans hdelta)
    cases hplan.symm.trans hcomputes.plan_eq
    rw [hplanned.newSourceBytes_eq] at hno
    refine hno ⟨hcomputes.built, ?_⟩
    refine { hfeasible with ready := ?_ }
    exact { hfeasible.ready with
      fresh := fun id hid => Nat.lt_of_lt_of_le (hfeasible.ready.fresh id hid) hn }

theorem writeMerged_spec :
    Spec faults (· = s₀) (writeMerged name base current transaction merge)
      (outcome
        (fun r s => ∃ delta plan,
          Stores s₀ name base current transaction merge delta plan r s)
        fun s => Quiet [] s₀ s ∧
          (faults ∨ Infeasible s₀ name base current transaction merge)) := by
  unfold writeMerged
  refine lift_bind (fun delta hdelta => ?_) fun e s herr hs => ?_
  swap
  · subst hs
    refine ⟨.refl _ _, .inr fun delta _ h => ?_⟩
    cases (deltaSourceBytes_eq_ok.mpr h.delta_eq).symm.trans herr
  rw [deltaSourceBytes_eq_ok] at hdelta
  refine get_self (andThen planTransactionWrite_spec ?_
    fun plan s₂ ⟨hdrawn, hnext, hplan⟩ => ?_)
  · rintro _ s ⟨hs, hwhy⟩
    refine ⟨.of_drawn hs, hwhy.imp_right fun hno delta' plan' h => ?_⟩
    obtain rfl : delta' = delta := add_left_cancel (h.delta_eq.symm.trans hdelta)
    obtain ⟨plan, hplan, -⟩ := bind_eq_ok.mp h.plan_eq
    exact absurd hplan (hno plan)
  refine lift_bind (fun bytes hbytes => ?_) fun e s herr hs => ?_
  swap
  · subst hs
    refine ⟨.of_drawn hdrawn, .inr fun delta' plan' h => ?_⟩
    obtain rfl : delta' = delta := add_left_cancel (h.delta_eq.symm.trans hdelta)
    obtain ⟨plan'', hplan'', h'⟩ := bind_eq_ok.mp h.plan_eq
    cases hplan.symm.trans hplan''
    obtain ⟨bytes, hbytes, -⟩ := bind_eq_ok.mp h'
    cases hbytes.symm.trans herr
  refine Program.newUuid_bind (of_forall fun s₃ hs₃ => ?_)
  rw [hnext]
  obtain ⟨n, hn, rfl⟩ : ∃ n, s₀.nextUuid ≤ n ∧ s₃ = { s₀ with nextUuid := n } := by
    obtain ⟨hle, heq⟩ := hdrawn
    refine ⟨s₂.nextUuid + 1, Nat.le_succ_of_le hle, ?_⟩
    rw [hs₃, heq]
  have hplanOf : planOf s₀ name base current transaction merge delta =
      .ok (rebasedPlan plan merge bytes (plan.snapshotId + 1)) :=
    bind_eq_ok.mpr ⟨plan, hplan, bind_eq_ok.mpr ⟨bytes, hbytes, rfl⟩⟩
  exact storePlanned_spec hdelta hplanOf hn

/-- What `rebase::write` returns and leaves. -/
def Wrote (s₀ : Database) (name : String) (base current transaction : TableSnapshot) :
    Option NativePublishedSnapshot → Database → Prop
  | none, s => s = s₀ ∧ mergeOf s₀.disk base current transaction = .ok none
  | some published, s => ∃ merge,
      mergeOf s₀.disk base current transaction = .ok (some merge) ∧
      ∃ delta plan, Stores s₀ name base current transaction merge delta plan published s

/-- Why `rebase::write` can fail although no call fails. -/
def Fails (s₀ : Database) (name : String) (base current transaction : TableSnapshot) :
    Prop :=
  (∃ e, mergeOf s₀.disk base current transaction = .error e) ∨
    ∃ merge, mergeOf s₀.disk base current transaction = .ok (some merge) ∧
      Infeasible s₀ name base current transaction merge

theorem write_spec :
    Spec faults (· = s₀) (write name base current transaction)
      (outcome (Wrote s₀ name base current transaction)
        fun s => Quiet [] s₀ s ∧ (faults ∨ Fails s₀ name base current transaction)) := by
  unfold write
  refine andThen (reads_readMerge base current transaction faults s₀) ?_
    fun merge s₁ ⟨hs₁, hmerge⟩ => ?_
  · rintro _ s ⟨rfl, hf | ⟨e, -, herr⟩⟩
    · exact ⟨.refl _ s, .inl hf⟩
    · exact ⟨.refl _ s, .inr (.inl ⟨e, herr⟩)⟩
  subst hs₁
  cases merge with
  | none => exact pure fun s hs => ⟨hs, hmerge⟩
  | some merge =>
    refine seq (weakenOutcome writeMerged_spec (fun _ _ h => h) ?_) fun published => ?_
    · rintro _ s ⟨hs, hwhy⟩
      exact ⟨hs, hwhy.imp_right fun hno => .inr ⟨merge, hmerge, hno⟩⟩
    · exact pure fun s hs => ⟨merge, hmerge, hs⟩

end Rebase

end RustDb.Native
