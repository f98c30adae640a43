import RustDb.Native.TableWriter

/-!
# Publishing the writes of a transaction

A transaction publishes each of its writes as soon as it is prepared: the staged
directory moves to its place and the snapshot is loaded, but the catalog does not
name it before the transaction commits.

* `publish` and `abort` are the two ends of such a write.
* `PublishedAs` is the state after a publication; `publish_spec` also says that it
  fails only by a fault or when `load` rejects what was written.
-/

namespace RustDb.Native

open Std RustDb.Lib Faulty Program Spec ActiveWal

/-- A snapshot that is in its place but not in the catalog yet. -/
structure NativePublishedSnapshot where
  snapshot : TableSnapshot
  name : String
  transactionId : Uuid
deriving DecidableEq

/-- The checks of `quota.rs` against the configured limits, which depend on the
sizes of all files. -/
def checkQuota : Program Unit := do
  touch (.label "storage usage")
  demand (.nativeDiskQuotaExceeded none)

/-- `cleanup_published` and `abort_published`: removes the directory and aborts the
transaction, then reports `error`. -/
def cleanupPublished {α : Type} (snapshot : TableSnapshot) (transactionId : Uuid)
    (error : Error) : Program α := do
  let snapshotCleanup ← attempt (Table.removeOwnSnapshot snapshot)
  let walCleanup ← attempt (abort transactionId)
  match snapshotCleanup, walCleanup with
  | .ok (), .ok () => fail error
  | _, _ => fail (.nativeStorage .root "published snapshot cleanup failed")

/-- A step after the publication that cleans up when it fails. -/
def orCleanupPublished {α : Type} (snapshot : TableSnapshot) (transactionId : Uuid)
    (m : Program α) : Program α := do
  let result ← attempt m
  match result with
  | .ok a => pure a
  | .error error => cleanupPublished snapshot transactionId error

/-- `disk_budget::snapshot_storage_bytes`. -/
def measureSnapshot (snapshot : TableSnapshot) : Program Nat := do
  touch snapshot.key.path
  let database ← get
  pure (database.disk.snapshotStorageBytes snapshot.toTableManifest)

/-- `transaction_commit::publish`. -/
def publish (prepared : PreparedSnapshot) : Program NativePublishedSnapshot := do
  let snapshot := prepared.snapshot
  orDrop (Staging.publish prepared.transactionId snapshot.key)
    (drop prepared.transactionId)
  let loaded ← orCleanupPublished snapshot prepared.transactionId
    (Table.load snapshot.tableReference)
  let storageBytes ← orCleanupPublished snapshot prepared.transactionId
    (measureSnapshot loaded)
  pure {
    snapshot := { loaded with storageBytes }
    name := prepared.name
    transactionId := prepared.transactionId }

/-- The quota is checked and the snapshot moved to its place. -/
def publishTransactionWrite (prepared : PreparedSnapshot) :
    Program NativePublishedSnapshot := do
  orClean checkQuota prepared.abort
    (.nativeStorage .root "quota rejection cleanup failed")
  publish prepared

/-- The failures of a cleanup, of which the first is kept in words. -/
def appendFailure (failure : Option Error) (error : Error) : Option Error :=
  match failure with
  | some _ => some (.nativeStorage (.label "native transaction")
      "additional cleanup failure")
  | none => some error

/-- One step of a cleanup that goes on after a failure. -/
def noteFailure (failure : Option Error) (m : Program Unit) :
    Program (Option Error) := do
  let result ← attempt m
  match result with
  | .ok () => pure failure
  | .error error => pure (appendFailure failure error)

/-- Reports the failures of a cleanup. -/
def reportFailure (failure : Option Error) : Program Unit :=
  match failure with
  | some error => fail error
  | none => pure ()

/-- A published snapshot that the catalog did not take is removed; every step is tried. -/
def removeAndAbort (write : NativePublishedSnapshot) : Program Unit := do
  let failure ← noteFailure none (Table.removeOwnSnapshot write.snapshot)
  let failure ← noteFailure failure (abort write.transactionId)
  reportFailure failure

/-- The loop of `transaction_commit::abort`, over the writes from the last to the
first. -/
def abortWritesFrom (failure : Option Error) :
    List NativePublishedSnapshot → Program Unit
  | [] => reportFailure failure
  | write :: rest => do
    let failure ← noteFailure failure (removeAndAbort write)
    abortWritesFrom failure rest

/-- `transaction_commit::abort`. -/
def abortWrites (writes : List NativePublishedSnapshot) : Program Unit :=
  abortWritesFrom none writes.reverse

/-! ## Specifications -/

variable {faults : Prop} {s₀ s : Database}

theorem checkQuota_spec :
    Spec faults (· = s₀) checkQuota
      (outcome (fun _ s => s = s₀) fun s => faults ∧ s = s₀) := by
  unfold checkQuota
  refine seq touch_spec fun _ => ?_
  exact callOutcome (fun _ h => h) fun hf s h => ⟨⟨hf, h⟩, hf, h⟩

namespace Quiet

variable {keys : List SnapshotKey} {transactionId : Uuid}

theorem keeps_activeWalAbort : Keeps (Quiet keys s₀) (abort transactionId) :=
  keeps_orDrop keeps_abort keeps_abort

theorem keeps_activeWalDrop : Keeps (Quiet keys s₀) (drop transactionId) :=
  Keeps.bind (Keeps.attempt keeps_abort) fun _ => Keeps.pure

/-- The cleanup ends with an error, and it touches the own directory only. -/
theorem cleanupPublished_spec {α : Type} {snapshot : TableSnapshot} {error : Error}
    {C : Prop} {Q : α → Database → Prop} (hkey : snapshot.key ∈ keys) :
    Spec faults (fun s => Quiet keys s₀ s ∧ C)
      (cleanupPublished snapshot transactionId error)
      (outcome Q fun s => Quiet keys s₀ s ∧ C) := by
  unfold cleanupPublished
  refine seq (Keeps.attempt (keeps_removeOwnSnapshot hkey)).outcome fun r => ?_
  refine seq (Keeps.attempt keeps_activeWalAbort).outcome fun r' => ?_
  rcases r with _ | _ <;> rcases r' with _ | _ <;> exact fail fun _ h => h

end Quiet

variable {keys : List SnapshotKey}

/-- A step that cleans up after a publication ends quietly when it fails. -/
theorem orCleanupPublished_spec {α : Type} {snapshot : TableSnapshot} {transactionId : Uuid}
    {m : Program α} {P : Database → Prop} {Q : α → Database → Prop} {C : Prop}
    (hkey : snapshot.key ∈ keys) (hm : Spec faults P m (outcome Q fun s => Quiet keys s₀ s ∧ C)) :
    Spec faults P (orCleanupPublished snapshot transactionId m)
      (outcome Q fun s => Quiet keys s₀ s ∧ C) :=
  attempt_bind hm (fun _ h => h) (fun _ => pure fun _ h => h)
    fun _ => Quiet.cleanupPublished_spec hkey

/-- The state after the directory of a prepared write has moved to its place. -/
def PreparedSnapshot.moved (prepared : PreparedSnapshot) (directory : StagingDirectory)
    (s₀ : Database) : Database :=
  Staging.published s₀ prepared.transactionId prepared.snapshot.key directory.snapshot

/-- The outcome of a publication. -/
structure PublishedAs (s₀ : Database) (prepared : PreparedSnapshot)
    (directory : StagingDirectory) (published : NativePublishedSnapshot)
    (s : Database) : Prop where
  name_eq : published.name = prepared.name
  transactionId_eq : published.transactionId = prepared.transactionId
  free : prepared.snapshot.key ∉ s₀.disk.snapshots
  staged : s₀.disk.staging[prepared.transactionId]? = some directory
  state_eq : s = { prepared.moved directory s₀ with
    nextAllocation := s₀.nextAllocation + 1 }
  loaded : Table.LoadedAs (prepared.moved directory s₀)
    prepared.snapshot.tableReference published.snapshot

/-- What `publish` needs: a free place, the marker of the transaction, and files that
`load` accepts. -/
structure Movable (s₀ : Database) (prepared : PreparedSnapshot)
    (directory : StagingDirectory) (manifest : TableManifest) : Prop where
  free : prepared.snapshot.key ∉ s₀.disk.snapshots
  staged : s₀.disk.staging[prepared.transactionId]? = some directory
  marked : Staging.Marked s₀ prepared.transactionId
  stored : Stored (prepared.moved directory s₀).disk s₀.disk.databaseId
    prepared.snapshot.tableReference manifest

variable {prepared : PreparedSnapshot} {directory : StagingDirectory}

theorem Quiet.of_moved (hfree : prepared.snapshot.key ∉ s₀.disk.snapshots)
    (hkey : prepared.snapshot.key ∈ keys) : Quiet keys s₀ (prepared.moved directory s₀) :=
  .of_publishing ⟨s₀.disk.staging.erase prepared.transactionId, _,
    .insert _ directory.snapshot _, fun h => absurd h hfree, rfl⟩ (.inl hkey)

theorem PublishedAs.quiet {published : NativePublishedSnapshot}
    (h : PublishedAs s₀ prepared directory published s) : Quiet [prepared.snapshot.key] s₀ s := by
  rw [h.state_eq]
  exact (Quiet.of_moved h.free (List.mem_singleton_self _)).trans
    (.of_nextAllocation _ (Nat.le_succ _))

theorem publish_spec (prepared : PreparedSnapshot) :
    Spec faults (· = s₀) (publish prepared)
      (outcome (fun r s => ∃ directory, PublishedAs s₀ prepared directory r s)
        fun s => Quiet [prepared.snapshot.key] s₀ s ∧ (faults ∨
          ∀ directory manifest, ¬ Movable s₀ prepared directory manifest)) := by
  have hkey : prepared.snapshot.key ∈ [prepared.snapshot.key] := List.mem_singleton_self _
  unfold publish
  refine andThen (orDrop_keeps (weakenOutcome
    (Staging.publish_spec prepared.snapshot.key) (fun _ _ h => h) ?_)
    Quiet.keeps_activeWalDrop) (fun _ _ h => h) fun _ s₁ ⟨hfree, directory, hdir, hs₁⟩ => ?_
  · rintro _ s ⟨hs, hwhy⟩
    refine ⟨.of_publishing hs (.inl hkey), ?_⟩
    rcases hwhy with hf | hmem | hmark
    · exact .inl hf
    · exact .inr fun _ _ h => h.free hmem
    · exact .inr fun _ _ h => hmark h.marked
  have hquiet : Quiet [prepared.snapshot.key] s₀ s₁ := hs₁ ▸ Quiet.of_moved hfree hkey
  refine andThen (orCleanupPublished_spec hkey (weakenOutcome
    (Table.load_spec prepared.snapshot.tableReference) (fun _ _ h => h) ?_))
    (fun _ _ h => h) fun loaded s₂ ⟨hs₂, hloaded⟩ => ?_
  · rintro _ s ⟨rfl, hf | hno⟩
    · exact ⟨hquiet, .inl hf⟩
    · refine ⟨hquiet, .inr fun directory' manifest h => ?_⟩
      cases hdir.symm.trans h.staged
      exact hno manifest (hs₁ ▸ h.stored)
  refine seq (Q := fun r s => s = s₂ ∧ r = s₁.disk.snapshotStorageBytes loaded.toTableManifest)
    (orCleanupPublished_spec hkey ?_) fun storageBytes => ?_
  · unfold measureSnapshot
    have hquiet₂ := hs₂ ▸ hquiet.trans (.of_nextAllocation _ (Nat.le_succ _))
    refine idle_bind (fun hf _ s hs => ⟨hs ▸ hquiet₂, .inl hf⟩) (get_self ?_)
    exact pure fun s hs => ⟨hs, by rw [hs₂]⟩
  · refine pure fun s ⟨hs, hbytes⟩ => ⟨directory, rfl, rfl, hfree, hdir, ?_, ?_⟩
    · rw [hs, hs₂, hs₁]
      rfl
    · rw [hs₁] at hloaded hbytes
      obtain ⟨manifest, hstored, hl⟩ := hloaded
      refine ⟨manifest, hstored, ?_⟩
      rw [hbytes, hl]
      rfl

theorem publishTransactionWrite_spec (prepared : PreparedSnapshot) :
    Spec faults (· = s₀) (publishTransactionWrite prepared)
      (outcome (fun r s => ∃ directory, PublishedAs s₀ prepared directory r s)
        fun s => Quiet [prepared.snapshot.key] s₀ s ∧ (faults ∨
          ∀ directory manifest, ¬ Movable s₀ prepared directory manifest)) := by
  unfold publishTransactionWrite
  refine seq (orClean_keeps (weakenOutcome checkQuota_spec
    (fun _ _ h => h) ?_) Quiet.keeps_abortOwned) fun _ => publish_spec prepared
  rintro _ s ⟨hf, rfl⟩
  exact ⟨.refl _ s, .inl hf⟩

end RustDb.Native
