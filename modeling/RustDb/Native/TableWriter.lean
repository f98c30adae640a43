import RustDb.Native.Quiet
import RustDb.Native.WritePlan

/-!
# Writers

A writer owns a staged directory and an active WAL transaction.  It writes
segments and delete vectors, and `finish` turns it into a prepared snapshot with
a manifest.

* `NativeTableWriter` appends segments and rewrites delete vectors,
  `NativeDeleteWriter` only rewrites delete vectors.
* `abortOwnedTransaction` gives the staged directory and the transaction up.
* `Staged` says what a writer changes while it runs: the files of its own staged
  directory.

`Digests` are the SHA-256 functions, which are parameters.  The sizes of
manifests and markers are not part of the model; what depends on them is a check
of the environment.
-/

namespace RustDb.Native

open Std RustDb.Lib Faulty List Staging Program ExtTreeMap Quiet TableSnapshot

/-! ## Ownership of a WAL transaction -/

/-- `ActiveWal::abort`.  After a failure the destructor tries once more. -/
def ActiveWal.abort (transactionId : Uuid) : Program Unit :=
  orDrop (Wal.abort transactionId) (Wal.abort transactionId)

/-- The destructor of an `ActiveWal` that is still armed. -/
def ActiveWal.drop (transactionId : Uuid) : Program Unit := do
  let _ ← attempt (Wal.abort transactionId)
  pure ()

/-- The staged files and the log entry of a transaction are given up; two errors are reported as
one. -/
def abortOwnedTransaction (transactionId : Uuid) : Program Unit := do
  let stagingResult ← attempt (abort transactionId)
  let walResult ← attempt (ActiveWal.abort transactionId)
  match stagingResult, walResult with
  | .ok (), .ok () => pure ()
  | .error error, .ok () | .ok (), .error error => fail error
  | .error _, .error _ => fail (.nativeStorage (.stagedWrite transactionId)
      "staging cleanup failed; WAL abort also failed")

/-- A step of a writer that gives the transaction up when it fails. -/
def orAbortOwned {α : Type} (transactionId : Uuid) (m : Program α) : Program α :=
  orClean m (abortOwnedTransaction transactionId)
    (.nativeStorage (.stagedWrite transactionId) "native staging cleanup failed")

/-! ## Files -/

/-- The bytes that a write may use and has used. -/
structure DiskBudget where
  limit : Nat
  used : Nat
deriving DecidableEq, Repr

/-- `DiskBudget::reserve`, as the error of the file at `path`. -/
def DiskBudget.reserve (budget : DiskBudget) (bytes : Nat) (path : Path) :
    Except Error DiskBudget := do
  rejectIf (u64Limit ≤ budget.used + bytes ∨ budget.limit < budget.used + bytes)
    (.io (some path))
  pure { budget with used := budget.used + bytes }

/-- The SHA-256 digests of the encoded files, as functions of what the files hold. -/
class Digests where
  vector : DeleteVector → Sha256
  manifest : TableManifest → Sha256

section Definitions

variable [Digests]

/-- The descriptor that `DeleteVector::write` returns. -/
def DeleteVector.descriptor (vector : DeleteVector) (ownerVersion : Nat)
    (ownerSnapshotId : Uuid) : DeleteVectorDescriptor where
  ownerVersion
  ownerSnapshotId
  formatVersion := deleteVectorFormatVersion
  rowCount := vector.rowCount
  deletedRows := vector.deletedRows
  bytes := vector.encodedBytes
  sha256 := Digests.vector vector

namespace Staging

/-- Changes the snapshot files of a staged directory. -/
def put (transactionId : Uuid) (f : SnapshotDirectory → SnapshotDirectory)
    (disk : Disk) : Disk :=
  { disk with staging := disk.staging.modify transactionId fun directory =>
      { directory with snapshot := f directory.snapshot } }

/-- The snapshot files of a staged directory. -/
def files (disk : Disk) (transactionId : Uuid) : SnapshotDirectory :=
  (disk.staging[transactionId]?.map StagingDirectory.snapshot).getD .empty

end Staging

/-- `DeleteVector::write`, into a file that must not exist yet. -/
def DeleteVector.write (vector : DeleteVector) (transactionId segmentId : Uuid)
    (plan : NativeWritePlan) (budget : DiskBudget) :
    Program (DeleteVectorDescriptor × DiskBudget) := do
  let path : Path := .stagedWrite transactionId
  let database ← get
  lift (rejectIf (segmentId ∈
      (files database.disk transactionId).deleteVectors) (.io (some path)))
  let budget ← lift (budget.reserve vector.encodedBytes path)
  Program.write path (put transactionId fun directory => { directory with
    deleteVectors := directory.deleteVectors.insert segmentId
      ⟨vector, Digests.vector vector⟩ })
  touch path
  pure (vector.descriptor plan.version plan.snapshotId, budget)

/-- Gives the first segment with an id another delete vector. -/
def setDeleteVector (segmentId : Uuid) (descriptor : DeleteVectorDescriptor) :
    List NativeSegment → List NativeSegment
  | [] => []
  | segment :: rest =>
    if segment.segmentId = segmentId then segment.withDeleteVector descriptor :: rest
    else segment :: setDeleteVector segmentId descriptor rest

/-- The checks of `write_delete_vector` and `write_vector` on the segment. -/
def checkVectorTarget (command : String) (plan : NativeWritePlan) (segmentId : Uuid)
    (vector : DeleteVector) : Except Error Unit :=
  match plan.inheritedSegments.find? (·.segmentId = segmentId) with
  | none => .error (.internal
      s!"native {command} segment '{segmentId}' is absent from its write plan")
  | some segment =>
    let covered := vector.rowCount
    let expected := segment.rows
    rejectIf (covered ≠ expected) (.internal
      s!"native {command} vector for segment '{segmentId}' covers {covered} rows, expected {expected}")

/-- `write_staged_with_budget`: the snapshot with the digest of its manifest. -/
def writeStaged (transactionId : Uuid) (snapshot : TableSnapshot) :
    Program TableSnapshot := do
  let path : Path := .stagedWrite transactionId
  lift (verifySnapshot snapshot path)
  demand (.resourceExhausted
    "native snapshot metadata exceeds its disk budget")
  let manifest := snapshot.toTableManifest
  atomicCreate path
    (fun disk => (files disk transactionId).marker.isSome)
    (put transactionId fun directory => { directory with
      marker := some (manifest.key.marker manifest.databaseId) })
  atomicCreate path
    (fun disk => (files disk transactionId).manifest.isSome)
    (put transactionId fun directory => { directory with
      manifest := some ⟨manifest, Digests.manifest manifest⟩ })
  touch path
  pure { snapshot with manifestSha256 := Digests.manifest manifest }

/-! ## Prepared snapshots -/

/-- `PreparedSnapshot`: a finished write that is not published yet. -/
structure PreparedSnapshot where
  transactionId : Uuid
  snapshot : TableSnapshot
  name : String
deriving DecidableEq

/-- A snapshot that is not going to be published is given up. -/
def PreparedSnapshot.abort (prepared : PreparedSnapshot) : Program Unit :=
  abortOwnedTransaction prepared.transactionId

/-- The common part of the two `begin` functions: the id of the transaction. -/
def beginWrite (plan : NativeWritePlan) : Program Uuid := do
  let transactionId ← begin
  orClean (Wal.begin transactionId plan.expectedGeneration)
    (abort transactionId)
    (.nativeStorage .root "native staging cleanup failed")
  pure transactionId

/-- The common part of the two `finish` functions. -/
def finishWrite (transactionId : Uuid) (plan : NativeWritePlan) (budget : DiskBudget)
    (segments : List NativeSegment) (newSourceBytes : Nat)
    (sourceBytes : Except Error Nat) : Program PreparedSnapshot :=
  orAbortOwned transactionId do
    let sourceBytes ← lift sourceBytes
    let database ← get
    let allocation ← newAllocation
    let snapshot ← lift (new database.disk.databaseId plan.tableId
      plan.version plan.snapshotId plan.parent plan.operation plan.schema sourceBytes
      segments allocation)
    let snapshot ← writeStaged transactionId snapshot
    lift (checkLimits plan newSourceBytes budget.used sourceBytes)
    demand (.resourceExhausted
      "native storage and catalog reserve exceeds the 2x plus metadata allowance limit")
    pure { transactionId, snapshot, name := plan.name }

/-! ## Table writer -/

/-- A statement that writes segments. -/
structure NativeTableWriter where
  transactionId : Uuid
  plan : NativeWritePlan
  newSegments : List NativeSegment
  logicalInputBytes : Nat
  budget : DiskBudget
deriving DecidableEq

/-- The batches of one segment: its data file, and the bytes of its input. -/
structure SegmentInput where
  file : SegmentFile
  inputBytes : Nat
deriving DecidableEq, Repr

namespace NativeTableWriter

/-- A writer that has written nothing yet. -/
def started (transactionId : Uuid) (plan : NativeWritePlan) : NativeTableWriter where
  transactionId
  plan
  newSegments := []
  logicalInputBytes := 0
  budget := { limit := plan.newSnapshotLimit, used := 0 }

/-- The transaction and the staging directory of a write. -/
def begin (plan : NativeWritePlan) : Program NativeTableWriter := do
  let transactionId ← beginWrite plan
  pure (started transactionId plan)

/-- The limit of a write whose source is measured as it is written. -/
def measuredBudget (writer : NativeTableWriter) (logicalInputBytes : Nat) :
    Except Error DiskBudget :=
  if writer.plan.newSourceBytes = 0 then do
    let limit ← writer.plan.limitForMeasuredSource logicalInputBytes
    pure { writer.budget with limit := max writer.budget.limit limit }
  else pure writer.budget

/-- What `write_batch` does to the byte counter and the budget before it writes. -/
def measureBatch (writer : NativeTableWriter) (inputBytes : Nat) :
    Except Error NativeTableWriter := do
  let logicalInputBytes ← orExhausted "native input byte count overflow"
    (checkedAdd writer.logicalInputBytes inputBytes)
  let budget ← writer.measuredBudget logicalInputBytes
  pure { writer with logicalInputBytes, budget }

/-- The descriptor of a segment that the writer has finished. -/
def nativeSegment (writer : NativeTableWriter) (segmentId : Uuid)
    (file : SegmentFile) : NativeSegment where
  segmentId
  ownerVersion := writer.plan.version
  ownerSnapshotId := writer.plan.snapshotId
  formatVersion := segmentFormatVersion
  schemaFingerprint := writer.plan.schema
  rows := file.rows.length
  bytes := file.bytes
  sha256 := file.sha256
  predicateSidecar := none
  deleteVector := none

/-- The calls of `write_batch` that fill one segment, and `finish_current`. -/
def writeSegment (writer : NativeTableWriter) (input : SegmentInput) :
    Program NativeTableWriter := do
  let path : Path := .stagedWrite writer.transactionId
  demand (.invalidArgument
    "native write batch does not match the target column types")
  let writer ← lift (writer.measureBatch input.inputBytes)
  let segmentId ← newUuid
  let budget ← lift (writer.budget.reserve input.file.bytes path)
  write path (put writer.transactionId fun directory => { directory with
    segments := directory.segments.insert segmentId input.file })
  touch path
  pure { writer with
    newSegments := writer.newSegments ++ [writer.nativeSegment segmentId input.file]
    budget }

/-- The rows of an old segment that an `UPDATE` replaces are deleted. -/
def writeDeleteVector (writer : NativeTableWriter) (segmentId : Uuid)
    (vector : DeleteVector) : Program NativeTableWriter := do
  lift (checkVectorTarget "UPDATE" writer.plan segmentId vector)
  let (descriptor, budget) ← vector.write writer.transactionId segmentId writer.plan
    writer.budget
  pure { writer with
    plan := { writer.plan with
      inheritedSegments := setDeleteVector segmentId descriptor
        writer.plan.inheritedSegments }
    budget }

/-- A sequence of calls of `write_delete_vector`. -/
def writeDeleteVectors (writer : NativeTableWriter) :
    List (Uuid × DeleteVector) → Program NativeTableWriter
  | [] => pure writer
  | (segmentId, vector) :: rest => do
    let writer ← writer.writeDeleteVector segmentId vector
    writer.writeDeleteVectors rest

/-- A sequence of segments. -/
def writeSegments (writer : NativeTableWriter) :
    List SegmentInput → Program NativeTableWriter
  | [] => pure writer
  | input :: rest => do
    let writer ← writer.writeSegment input
    writer.writeSegments rest

/-- The manifest of the new snapshot is written and the snapshot is ready to be published. -/
def finish (writer : NativeTableWriter) : Program PreparedSnapshot :=
  let plan := writer.plan
  let measuredSource := if plan.newSourceBytes = 0 then writer.logicalInputBytes
    else plan.newSourceBytes
  finishWrite writer.transactionId plan writer.budget
    (plan.inheritedSegments ++ writer.newSegments) measuredSource
    (orExhausted "native source byte count overflow"
      (checkedAdd plan.inheritedSourceBytes measuredSource))

/-- The write is given up. -/
def abort (writer : NativeTableWriter) : Program Unit :=
  abortOwnedTransaction writer.transactionId

end NativeTableWriter

/-! ## Delete writer -/

/-- A statement that only deletes rows. -/
structure NativeDeleteWriter where
  transactionId : Uuid
  plan : NativeWritePlan
  budget : DiskBudget
  changed : Bool
deriving DecidableEq

namespace NativeDeleteWriter

/-- The transaction and the staging directory of a delete. -/
def begin (plan : NativeWritePlan) : Program NativeDeleteWriter := do
  let transactionId ← beginWrite plan
  pure {
    transactionId
    plan
    budget := { limit := plan.newSnapshotLimit, used := 0 }
    changed := false }

/-- `write_vector`: a vector that deletes nothing is not written. -/
def writeVector (writer : NativeDeleteWriter) (segmentId : Uuid)
    (vector : DeleteVector) : Program NativeDeleteWriter := do
  lift (checkVectorTarget "DELETE" writer.plan segmentId vector)
  if vector.deletedRows = 0 then pure writer
  else
    let (descriptor, budget) ← vector.write writer.transactionId segmentId writer.plan
      writer.budget
    pure { writer with
      plan := { writer.plan with
        inheritedSegments := setDeleteVector segmentId descriptor
          writer.plan.inheritedSegments }
      budget
      changed := true }

/-- A sequence of calls of `write_vector`. -/
def writeVectors (writer : NativeDeleteWriter) :
    List (Uuid × DeleteVector) → Program NativeDeleteWriter
  | [] => pure writer
  | (segmentId, vector) :: rest => do
    let writer ← writer.writeVector segmentId vector
    writer.writeVectors rest

/-- `NativeDeleteWriter::finish`: nothing when no row was deleted. -/
def finish (writer : NativeDeleteWriter) : Program (Option PreparedSnapshot) :=
  if writer.changed = false then do
    abortOwnedTransaction writer.transactionId
    pure none
  else do
    let plan := writer.plan
    let prepared ← finishWrite writer.transactionId plan writer.budget
      plan.inheritedSegments 0 (.ok plan.inheritedSourceBytes)
    pure (some prepared)

end NativeDeleteWriter

end Definitions

/-! ## What a writer changes -/

section Staged

variable {faults : Prop} {s₀ s₁ s : Database} {transactionId : Uuid}

theorem Staging.put_put (f g : SnapshotDirectory → SnapshotDirectory) (disk : Disk) :
    put transactionId g (put transactionId f disk) =
      put transactionId (g ∘ f) disk := by
  have h : (disk.staging.modify transactionId fun directory =>
        { directory with snapshot := f directory.snapshot }).modify transactionId
        (fun directory => { directory with snapshot := g directory.snapshot }) =
      disk.staging.modify transactionId fun directory =>
        { directory with snapshot := g (f directory.snapshot) } := by
    refine ext_getElem? fun {k} => ?_
    simp only [ExtTreeMap.getElem?_modify]
    split
    · rw [if_pos (Std.compare_eq_iff_eq.mpr rfl), Option.map_map]
      rfl
    · rfl
  exact congrArg (fun staging => { disk with staging }) h

theorem Staging.put_id (disk : Disk) : put transactionId id disk = disk := by
  have h : disk.staging.modify transactionId (fun directory =>
      { directory with snapshot := id directory.snapshot }) = disk.staging := by
    refine ext_getElem? fun {k} => ?_
    rw [ExtTreeMap.getElem?_modify]
    split
    · rename_i hk
      rw [Std.compare_eq_iff_eq.mp hk]
      exact Option.map_id'
    · rfl
  exact congrArg (fun staging => { disk with staging }) h

/-- The files of a staged directory after a change. -/
theorem Staging.getElem?_put (f : SnapshotDirectory → SnapshotDirectory) (disk : Disk) :
    (put transactionId f disk).staging[transactionId]? =
      disk.staging[transactionId]?.map fun directory =>
        { directory with snapshot := f directory.snapshot } := by
  show (disk.staging.modify transactionId _)[transactionId]? = _
  rw [ExtTreeMap.getElem?_modify, if_pos (Std.compare_eq_iff_eq.mpr rfl)]

/-- Only the files of the staged directory changed, by `f`, and ids were drawn. -/
def Staged (transactionId : Uuid) (f : SnapshotDirectory → SnapshotDirectory)
    (s₀ s : Database) : Prop :=
  ∃ temporaries nextUuid nextAllocation, s₀.nextUuid ≤ nextUuid ∧
    s₀.nextAllocation ≤ nextAllocation ∧ s = { s₀ with
      disk := (put transactionId f s₀.disk).setTemporaries temporaries
      nextUuid
      nextAllocation }

namespace Staged

variable {f g : SnapshotDirectory → SnapshotDirectory}

theorem of_eq : Staged transactionId id s s :=
  ⟨s.disk.temporaries, s.nextUuid, s.nextAllocation, Nat.le_refl _, Nat.le_refl _, by
    rw [put_id]
    rfl⟩

theorem trans (h : Staged transactionId f s₀ s₁) (h' : Staged transactionId g s₁ s) :
    Staged transactionId (g ∘ f) s₀ s := by
  obtain ⟨_, nextUuid, nextAllocation, hu, ha, rfl⟩ := h
  obtain ⟨temporaries, nextUuid', nextAllocation', hu', ha', rfl⟩ := h'
  refine ⟨temporaries, nextUuid', nextAllocation', Nat.le_trans hu hu', Nat.le_trans ha ha', ?_⟩
  rw [← put_put]
  rfl

theorem of_withFiles (h : s₀.WithFiles (put transactionId f s₀.disk) s) :
    Staged transactionId f s₀ s := by
  obtain ⟨temporaries, rfl⟩ := h
  exact ⟨temporaries, _, _, Nat.le_refl _, Nat.le_refl _, rfl⟩

theorem of_unchanged (h : s₀.WithFiles s₀.disk s) : Staged transactionId id s₀ s :=
  of_withFiles (by rw [put_id]; exact h)

section

variable (h : Staged transactionId f s₀ s)
include h

theorem quiet {keys : List SnapshotKey} : Quiet keys s₀ s := by
  obtain ⟨temporaries, nextUuid, nextAllocation, hu, ha, rfl⟩ := h
  exact { refl keys s₀ with nextUuid_le := hu, nextAllocation_le := ha }

theorem snapshots_eq : s.disk.snapshots = s₀.disk.snapshots := by
  obtain ⟨_, _, _, _, _, rfl⟩ := h
  rfl

theorem staging_eq : s.disk.staging = (put transactionId f s₀.disk).staging := by
  obtain ⟨_, _, _, _, _, rfl⟩ := h
  rfl

theorem files_eq (hdir : transactionId ∈ s₀.disk.staging) :
    files s.disk transactionId = f (files s₀.disk transactionId) := by
  obtain ⟨directory, hd⟩ := mem_iff_exists_getElem?.mp hdir
  unfold files
  rw [h.staging_eq, getElem?_put, hd]
  rfl

theorem mem_staging (hdir : transactionId ∈ s₀.disk.staging) :
    transactionId ∈ s.disk.staging := by
  obtain ⟨directory, hd⟩ := mem_iff_exists_getElem?.mp hdir
  rw [mem_iff_exists_getElem?, h.staging_eq, getElem?_put, hd]
  exact ⟨_, rfl⟩

end

end Staged

/-- The states a writer can leave when a step of it fails. -/
def Unfinished (transactionId : Uuid) (s₀ s : Database) : Prop :=
  ∃ f, Staged transactionId f s₀ s

theorem Unfinished.refl (transactionId : Uuid) (s : Database) :
    Unfinished transactionId s s :=
  ⟨id, .of_eq⟩

theorem Staged.unfinished {f : SnapshotDirectory → SnapshotDirectory}
    (h : Staged transactionId f s₀ s₁) (h' : Unfinished transactionId s₁ s) :
    Unfinished transactionId s₀ s := by
  obtain ⟨g, h'⟩ := h'
  exact ⟨_, h.trans h'⟩

/-- A call that changes a file of the staged directory. -/
theorem Staging.put_spec {path : Path} (f : SnapshotDirectory → SnapshotDirectory) :
    Spec faults (· = s₀) (write path (put transactionId f))
      (outcome (fun _ => Staged transactionId f s₀)
        fun s => faults ∧ Unfinished transactionId s₀ s) := by
  have h : Staged transactionId f s₀ { s₀ with disk := put transactionId f s₀.disk } :=
    .of_withFiles ⟨_, rfl⟩
  refine Spec.callOutcome ?_ ?_
  · rintro s rfl
    exact h
  · rintro hf s rfl
    exact ⟨⟨hf, .refl _ s⟩, hf, f, h⟩

end Staged

/-! ### Delete vectors -/

/-- The budget has room for `bytes` more. -/
def DiskBudget.Fits (budget : DiskBudget) (bytes : Nat) : Prop :=
  budget.used + bytes < u64Limit ∧ budget.used + bytes ≤ budget.limit

theorem DiskBudget.reserve_eq_ok {budget budget' : DiskBudget} {bytes : Nat}
    {path : Path} : budget.reserve bytes path = .ok budget' ↔
      budget.Fits bytes ∧ budget' = { budget with used := budget.used + bytes } := by
  unfold reserve Fits
  simp only [check_bind_eq_ok, rejectIf_eq_ok, not_or, Nat.not_le, Nat.not_lt]
  refine and_congr_right fun _ => ?_
  simp [pure, Except.pure, eq_comm]

section Vectors

variable {faults : Prop} {s₀ : Database} {transactionId segmentId : Uuid}
  {vector : DeleteVector} {plan : NativeWritePlan} {budget : DiskBudget}
  {segments : List NativeSegment} {segment : NativeSegment}

theorem setDeleteVector_segmentId (descriptor : DeleteVectorDescriptor)
    (segments : List NativeSegment) :
    (setDeleteVector segmentId descriptor segments).map NativeSegment.segmentId =
      segments.map NativeSegment.segmentId := by
  induction segments with
  | nil => rfl
  | cons segment rest ih =>
    unfold setDeleteVector
    split
    · rfl
    · rw [map_cons, map_cons, ih]

/-- A segment keeps everything but its delete vector. -/
theorem mem_setDeleteVector_of_mem {descriptor : DeleteVectorDescriptor} (h : segment ∈ segments) :
    ∃ vector, { segment with deleteVector := vector } ∈
      setDeleteVector segmentId descriptor segments := by
  induction segments with
  | nil => cases h
  | cons head rest ih =>
    unfold setDeleteVector
    split
    · rcases mem_cons.mp h with rfl | h
      · exact ⟨some descriptor, mem_cons_self ..⟩
      · exact ⟨segment.deleteVector, mem_cons_of_mem _ h⟩
    · rcases mem_cons.mp h with rfl | h
      · exact ⟨segment.deleteVector, mem_cons_self ..⟩
      · obtain ⟨vector, hv⟩ := ih h
        exact ⟨vector, mem_cons_of_mem _ hv⟩

theorem find?_segmentId_eq_some (hmem : segment ∈ segments)
    (hnodup : (segments.map NativeSegment.segmentId).Nodup) :
    segments.find? (·.segmentId = segment.segmentId) = some segment := by
  induction segments with
  | nil => cases hmem
  | cons head rest ih =>
    rw [map_cons, nodup_cons] at hnodup
    rcases mem_cons.mp hmem with rfl | hmem
    · rw [find?_cons_of_pos (by simp)]
    · rw [find?_cons_of_neg]
      · exact ih hmem hnodup.2
      · intro heq
        rw [decide_eq_true_iff] at heq
        exact hnodup.1 (heq ▸ mem_map_of_mem hmem)

/-- The size of the files of some delete vectors. -/
def vectorBytes (vectors : List (Uuid × DeleteVector)) : Nat :=
  (vectors.map fun entry => entry.2.encodedBytes).sum

/-- The vectors can be written: each belongs to a segment of the plan, no file of
them exists, and there is room for them. -/
structure VectorsFit (disk : Disk) (writer : NativeTableWriter)
    (vectors : List (Uuid × DeleteVector)) : Prop where
  staged : writer.transactionId ∈ disk.staging
  target : ∀ segmentId vector, (segmentId, vector) ∈ vectors →
    ∃ segment ∈ writer.plan.inheritedSegments, segment.segmentId = segmentId ∧
      segment.rows = vector.rowCount
  nodup : (vectors.map Prod.fst).Nodup
  distinct : (writer.plan.inheritedSegments.map NativeSegment.segmentId).Nodup
  free : ∀ segmentId vector, (segmentId, vector) ∈ vectors →
    segmentId ∉ (files disk writer.transactionId).deleteVectors
  fits : writer.budget.Fits (vectorBytes vectors)

variable {vectors : List (Uuid × DeleteVector)} {disk : Disk} {writer : NativeTableWriter}

theorem VectorsFit.checkVectorTarget (command : String)
    (h : VectorsFit disk writer ((segmentId, vector) :: vectors)) :
    checkVectorTarget command writer.plan segmentId vector = .ok () := by
  obtain ⟨segment, hmem, rfl, hrows⟩ := h.target _ _ (mem_cons_self ..)
  unfold RustDb.Native.checkVectorTarget
  rw [find?_segmentId_eq_some hmem h.distinct]
  exact rejectIf_eq_ok.mpr (not_not.mpr hrows.symm)

/-- After the first vector the others can still be written. -/
theorem VectorsFit.fits_head (h : VectorsFit disk writer ((segmentId, vector) :: vectors)) :
    writer.budget.Fits vector.encodedBytes := by
  have hfits := h.fits
  unfold DiskBudget.Fits vectorBytes at hfits
  unfold DiskBudget.Fits
  simp only [map_cons, sum_cons] at hfits
  omega

variable [Digests]

/-- The directory with the file of one more delete vector. -/
def SnapshotDirectory.addVector (segmentId : Uuid) (vector : DeleteVector)
    (directory : SnapshotDirectory) : SnapshotDirectory :=
  { directory with
    deleteVectors := directory.deleteVectors.insert segmentId
      ⟨vector, Digests.vector vector⟩ }

theorem DeleteVector.write_spec :
    Spec faults (· = s₀) (vector.write transactionId segmentId plan budget)
      (ends
        (fun r s => r = (vector.descriptor plan.version plan.snapshotId,
            { budget with used := budget.used + vector.encodedBytes }) ∧
          Staged transactionId (.addVector segmentId vector) s₀ s)
        fun _ s => Unfinished transactionId s₀ s ∧ (faults ∨
          segmentId ∈ (files s₀.disk transactionId).deleteVectors ∨
          ¬ budget.Fits vector.encodedBytes)) := by
  unfold DeleteVector.write
  refine Spec.get_self (Spec.check
    (fun hexists s hs => ⟨hs ▸ .refl _ s, .inr (.inl hexists)⟩) fun _ => ?_)
  refine Spec.lift_bind (fun reserved h => ?_) fun e s h hs => ?_
  · obtain ⟨-, rfl⟩ := DiskBudget.reserve_eq_ok.mp h
    refine Spec.seq (Spec.weakenOutcome (put_spec (.addVector segmentId vector))
      (fun _ _ h => h) fun _ s h => ⟨h.2, .inl h.1⟩) fun _ => ?_
    refine Spec.idle_bind (fun hf _ s h => ⟨⟨_, h⟩, .inl hf⟩) ?_
    exact Spec.pure fun s hs => ⟨rfl, hs⟩
  · refine ⟨hs ▸ .refl _ s, .inr (.inr fun hfits => ?_)⟩
    cases (DiskBudget.reserve_eq_ok.mpr ⟨hfits, rfl⟩).symm.trans h

/-- What the loops over delete vectors do to the segments of the plan. -/
def applyVectors (plan : NativeWritePlan) (vectors : List (Uuid × DeleteVector))
    (segments : List NativeSegment) : List NativeSegment :=
  vectors.foldl (fun segments (segmentId, vector) =>
    setDeleteVector segmentId (vector.descriptor plan.version plan.snapshotId) segments)
    segments

/-- What they do to the staged directory. -/
def SnapshotDirectory.addVectors (vectors : List (Uuid × DeleteVector))
    (directory : SnapshotDirectory) : SnapshotDirectory :=
  vectors.foldl (fun directory (segmentId, vector) =>
    directory.addVector segmentId vector) directory

/-- The writer after it has written the vectors. -/
def NativeTableWriter.withVectors (writer : NativeTableWriter)
    (vectors : List (Uuid × DeleteVector)) : NativeTableWriter :=
  { writer with
    plan := { writer.plan with
      inheritedSegments := applyVectors writer.plan vectors
        writer.plan.inheritedSegments }
    budget := { writer.budget with
      used := writer.budget.used + vectorBytes vectors } }

theorem VectorsFit.tail {s : Database}
    (h : VectorsFit s₀.disk writer ((segmentId, vector) :: vectors))
    (hs : Staged writer.transactionId (.addVector segmentId vector) s₀ s) :
    VectorsFit s.disk (writer.withVectors [(segmentId, vector)]) vectors where
  staged := hs.mem_staging h.staged
  target := by
    intro id v hv
    obtain ⟨segment, hmem, hid, hrows⟩ := h.target id v (mem_cons_of_mem _ hv)
    obtain ⟨vector', hv'⟩ := mem_setDeleteVector_of_mem hmem
    exact ⟨_, hv', hid, hrows⟩
  nodup := by
    have hnodup := h.nodup
    rw [map_cons, nodup_cons] at hnodup
    exact hnodup.2
  distinct := by
    show ((setDeleteVector _ _ _).map NativeSegment.segmentId).Nodup
    rw [setDeleteVector_segmentId]
    exact h.distinct
  free := by
    intro id v hv
    have hnodup := h.nodup
    rw [map_cons, nodup_cons] at hnodup
    have hne : id ≠ segmentId := fun heq =>
      hnodup.1 (mem_map.mpr ⟨(id, v), hv, heq⟩)
    show id ∉ (files s.disk writer.transactionId).deleteVectors
    rw [hs.files_eq h.staged]
    show id ∉ (files s₀.disk writer.transactionId).deleteVectors.insert segmentId _
    rw [mem_insert, Std.compare_eq_iff_eq, not_or]
    exact ⟨fun heq => hne heq.symm, h.free id v (mem_cons_of_mem _ hv)⟩
  fits := by
    have hfits := h.fits
    unfold DiskBudget.Fits vectorBytes at hfits ⊢
    simp only [map_cons, sum_cons] at hfits
    show writer.budget.used + (vector.encodedBytes + 0) + _ < _ ∧
      writer.budget.used + (vector.encodedBytes + 0) + _ ≤ writer.budget.limit
    omega

theorem NativeTableWriter.writeDeleteVectors_spec
    (vectors : List (Uuid × DeleteVector)) (writer : NativeTableWriter) :
    Spec faults (· = s₀) (writer.writeDeleteVectors vectors)
      (ends
        (fun r s => r = writer.withVectors vectors ∧
          Staged writer.transactionId (.addVectors vectors) s₀ s)
        fun _ s => Unfinished writer.transactionId s₀ s ∧ (faults ∨
          ¬ VectorsFit s₀.disk writer vectors)) := by
  induction vectors generalizing writer s₀ with
  | nil => exact Spec.pure fun s hs => ⟨rfl, hs ▸ .of_eq⟩
  | cons head rest ih =>
    obtain ⟨segmentId, vector⟩ := head
    unfold writeDeleteVectors
    refine Spec.andThen (Q := fun r s => r = writer.withVectors [(segmentId, vector)] ∧
      Staged writer.transactionId (.addVector segmentId vector) s₀ s) ?_ (fun _ _ h => h)
      fun r s₁ ⟨hr, hs₁⟩ => ?_
    · unfold writeDeleteVector
      refine Spec.lift_bind (fun _ _ => ?_) fun e s h hs => ?_
      · refine Spec.andThen DeleteVector.write_spec ?_ fun r s₁ ⟨hr, hs₁⟩ => ?_
        · rintro _ s ⟨h, hf | hmem | hfull⟩
          · exact ⟨h, .inl hf⟩
          · exact ⟨h, .inr fun hfit => hfit.free _ _ (mem_cons_self ..) hmem⟩
          · exact ⟨h, .inr fun hfit => hfull hfit.fits_head⟩
        · subst hr
          exact Spec.pure fun s hs => ⟨rfl, hs ▸ hs₁⟩
      · refine ⟨hs ▸ .refl _ s, .inr fun hfit => ?_⟩
        cases (hfit.checkVectorTarget "UPDATE").symm.trans h
    · subst hr
      refine Spec.weakenOutcome (ih (writer.withVectors [(segmentId, vector)])) ?_ ?_
      · rintro r s ⟨rfl, hs⟩
        refine ⟨?_, hs₁.trans hs⟩
        simp only [withVectors, applyVectors, vectorBytes, foldl_cons,
          foldl_nil, map_cons, map_nil, sum_cons, sum_nil]
        congr 2
        omega
      · rintro _ s ⟨hs, hf⟩
        exact ⟨hs₁.unfinished hs, hf.imp_right fun hno hfit => hno (hfit.tail hs₁)⟩

end Vectors

/-! ### Beginning -/

/-- What an append needs besides a transition that the log allows. -/
@[mk_iff] structure Database.Ready (s : Database) : Prop where
  lsn_pos : s.wal.nextLsn ≠ 0
  lsn_free : s.wal.nextLsn ∉ s.disk.wal.records
  fresh : ∀ id ∈ s.wal.transactions, id < s.nextUuid

theorem Wal.nextRecord_valid {s : Database} {transactionId : Uuid} {kind : RecordKind}
    (hlsn : s.wal.nextLsn ≠ 0) (hkind : ∀ e g, kind = .catalogCommit e g →
      checkedAdd e 1 = some g) :
    (nextRecord s transactionId kind).Valid s.disk.databaseId
      (nextRecord s transactionId kind).lsn := by
  unfold Record.Valid Record.validate nextRecord
  simp only [ne_eq, not_true_eq_false, hlsn, or_self, check_bind_eq_ok, rejectIf_eq_ok,
    not_false_eq_true, true_and]
  cases kind with
  | begin _ _ => rfl
  | abort => rfl
  | catalogCommit e g => exact rejectIf_eq_ok.mpr (not_not.mpr (hkind e g rfl))

section Begin

variable {faults : Prop} {s₀ s : Database}

/-- The state in which the new transaction has its staged directory and is about to
be begun. -/
def stagedState (s₀ : Database) : Database :=
  Database.withStaging { s₀ with nextUuid := s₀.nextUuid + 1 }
    (s₀.disk.staging.insert s₀.nextUuid (ready s₀.nextUuid .empty))

/-- A transaction has begun: its staged directory is there, and the log has its
record. -/
def Begun (s₀ : Database) (generation : Nat) (s : Database) : Prop :=
  Wal.Appended (stagedState s₀) (Wal.nextRecord (stagedState s₀) s₀.nextUuid
    (.begin generation .readWrite)) s ∧ s₀.wal.nextLsn + 1 < u64Limit

variable {keys : List SnapshotKey}

theorem Quiet.of_stagedState : Quiet keys s₀ (stagedState s₀) :=
  { refl keys s₀ with nextUuid_le := Nat.le_succ _ }

theorem Quiet.of_drawn (h : Drawn s₀ s) : Quiet keys s₀ s := by
  obtain ⟨hle, heq⟩ := h
  rw [heq]
  exact .of_nextUuid _ hle

variable {generation : Nat}

section

variable (h : Begun s₀ generation s)
include h

theorem Begun.quiet : Quiet keys s₀ s :=
  of_stagedState.trans (.of_appended rfl (fun _ _ h => by cases h) h.1 h.2)

theorem Begun.staging_eq : s.disk.staging = s₀.disk.staging.insert s₀.nextUuid
      (ready s₀.nextUuid .empty) := by
  obtain ⟨⟨-, -, -, _, rfl⟩, -⟩ := h
  rfl

theorem Begun.snapshots_eq : s.disk.snapshots = s₀.disk.snapshots := by
  obtain ⟨⟨-, -, -, _, rfl⟩, -⟩ := h
  rfl

end

variable {plan : NativeWritePlan}

theorem beginWrite_spec :
    Spec faults (· = s₀) (beginWrite plan)
      (ends (fun id s => id = s₀.nextUuid ∧ Begun s₀ plan.expectedGeneration s)
        fun _ s => Quiet [] s₀ s ∧
          (faults ∨ ¬ (s₀.Ready ∧ s₀.wal.nextLsn + 1 < u64Limit))) := by
  unfold beginWrite
  refine Spec.andThen begin_spec ?_ fun id s₁ ⟨hid, hs₁⟩ => ?_
  · rintro _ s ⟨hf, honly⟩
    exact ⟨(of_nextUuid _ (Nat.le_succ _)).trans (.of_only honly), .inl hf⟩
  subst hid
  change s₁ = stagedState s₀ at hs₁
  subst hs₁
  refine Spec.seq (Q := fun _ => Begun s₀ plan.expectedGeneration)
    (orClean_keeps ?_ keeps_stagingAbort) fun _ => ?_
  · have hquiet : (Wal.nextRecord (stagedState s₀) s₀.nextUuid
        (.begin plan.expectedGeneration .readWrite)).IsQuiet := fun _ _ h => by cases h
    by_cases hready : s₀.Ready
    · have hgood : (Wal.nextRecord (stagedState s₀) s₀.nextUuid
          (.begin plan.expectedGeneration .readWrite)).Valid s₀.disk.databaseId
            s₀.wal.nextLsn := Wal.nextRecord_valid hready.lsn_pos fun _ _ h => by cases h
      refine Spec.weakenOutcome (Wal.append_spec_any rfl (.inr ⟨hgood, ?_, ?_⟩)) ?_ ?_
      · have hfresh : s₀.nextUuid ∉ (stagedState s₀).wal.transactions :=
          fun hmem => lt_irrefl _ (hready.fresh _ hmem)
        unfold WalState.Allows WalState.validateTransition
        simp [Wal.nextRecord, notMem_iff_getElem?.mp hfresh]
      · exact hready.lsn_free
      · exact fun _ s h => ⟨h.1, h.2⟩
      · intro e s h
        refine ⟨of_stagedState.trans (.of_notAppended rfl hquiet h), ?_⟩
        rcases h with h | h
        · exact .inl h.1
        · exact .inr fun hroom => h.1 hroom.2
    · -- Without a usable log nothing is promised but quiet work.
      have hany : Spec True (· = stagedState s₀)
          (Wal.begin s₀.nextUuid plan.expectedGeneration) _ :=
        Wal.append_spec_any rfl (.inl trivial)
      refine Spec.weaken (Spec.of_true hany) (fun _ h => h) fun r s h => ?_
      cases r with
      | ok => exact ⟨h.1, h.2⟩
      | error e | crash =>
        exact ⟨of_stagedState.trans (.of_notAppended rfl hquiet h),
          .inr fun hroom => hready hroom.1⟩
  · exact Spec.pure fun s hs => ⟨rfl, hs⟩

theorem NativeTableWriter.begin_spec :
    Spec faults (· = s₀) (NativeTableWriter.begin plan)
      (ends (fun writer s => writer = started s₀.nextUuid plan ∧
          Begun s₀ plan.expectedGeneration s)
        fun _ s => Quiet [] s₀ s ∧
          (faults ∨ ¬ (s₀.Ready ∧ s₀.wal.nextLsn + 1 < u64Limit))) := by
  unfold NativeTableWriter.begin
  refine Spec.seq beginWrite_spec fun id => Spec.pure fun s ⟨hid, hs⟩ => ⟨?_, hs⟩
  rw [hid]

end Begin

/-! ### Finishing -/

section Finish

variable {faults : Prop} {s₀ s : Database} {transactionId : Uuid}

theorem Quiet.keeps_abortOwned {keys : List SnapshotKey} :
    Keeps (Quiet keys s₀) (abortOwnedTransaction transactionId) := by
  unfold abortOwnedTransaction
  refine Keeps.bind (Keeps.attempt keeps_stagingAbort) fun r => ?_
  refine Keeps.bind (Keeps.attempt (keeps_orDrop keeps_abort keeps_abort)) fun r' => ?_
  rcases r with _ | _ <;> rcases r' with _ | _
  · exact Keeps.fail
  · exact Keeps.fail
  · exact Keeps.fail
  · exact Keeps.pure

/-- The staged directory has neither marker nor manifest yet. -/
def Unsealed (disk : Disk) (transactionId : Uuid) : Prop :=
  transactionId ∈ disk.staging ∧
    (files disk transactionId).marker = none ∧
    (files disk transactionId).manifest = none

/-- One atomic creation in the staged directory. -/
theorem Staging.create_file_spec {path : Path} (occupied : SnapshotDirectory → Bool)
    (f : SnapshotDirectory → SnapshotDirectory) :
    Spec faults (· = s₀)
      (atomicCreate path (fun disk => occupied (files disk transactionId))
        (put transactionId f))
      (outcome (fun _ => Staged transactionId f s₀)
        fun s => Unfinished transactionId s₀ s ∧
          (faults ∨ occupied (files s₀.disk transactionId) = true)) := by
  cases hocc : occupied (files s₀.disk transactionId) with
  | false =>
    refine Spec.weakenOutcome (atomicCreate_spec (fun _ _ => rfl) (.inr hocc))
      (fun _ s h => .of_withFiles h.2) ?_
    rintro _ s ⟨hf, disk, rfl | ⟨-, rfl⟩, h⟩
    · exact ⟨⟨id, .of_unchanged h⟩, .inl hf⟩
    · exact ⟨⟨f, .of_withFiles h⟩, .inl hf⟩
  | true =>
    unfold atomicCreate
    exact Spec.get_self (Spec.check (fun _ s hs => ⟨hs ▸ .refl _ _, .inr rfl⟩)
      fun hfree => absurd hocc hfree)

variable [Digests]

/-- The directory with the marker and the manifest of a snapshot. -/
def SnapshotDirectory.addMetadata (manifest : TableManifest)
    (directory : SnapshotDirectory) : SnapshotDirectory :=
  { directory with
    marker := some (manifest.key.marker manifest.databaseId)
    manifest := some ⟨manifest, Digests.manifest manifest⟩ }

theorem writeStaged_spec (snapshot : TableSnapshot) :
    Spec faults (· = s₀) (writeStaged transactionId snapshot)
      (ends
        (fun r s => r = { snapshot with
            manifestSha256 := Digests.manifest snapshot.toTableManifest } ∧
          SnapshotValid snapshot ∧
          Staged transactionId (.addMetadata snapshot.toTableManifest) s₀ s)
        fun _ s => Unfinished transactionId s₀ s ∧ (faults ∨
          ¬ (SnapshotValid snapshot ∧ Unsealed s₀.disk transactionId))) := by
  unfold writeStaged
  refine Spec.lift_bind (fun _ h => ?_) fun e s h hs => ?_
  case refine_2 =>
    refine ⟨hs ▸ .refl _ s, .inr fun hgood => ?_⟩
    cases (verifySnapshot_eq_ok (u := ()).mpr hgood.1).symm.trans h
  have hvalid := verifySnapshot_eq_ok.mp h
  refine Spec.idle_bind (fun hf _ s hs => ⟨hs ▸ .refl _ s, .inl hf⟩) ?_
  refine Spec.andThen (create_file_spec (fun files => files.marker.isSome) _) ?_
    fun _ s₂ hs₂ => ?_
  · rintro _ s ⟨h, hf | hocc⟩
    · exact ⟨h, .inl hf⟩
    · exact ⟨h, .inr fun hgood => by rw [hgood.2.2.1] at hocc; cases hocc⟩
  refine Spec.andThen (create_file_spec (fun files => files.manifest.isSome) _) ?_
    fun _ s₃ hs₃ => ?_
  · rintro _ s ⟨h, hf | hocc⟩
    · exact ⟨hs₂.unfinished h, .inl hf⟩
    · refine ⟨hs₂.unfinished h, .inr fun hgood => ?_⟩
      rw [hs₂.files_eq hgood.2.1] at hocc
      change (files s₀.disk transactionId).manifest.isSome = true at hocc
      rw [hgood.2.2.2] at hocc
      cases hocc
  have hboth : Staged transactionId (.addMetadata snapshot.toTableManifest) s₀ s₃ :=
    hs₂.trans hs₃
  refine Spec.idle_bind (fun hf _ s hs => ⟨⟨_, hs ▸ hboth⟩, .inl hf⟩) ?_
  exact Spec.pure fun s hs => ⟨rfl, hvalid, hs ▸ hboth⟩

/-- The snapshot that a finished write describes. -/
def NativeWritePlan.snapshot (plan : NativeWritePlan) (databaseId : Uuid)
    (sourceBytes : Nat) (segments : List NativeSegment) (allocation : Nat) :
    Except Error TableSnapshot :=
  new databaseId plan.tableId plan.version plan.snapshotId plan.parent
    plan.operation plan.schema sourceBytes segments allocation

theorem finishWrite_spec {plan : NativeWritePlan} {budget : DiskBudget}
    {segments : List NativeSegment} {newSourceBytes : Nat}
    {sourceBytes : Except Error Nat} :
    Spec faults (· = s₀)
      (finishWrite transactionId plan budget segments newSourceBytes sourceBytes)
      (ends
        (fun r s => ∃ bytes snapshot, sourceBytes = .ok bytes ∧
          plan.snapshot s₀.disk.databaseId bytes segments s₀.nextAllocation =
            .ok snapshot ∧
          checkLimits plan newSourceBytes budget.used bytes = .ok () ∧
          r = ⟨transactionId, { snapshot with
            manifestSha256 := Digests.manifest snapshot.toTableManifest }, plan.name⟩ ∧
          Staged transactionId (.addMetadata snapshot.toTableManifest) s₀ s)
        fun _ s => Quiet [] s₀ s ∧ (faults ∨ ¬ (Unsealed s₀.disk transactionId ∧
          ∃ bytes snapshot, sourceBytes = .ok bytes ∧
            plan.snapshot s₀.disk.databaseId bytes segments s₀.nextAllocation =
              .ok snapshot ∧
            checkLimits plan newSourceBytes budget.used bytes = .ok ()))) := by
  unfold finishWrite orAbortOwned
  refine orClean_keeps ?_ keeps_abortOwned
  refine Spec.lift_bind (fun r hr => ?_) fun e s h hs => ?_
  case refine_2 =>
    refine hs ▸ ⟨.refl _ _, .inr ?_⟩
    rintro ⟨-, bytes, snapshot, hbytes, -⟩
    cases hbytes.symm.trans h
  refine Spec.get_self (newAllocation_bind (Spec.of_forall fun s₁ hs₁ => ?_))
  have hdrawn : Staged transactionId id s₀ s₁ := by
    refine ⟨s₀.disk.temporaries, s₀.nextUuid, s₀.nextAllocation + 1, Nat.le_refl _,
      Nat.le_succ _, ?_⟩
    rw [hs₁, put_id]
    rfl
  refine Spec.lift_bind (fun r' hnew => ?_) fun e s h hs => ?_
  case refine_2 =>
    refine hs ▸ ⟨hdrawn.quiet, .inr ?_⟩
    rintro ⟨-, bytes, snapshot, hbytes, hsnapshot, -⟩
    cases hr.symm.trans hbytes
    cases hsnapshot.symm.trans h
  have hsealed : Unsealed s₀.disk transactionId → Unsealed s₁.disk transactionId := by
    rintro ⟨hmem, hmarker, hmanifest⟩
    refine ⟨hdrawn.mem_staging hmem, ?_, ?_⟩
    · rw [hdrawn.files_eq hmem]
      exact hmarker
    · rw [hdrawn.files_eq hmem]
      exact hmanifest
  have hvalid : SnapshotValid r' := by
    obtain ⟨hvalid, rfl⟩ := new_eq_ok.mp hnew
    exact hvalid.of_manifest_eq rfl rfl
  refine Spec.andThen (writeStaged_spec r') ?_ fun result s₂ ⟨hresult, _, hs₂⟩ => ?_
  · rintro _ s ⟨⟨f, h⟩, hf⟩
    refine ⟨(hdrawn.trans h).quiet, hf.imp_right ?_⟩
    exact fun hno hyes => hno ⟨hvalid, hsealed hyes.1⟩
  have hstaged : Staged transactionId (.addMetadata r'.toTableManifest) s₀ s₂ :=
    hdrawn.trans hs₂
  refine Spec.lift_bind (fun _ hlimits => ?_) fun e s h hs => ?_
  case refine_2 =>
    refine hs ▸ ⟨hstaged.quiet, .inr ?_⟩
    rintro ⟨-, bytes, snapshot, hbytes, -, hlimits⟩
    cases hr.symm.trans hbytes
    cases hlimits.symm.trans h
  refine Spec.idle_bind (fun hf _ s hs => hs ▸ ⟨hstaged.quiet, .inl hf⟩) ?_
  refine Spec.pure fun s hs => ⟨r, r', hr, hnew, hlimits, ?_, hs ▸ hstaged⟩
  rw [hresult]

end Finish

end RustDb.Native
