import RustDb.Native.Database

/-!
# Snapshot directories on disk

`load` reads the manifest of a snapshot and verifies every file the snapshot
needs, in its own directory and in the directories of its owners.

* `Stored` says what `load` requires of the disk; `readSnapshot_eq_ok` shows that
  it is exactly that.
* `FilesOk.congr` is the frame rule: a segment needs only the data files of its
  owners, so pruning the manifests of other directories does not disturb it.
* `removeSnapshot`, `pruneInheritedManifests` and `recoverOrphans` are the
  programs that delete.
-/

namespace RustDb.Native

open Std RustDb.Lib Faulty List Option Disk ExtTreeMap Program Spec SnapshotDirectory TableManifest

/-- A snapshot directory as `initialization::create` makes it. -/
def SnapshotDirectory.empty : SnapshotDirectory where
  marker := none
  manifest := none
  segments := ∅
  sidecars := ∅
  deleteVectors := ∅

/-- The marker that belongs to a directory. -/
def SnapshotKey.marker (key : SnapshotKey) (databaseId : Uuid) : SnapshotMarker :=
  { databaseId
    tableId := key.tableId
    version := key.location.version
    snapshotId := key.location.snapshotId }

/-- The directory of a snapshot. -/
def SnapshotKey.path (key : SnapshotKey) : Path :=
  .snapshotDirectory key.tableId key.location

/-- The file that says whose directory it is. -/
def SnapshotKey.markerPath (key : SnapshotKey) : Path :=
  .marker key.tableId key.location

/-- The manifest in the directory. -/
def SnapshotKey.manifestPath (key : SnapshotKey) : Path :=
  .manifest key.tableId key.location

/-- The directory that a catalog entry points to. -/
def TableReference.key (reference : TableReference) : SnapshotKey :=
  { tableId := reference.tableId, location := reference.location }

/-- The directory of a table at a location. -/
def TableManifest.keyOf (manifest : TableManifest) (location : SnapshotLocation) :
    SnapshotKey :=
  { tableId := manifest.tableId, location }

/-- The directories a snapshot reads besides its own. -/
def TableManifest.inheritedKeys (manifest : TableManifest) : List SnapshotKey :=
  (manifest.reachableLocations.filter (· ≠ manifest.ownLocation)).map manifest.keyOf

/-- `final_directory`. -/
def TableManifest.key (manifest : TableManifest) : SnapshotKey :=
  manifest.keyOf manifest.ownLocation

/-! ## Reading files -/

namespace Disk

/-- A snapshot directory, as `require_directory` finds it. -/
def directory (disk : Disk) (key : SnapshotKey) : Except Error SnapshotDirectory :=
  match disk.snapshots[key]? with
  | none => .error (.io (some key.path))
  | some directory => .ok directory

/-- The marker of a directory; a missing file is an I/O error. -/
def readMarker (disk : Disk) (key : SnapshotKey) : Except Error SnapshotMarker := do
  let directory ← disk.directory key
  match directory.marker with
  | none => .error (.io (some key.markerPath))
  | some marker => .ok marker

/-- `DeleteVector::read`.  The size and the digest are checked before the file is decoded, the
counts after it. -/
def readDeleteVector (disk : Disk) (tableId segmentId : Uuid)
    (descriptor : DeleteVectorDescriptor) : Except Error DeleteVector := do
  let path : Path := .deleteVector tableId descriptor.owner segmentId
  rejectIf (DeleteVector.maxFileBytes < descriptor.bytes)
    (.nativeStorage path "delete vector exceeds the per-vector size limit")
  let directory ← disk.directory ⟨tableId, descriptor.owner⟩
  match directory.deleteVectors[segmentId]? with
  | none => .error (.io (some path))
  | some file =>
    rejectIf (file.vector.encodedBytes ≠ descriptor.bytes)
      (.nativeStorage path "native delete vector byte size mismatch")
    rejectIf (file.sha256 ≠ descriptor.sha256)
      (.nativeStorage path "native delete vector checksum mismatch")
    rejectIf (file.vector.decodes = false)
      (.nativeStorage path "native delete vector deleted-row count mismatch")
    rejectIf (file.vector.rowCount ≠ descriptor.rowCount ∨
        file.vector.deletedRows ≠ descriptor.deletedRows)
      (.nativeStorage path "native delete vector descriptor mismatch")
    .ok file.vector

/-- One round of `segment_owners`. -/
def verifyOwner (disk : Disk) (databaseId : Uuid) (key : SnapshotKey) :
    Except Error Unit := do
  let marker ← disk.readMarker key
  rejectIf (marker ≠ key.marker databaseId)
    (.nativeStorage key.path "native segment owner marker identity mismatch")

/-- `verify_segment_file`: the data file, the sidecar and the delete vector of a
segment have the sizes, digests and counts of its descriptors. -/
def verifySegmentFile (disk : Disk) (tableId : Uuid) (segment : NativeSegment) :
    Except Error Unit := do
  let path : Path := .segment tableId segment.owner segment.segmentId
  let sidecarPath : Path := .sidecar tableId segment.owner segment.segmentId
  let directory ← disk.directory ⟨tableId, segment.owner⟩
  match directory.segments[segment.segmentId]? with
  | none => .error (.io (some path))
  | some file =>
    rejectIf (file.bytes ≠ segment.bytes)
      (.nativeStorage path "native segment byte size mismatch")
    rejectIf (file.sha256 ≠ segment.sha256)
      (.nativeStorage path "native segment checksum mismatch")
    forM segment.predicateSidecar.toList fun descriptor =>
      match directory.sidecars[segment.segmentId]? with
      | none => .error (.io (some sidecarPath))
      | some sidecar => do
        rejectIf (sidecar.bytes ≠ descriptor.bytes)
          (.nativeStorage sidecarPath "native predicate sidecar byte size mismatch")
        rejectIf (sidecar.sha256 ≠ descriptor.sha256)
          (.nativeStorage sidecarPath "native predicate sidecar checksum mismatch")
    forM segment.deleteVector.toList fun descriptor => do
      let _ ← disk.readDeleteVector tableId segment.segmentId descriptor
      pure ()
    rejectIf (file.rows.length ≠ segment.rows)
      (.nativeStorage path "native segment row count mismatch")
    forM segment.predicateSidecar.toList fun descriptor =>
      rejectIf (file.rowGroups ≠ descriptor.rowGroupCount)
        (.nativeStorage path "native predicate sidecar row-group binding mismatch")

end Disk

/-! ## Loading -/

/-- The versions of manifests that are read. -/
def supportedFormatVersion (version : Nat) : Bool :=
  version = 1 ∨ version = 2 ∨ version = tableFormatVersion

/-- The versions in which a segment may have a predicate sidecar. -/
def supportsPredicateSidecars (version : Nat) : Bool :=
  version = 2 ∨ version = tableFormatVersion

/-- The version in which a segment may have a delete vector. -/
def supportsDeleteVectors (version : Nat) : Bool :=
  version = tableFormatVersion

/-- The snapshot that a manifest describes, before its leases are made and its
storage is measured. -/
def TableManifest.snapshot (manifest : TableManifest) (sha256 : Sha256) :
    TableSnapshot :=
  { manifest with
    physicalRowCount := manifest.rowCount + manifest.deletedRowCount
    storageBytes := 0
    manifestSha256 := sha256
    locationLeases := ∅ }

/-- The part of `load` that checks a manifest against its reference.  A manifest of an older format
may not name files that the format does not have. -/
def TableReference.readManifest (reference : TableReference) (databaseId : Uuid)
    (marker : SnapshotMarker) (file : ManifestFile) :
    Except Error TableSnapshot := do
  let path := reference.key.manifestPath
  let manifest := file.manifest
  rejectIf (file.sha256 ≠ reference.manifestSha256)
    (.nativeStorage path "table manifest checksum mismatch")
  rejectIf (manifest.databaseId ≠ databaseId ∨ manifest.key ≠ reference.key ∨
      marker ≠ manifest.key.marker manifest.databaseId ∨
      supportedFormatVersion manifest.formatVersion = false)
    (.nativeStorage path "table snapshot identity or format mismatch")
  rejectIf (supportsPredicateSidecars manifest.formatVersion = false ∧
      ∃ segment ∈ manifest.segments, segment.predicateSidecar.isSome = true)
    (.nativeStorage path "legacy table manifest declares a predicate sidecar")
  rejectIf (supportsDeleteVectors manifest.formatVersion = false ∧
      ∃ segment ∈ manifest.segments, segment.deleteVector.isSome = true)
    (.nativeStorage path "legacy table manifest declares a delete vector")
  rejectIf (u64Limit ≤ manifest.rowCount + manifest.deletedRowCount)
    (.nativeStorage path "table physical row count overflow")
  let snapshot := manifest.snapshot file.sha256
  verifySnapshot snapshot path
  pure snapshot

/-- The manifest file of a directory. -/
def Disk.readManifestFile (disk : Disk) (key : SnapshotKey) :
    Except Error ManifestFile := do
  let directory ← disk.directory key
  match directory.manifest with
  | none => .error (.io (some key.manifestPath))
  | some file => .ok file

/-- The owners that `segment_owners` visits. -/
def TableManifest.ownerKeys (manifest : TableManifest) : List SnapshotKey :=
  (manifest.segments.flatMap NativeSegment.owners).map manifest.keyOf

/-- What `load` finds in the files. -/
def Disk.readSnapshot (disk : Disk) (databaseId : Uuid)
    (reference : TableReference) : Except Error TableSnapshot := do
  let marker ← disk.readMarker reference.key
  let file ← disk.readManifestFile reference.key
  let snapshot ← reference.readManifest databaseId marker file
  forM snapshot.ownerKeys fun key => disk.verifyOwner databaseId key
  forM snapshot.segments fun segment =>
    disk.verifySegmentFile snapshot.tableId segment
  pure snapshot

/-- The bytes of the data files in a directory. -/
def SnapshotDirectory.bytes (directory : SnapshotDirectory) : Nat :=
  (directory.segments.toList.map fun (_, file) => file.bytes).sum +
    (directory.sidecars.toList.map fun (_, file) => file.bytes).sum +
    (directory.deleteVectors.toList.map fun (_, file) => file.vector.encodedBytes).sum

/-- `directories_storage_bytes` over the directories that exist. -/
def Disk.storageBytes (disk : Disk) (keys : List SnapshotKey) : Nat :=
  (keys.map fun key =>
    (disk.snapshots[key]?.map bytes).getD 0).sum

/-- The size of all directories that a manifest needs. -/
def Disk.snapshotStorageBytes (disk : Disk) (manifest : TableManifest) : Nat :=
  disk.storageBytes (manifest.reachableLocations.map manifest.keyOf)

namespace Table

/-- The reads of `table::load`: the manifest and its marker, the markers of all directories that own
a file, and every file of every segment. -/
def readFiles (reference : TableReference) : Program TableSnapshot := do
  let database ← get
  let databaseId := database.disk.databaseId
  let marker ← inspect reference.key.markerPath
    (·.readMarker reference.key)
  let file ← inspect reference.key.manifestPath
    (·.readManifestFile reference.key)
  let snapshot ← lift (reference.readManifest databaseId marker file)
  forM snapshot.ownerKeys fun key =>
    inspect key.markerPath (·.verifyOwner databaseId key)
  forM snapshot.segments fun segment =>
    inspect (.segment snapshot.tableId segment.owner segment.segmentId)
      (·.verifySegmentFile snapshot.tableId segment)
  touch reference.key.path
  pure snapshot

/-- `table::load`: the snapshot, with new leases and its measured storage. -/
def load (reference : TableReference) : Program TableSnapshot := do
  let snapshot ← readFiles reference
  let allocation ← newAllocation
  let database ← get
  let storageBytes := database.disk.snapshotStorageBytes snapshot.toTableManifest
  pure { snapshot.initializeLocationLeases allocation with storageBytes }

/-- `TableSnapshot::load_delete_vectors`. -/
def loadDeleteVectors (snapshot : TableSnapshot) :
    Program (List (Option DeleteVector)) :=
  snapshot.segments.mapM fun segment =>
    match segment.deleteVector with
    | none => pure none
    | some descriptor => do
      let vector ← inspect
        (.deleteVector snapshot.tableId descriptor.owner segment.segmentId)
        (·.readDeleteVector snapshot.tableId segment.segmentId descriptor)
      pure (some vector)

/-! ## Removal -/

/-- What `remove_snapshot` reports when the directory is gone. -/
inductive SnapshotRemoval where
  | removed
  | removedButUnsynced (error : Error)

/-- `remove_dir_all` on a snapshot directory: the files go first. -/
def removeDirectory (key : SnapshotKey) : Program Unit := do
  write key.path fun disk => { disk with
    snapshots := disk.snapshots.modify key fun _ => .empty }
  write key.path fun disk => { disk with
    snapshots := disk.snapshots.erase key }

/-- A directory is removed if its marker says that it is the one meant; the removal may stay
unsynced. -/
def removeSnapshot (key : SnapshotKey) : Program SnapshotRemoval := do
  let marker ← inspect key.markerPath (·.readMarker key)
  let database ← get
  lift (rejectIf (marker ≠ key.marker database.disk.databaseId)
    (.nativeStorage key.path "snapshot marker identity mismatch during cleanup"))
  removeDirectory key
  let synced ← attempt (touch key.path)
  match synced with
  | .ok () => pure .removed
  | .error error => pure (.removedButUnsynced error)

/-- The directory of a snapshot is removed, and the removal synced. -/
def removeOwnSnapshot (snapshot : TableSnapshot) : Program Unit := do
  let removal ← removeSnapshot snapshot.key
  match removal with
  | .removed => pure ()
  | .removedButUnsynced error => fail error

/-- Removes the manifest of a directory. -/
def removeManifest (key : SnapshotKey) : Program Unit :=
  write key.manifestPath fun disk => { disk with
    snapshots := disk.snapshots.modify key fun directory =>
      { directory with manifest := none } }

/-- Directories that the snapshot only has segments in lose their manifests. -/
def pruneInheritedManifests (snapshot : TableSnapshot) : Program Unit :=
  forM (snapshot.reachableLocations.filter (· ≠ snapshot.ownLocation))
    fun location => do
      touch (snapshot.keyOf location).manifestPath
      let database ← get
      match (database.disk.snapshots[snapshot.keyOf location]?).bind
          manifest with
      | none => pure ()
      | some _ => removeManifest (snapshot.keyOf location)

/-- One round of `recover_table_orphans`. -/
def recoverOrphan (reachable : List SnapshotKey) (key : SnapshotKey) :
    Program Unit := do
  if key ∈ reachable then pure ()
  else
    let database ← get
    let marker ← attempt (inspect key.markerPath (·.readMarker key))
    if marker = .ok (key.marker database.disk.databaseId) then removeDirectory key
    else pure ()

/-- After a restart, directories that no table of the catalog needs are removed. -/
def recoverOrphans (tables : NameMap TableSnapshot) : Program Unit := do
  let reachable := tables.toList.flatMap fun (_, snapshot) =>
    snapshot.reachableLocations.map snapshot.keyOf
  touch (.label "tables")
  let database ← get
  forM database.disk.snapshots.keys (recoverOrphan reachable)
  touch (.label "tables")

end Table

/-! ## What `load` requires -/

section Requirements

variable {disk disk' : Disk} {databaseId tableId segmentId : Uuid} {segment : NativeSegment}
  {reference : TableReference} {key : SnapshotKey}

theorem Disk.directory_eq_ok {directory : SnapshotDirectory} :
    disk.directory key = .ok directory ↔ disk.snapshots[key]? = some directory := by
  unfold Disk.directory
  cases disk.snapshots[key]? <;> simp

/-- The marker file of a directory. -/
def Disk.markerOf (disk : Disk) (key : SnapshotKey) : Option SnapshotMarker :=
  disk.snapshots[key]?.bind marker

/-- The manifest file of a directory. -/
def Disk.manifestOf (disk : Disk) (key : SnapshotKey) : Option ManifestFile :=
  disk.snapshots[key]?.bind manifest

variable {marker : SnapshotMarker}

theorem Disk.readMarker_eq_ok :
    disk.readMarker key = .ok marker ↔ disk.markerOf key = some marker := by
  unfold readMarker markerOf directory
  cases disk.snapshots[key]? with
  | none => simp
  | some directory =>
    cases h : directory.marker <;> simp [h]

variable {file : ManifestFile}

theorem Disk.readManifestFile_eq_ok :
    disk.readManifestFile key = .ok file ↔ disk.manifestOf key = some file := by
  unfold readManifestFile manifestOf directory
  cases disk.snapshots[key]? with
  | none => simp
  | some directory =>
    cases h : directory.manifest <;> simp [h]

theorem Disk.verifyOwner_eq_ok :
    disk.verifyOwner databaseId key = .ok () ↔
      disk.markerOf key = some (key.marker databaseId) := by
  unfold verifyOwner
  simp only [bind_eq_ok, readMarker_eq_ok, rejectIf_eq_ok, ne_eq, not_not]
  constructor
  · rintro ⟨marker, h, rfl⟩
    exact h
  · exact fun h => ⟨_, h, rfl⟩

/-- The file of a delete vector is in place. -/
structure VectorStored (disk : Disk) (tableId segmentId : Uuid)
    (descriptor : DeleteVectorDescriptor) (vector : DeleteVector) : Prop where
  small : descriptor.bytes ≤ DeleteVector.maxFileBytes
  file : ∃ directory, disk.snapshots[(⟨tableId, descriptor.owner⟩ : SnapshotKey)]? =
      some directory ∧
    directory.deleteVectors[segmentId]? = some ⟨vector, descriptor.sha256⟩
  bytes_eq : vector.encodedBytes = descriptor.bytes
  decodes : vector.decodes = true
  rowCount_eq : vector.rowCount = descriptor.rowCount
  deletedRows_eq : vector.deletedRows = descriptor.deletedRows

variable {descriptor : DeleteVectorDescriptor} {vector : DeleteVector}

theorem Disk.readDeleteVector_eq_ok :
    disk.readDeleteVector tableId segmentId descriptor = .ok vector ↔
      VectorStored disk tableId segmentId descriptor vector := by
  unfold readDeleteVector
  simp only [bind_eq_ok, rejectIf_eq_ok, exists_const, Nat.not_lt, directory_eq_ok]
  constructor
  · rintro ⟨hsmall, directory, hdir, h⟩
    cases hfile : directory.deleteVectors[segmentId]? with
    | none => simp [hfile] at h
    | some file =>
      simp only [hfile, bind_eq_ok, rejectIf_eq_ok, exists_const, ne_eq, not_not,
        not_or, Bool.not_eq_false, Except.ok.injEq] at h
      obtain ⟨hbytes, hsha, hdec, ⟨hrows, hdel⟩, rfl⟩ := h
      refine ⟨hsmall, ⟨directory, hdir, ?_⟩, hbytes, hdec, hrows, hdel⟩
      rw [hfile, ← hsha]
  · rintro ⟨hsmall, ⟨directory, hdir, hfile⟩, hbytes, hdec, hrows, hdel⟩
    refine ⟨hsmall, directory, hdir, ?_⟩
    rw [hfile]
    simp [rejectIf, hbytes, hdec, hrows, hdel]

/-- The files of a segment are in place, and `file` is its data. -/
structure SegmentStored (disk : Disk) (tableId : Uuid) (segment : NativeSegment)
    (file : SegmentFile) : Prop where
  data : ∃ directory, disk.snapshots[(⟨tableId, segment.owner⟩ : SnapshotKey)]? =
      some directory ∧
    directory.segments[segment.segmentId]? = some file ∧
    ∀ descriptor ∈ segment.predicateSidecar,
      directory.sidecars[segment.segmentId]? =
        some ⟨descriptor.bytes, descriptor.sha256⟩
  bytes_eq : file.bytes = segment.bytes
  sha_eq : file.sha256 = segment.sha256
  rows_eq : file.rows.length = segment.rows
  rowGroups_eq : ∀ descriptor ∈ segment.predicateSidecar,
    file.rowGroups = descriptor.rowGroupCount
  vector : ∀ descriptor ∈ segment.deleteVector, ∃ vector,
    VectorStored disk tableId segment.segmentId descriptor vector

theorem Disk.verifySegmentFile_eq_ok :
    disk.verifySegmentFile tableId segment = .ok () ↔
      ∃ file, SegmentStored disk tableId segment file := by
  unfold verifySegmentFile
  simp only [bind_eq_ok, directory_eq_ok]
  constructor
  · rintro ⟨directory, hdir, h⟩
    cases hfile : directory.segments[segment.segmentId]? with
    | none => simp [hfile] at h
    | some file =>
      simp only [hfile, bind_eq_ok, rejectIf_eq_ok, exists_const, ne_eq, not_not,
        forM_eq_ok, mem_toList, readDeleteVector_eq_ok] at h
      obtain ⟨hbytes, hsha, hside, hvec, hrows, hgroups⟩ := h
      refine ⟨file, ⟨directory, hdir, hfile, fun descriptor hd => ?_⟩, hbytes, hsha,
        hrows, hgroups, fun descriptor hd => ?_⟩
      · have hs := hside descriptor hd
        cases hfile : directory.sidecars[segment.segmentId]? with
        | none => simp [hfile] at hs
        | some sidecar =>
          simp only [hfile, bind_eq_ok, rejectIf_eq_ok, exists_const, not_not] at hs
          cases sidecar
          simp_all
      · obtain ⟨vector, hv, -⟩ := hvec descriptor hd
        exact ⟨vector, hv⟩
  · rintro ⟨file, ⟨directory, hdir, hfile, hside⟩, hbytes, hsha, hrows, hgroups, hvec⟩
    refine ⟨directory, hdir, ?_⟩
    rw [hfile]
    simp only [bind_eq_ok, rejectIf_eq_ok, exists_const, ne_eq, not_not, forM_eq_ok,
      mem_toList, readDeleteVector_eq_ok]
    refine ⟨hbytes, hsha, fun descriptor hd => ?_, fun descriptor hd => ?_, hrows, hgroups⟩
    · rw [hside descriptor hd]
      simp [rejectIf]
    · obtain ⟨vector, hv⟩ := hvec descriptor hd
      exact ⟨vector, hv, rfl⟩

/-- A manifest that `load` accepts for a reference. -/
structure ManifestOk (databaseId : Uuid) (reference : TableReference)
    (manifest : TableManifest) : Prop where
  databaseId_eq : manifest.databaseId = databaseId
  key_eq : manifest.key = reference.key
  format : supportedFormatVersion manifest.formatVersion = true
  sidecars : supportsPredicateSidecars manifest.formatVersion = false →
    ∀ segment ∈ manifest.segments, segment.predicateSidecar = none
  deleteVectors : supportsDeleteVectors manifest.formatVersion = false →
    ∀ segment ∈ manifest.segments, segment.deleteVector = none
  valid : SnapshotValid (manifest.snapshot reference.manifestSha256)

variable {snapshot : TableSnapshot}

theorem TableReference.readManifest_eq_ok :
    reference.readManifest databaseId marker file = .ok snapshot ↔
      file.sha256 = reference.manifestSha256 ∧
      marker = reference.key.marker databaseId ∧
      ManifestOk databaseId reference file.manifest ∧
      snapshot = file.manifest.snapshot reference.manifestSha256 := by
  unfold readManifest
  simp only [bind_eq_ok, rejectIf_eq_ok, exists_const, ne_eq, not_not, not_or,
    not_and, not_exists, Bool.not_eq_false, verifySnapshot_eq_ok, Nat.not_le,
    Bool.not_eq_true, isSome_eq_false_iff, isNone_iff_eq_none]
  constructor
  · rintro ⟨hsha, ⟨hid, hkey, hmarker, hformat⟩, hside, hvec, -, hvalid, h⟩
    cases h
    rw [hsha] at hvalid ⊢
    exact ⟨rfl, by rw [hmarker, hkey, hid], ⟨hid, hkey, hformat, hside, hvec, hvalid⟩, rfl⟩
  · rintro ⟨hsha, hmarker, ⟨hid, hkey, hformat, hside, hvec, hvalid⟩, rfl⟩
    rw [← hsha] at hvalid ⊢
    refine ⟨rfl, ⟨hid, hkey, by rw [hmarker, hkey, hid], hformat⟩, hside, hvec, ?_, hvalid, rfl⟩
    have hphys := hvalid.totals.physical_lt
    rw [← hvalid.totals.physical_eq] at hphys
    exact hphys

/-- All that a snapshot needs from the disk besides its manifest. -/
structure FilesOk (disk : Disk) (databaseId : Uuid) (manifest : TableManifest) :
    Prop where
  owners : ∀ segment ∈ manifest.segments, ∀ location ∈ segment.owners,
    disk.markerOf (manifest.keyOf location) =
      some ((manifest.keyOf location).marker databaseId)
  segments : ∀ segment ∈ manifest.segments,
    ∃ file, SegmentStored disk manifest.tableId segment file

/-- The disk has the snapshot that `reference` names. -/
structure Stored (disk : Disk) (databaseId : Uuid) (reference : TableReference)
    (manifest : TableManifest) : Prop where
  marker : disk.markerOf reference.key = some (reference.key.marker databaseId)
  manifest_eq : disk.manifestOf reference.key =
    some ⟨manifest, reference.manifestSha256⟩
  accepted : ManifestOk databaseId reference manifest
  files : FilesOk disk databaseId manifest

/-- `load` reads a snapshot exactly when the disk has it. -/
theorem Disk.readSnapshot_eq_ok :
    disk.readSnapshot databaseId reference = .ok snapshot ↔
      ∃ manifest, Stored disk databaseId reference manifest ∧
        snapshot = manifest.snapshot reference.manifestSha256 := by
  unfold readSnapshot
  simp only [bind_eq_ok, exists_const, forM_eq_ok, verifyOwner_eq_ok,
    verifySegmentFile_eq_ok, readMarker_eq_ok, readManifestFile_eq_ok,
    TableReference.readManifest_eq_ok]
  constructor
  · rintro ⟨marker, hmarker, file, hfile, snapshot', ⟨hsha, rfl, hok, rfl⟩, howners, hsegments, h⟩
    cases h
    refine ⟨file.manifest, ⟨hmarker, ?_, hok, fun segment hs location hl => ?_, hsegments⟩, rfl⟩
    · rw [hfile, ← hsha]
    · refine howners _ ?_
      rw [ownerKeys, List.mem_map]
      exact ⟨location, mem_flatMap.mpr ⟨segment, hs, hl⟩, rfl⟩
  · rintro ⟨manifest, ⟨hmarker, hmanifest, hok, ⟨howners, hsegments⟩⟩, rfl⟩
    refine ⟨_, hmarker, _, hmanifest, _, ⟨rfl, rfl, hok, rfl⟩, fun key hkey => ?_, hsegments, rfl⟩
    rw [ownerKeys, List.mem_map] at hkey
    obtain ⟨location, hl, rfl⟩ := hkey
    obtain ⟨segment, hs, hl⟩ := mem_flatMap.mp hl
    exact howners segment hs location hl

/-! ## Frame -/

/-- Two directories with the same files, apart from the manifest. -/
def SnapshotDirectory.SameData (directory directory' : SnapshotDirectory) : Prop :=
  directory' = { directory with manifest := directory'.manifest }

/-- `disk'` still has the directory `key` of `disk`, perhaps without its
manifest. -/
def KeepsData (disk disk' : Disk) (key : SnapshotKey) : Prop :=
  ∀ directory, disk.snapshots[key]? = some directory →
    ∃ directory', disk'.snapshots[key]? = some directory' ∧
      directory.SameData directory'

theorem KeepsData.refl (key : SnapshotKey) : KeepsData disk disk key :=
  fun directory h => ⟨directory, h, rfl⟩

theorem KeepsData.of_eq
    (h : disk'.snapshots[key]? = disk.snapshots[key]?) : KeepsData disk disk' key :=
  fun directory hd => ⟨directory, h.trans hd, rfl⟩

theorem KeepsData.markerOf (h : KeepsData disk disk' key) (hm : disk.markerOf key = some marker) :
    disk'.markerOf key = some marker := by
  rw [Disk.markerOf, bind_eq_some_iff] at hm
  obtain ⟨directory, hd, hm⟩ := hm
  obtain ⟨directory', hd', hsame⟩ := h directory hd
  rw [Disk.markerOf, hd', bind_some, hsame]
  exact hm

theorem VectorStored.congr (h : VectorStored disk tableId segmentId descriptor vector)
    (hkeep : KeepsData disk disk' ⟨tableId, descriptor.owner⟩) :
    VectorStored disk' tableId segmentId descriptor vector := by
  obtain ⟨directory, hd, hfile⟩ := h.file
  obtain ⟨directory', hd', hsame⟩ := hkeep directory hd
  refine { h with file := ⟨directory', hd', ?_⟩ }
  rw [hsame]
  exact hfile

theorem NativeSegment.owner_mem (segment : NativeSegment) :
    segment.owner ∈ segment.owners :=
  mem_cons_self ..

theorem NativeSegment.vector_owner_mem (h : segment.deleteVector = some descriptor) :
    descriptor.owner ∈ segment.owners := by
  rw [owners, h]
  exact mem_cons_of_mem _ (mem_singleton.mpr rfl)

theorem SegmentStored.congr {file : SegmentFile}
    (h : SegmentStored disk tableId segment file)
    (hkeep : ∀ location ∈ segment.owners, KeepsData disk disk' ⟨tableId, location⟩) :
    SegmentStored disk' tableId segment file := by
  obtain ⟨directory, hd, hfile, hside⟩ := h.data
  obtain ⟨directory', hd', hsame⟩ := hkeep _ segment.owner_mem directory hd
  refine { h with data := ⟨directory', hd', ?_, ?_⟩, vector := ?_ }
  · rw [hsame]
    exact hfile
  · rw [hsame]
    exact hside
  · intro descriptor hdesc
    obtain ⟨vector, hv⟩ := h.vector descriptor hdesc
    exact ⟨vector, hv.congr (hkeep _ (NativeSegment.vector_owner_mem hdesc))⟩

variable {manifest : TableManifest}

/-- A snapshot needs the data of its owners only. -/
theorem FilesOk.congr (h : FilesOk disk databaseId manifest)
    (hkeep : ∀ location ∈ manifest.reachableLocations,
      KeepsData disk disk' (manifest.keyOf location)) : FilesOk disk' databaseId manifest := by
  have howner : ∀ segment ∈ manifest.segments, ∀ location ∈ segment.owners,
      KeepsData disk disk' (manifest.keyOf location) := fun segment hs location hl =>
    hkeep location (mem_reachableLocations.mpr (.inr ⟨segment, hs, hl⟩))
  refine ⟨fun segment hs location hl => ?_, fun segment hs => ?_⟩
  · exact (howner segment hs location hl).markerOf (h.owners segment hs location hl)
  · obtain ⟨file, hfile⟩ := h.segments segment hs
    exact ⟨file, hfile.congr (howner segment hs)⟩

theorem Stored.congr (h : Stored disk databaseId reference manifest)
    (hown : disk'.snapshots[reference.key]? = disk.snapshots[reference.key]?)
    (hkeep : ∀ location ∈ manifest.reachableLocations,
      KeepsData disk disk' (manifest.keyOf location)) :
    Stored disk' databaseId reference manifest where
  marker := by
    rw [markerOf, hown]
    exact h.marker
  manifest_eq := by
    rw [manifestOf, hown]
    exact h.manifest_eq
  accepted := h.accepted
  files := h.files.congr hkeep

/-- Only the snapshot directories matter. -/
theorem Stored.of_snapshots_eq (h : Stored disk databaseId reference manifest)
    (heq : disk'.snapshots = disk.snapshots) : Stored disk' databaseId reference manifest :=
  h.congr (by rw [heq]) fun _ _ => .of_eq (by rw [heq])

end Requirements

/-! ## The programs -/

namespace Table

variable {faults : Prop} {s₀ : Database}

theorem reads_readFiles (reference : TableReference) :
    Reads (readFiles reference)
      fun disk => disk.readSnapshot disk.databaseId reference := by
  refine Reads.get_bind (g := fun disk disk' =>
    disk'.readSnapshot disk.databaseId reference) fun s => ?_
  refine Reads.bind (Reads.inspect _ _) fun marker => ?_
  refine Reads.bind (Reads.inspect _ _) fun file => ?_
  refine Reads.bind (Reads.lift _) fun snapshot => ?_
  refine Reads.bind (Reads.forM fun key =>
    Reads.inspect _ _) fun _ => ?_
  refine Reads.bind (Reads.forM fun segment =>
    Reads.inspect _ _) fun _ => ?_
  exact Reads.bind (Reads.touch _) fun _ => Reads.pure _

/-- The snapshot that `load` returns for `reference`. -/
def LoadedAs (s₀ : Database) (reference : TableReference)
    (snapshot : TableSnapshot) : Prop :=
  ∃ manifest, Stored s₀.disk s₀.disk.databaseId reference manifest ∧
    snapshot = { (manifest.snapshot reference.manifestSha256).initializeLocationLeases
      s₀.nextAllocation with
      storageBytes := s₀.disk.snapshotStorageBytes manifest }

/-- `load` succeeds exactly on a stored snapshot, unless a call fails. -/
theorem load_spec (reference : TableReference) :
    Spec faults (· = s₀) (load reference)
      (ends
        (fun snapshot s => s = { s₀ with nextAllocation := s₀.nextAllocation + 1 } ∧
          LoadedAs s₀ reference snapshot)
        fun _ s => s = s₀ ∧ (faults ∨
          ∀ manifest, ¬ Stored s₀.disk s₀.disk.databaseId reference manifest)) := by
  unfold load
  refine andThen (reads_readFiles reference faults s₀) ?_ fun snapshot s₁ ⟨hs₁, hread⟩ => ?_
  · rintro e s ⟨hs, hf | ⟨error, -, herr⟩⟩
    · exact ⟨hs, .inl hf⟩
    · refine ⟨hs, .inr fun manifest hstored => ?_⟩
      have hok := readSnapshot_eq_ok.mpr ⟨manifest, hstored, rfl⟩
      cases hok.symm.trans herr
  · subst hs₁
    obtain ⟨manifest, hstored, rfl⟩ := readSnapshot_eq_ok.mp hread
    refine newAllocation_bind (get_self ?_)
    exact pure fun s hs => ⟨hs, manifest, hstored, rfl⟩

end Table

/-! ### Changes of the snapshot directories -/

/-- The snapshot directories of a disk. -/
abbrev Snapshots := ExtTreeMap SnapshotKey SnapshotDirectory compare

/-- The database with other snapshot directories. -/
def Database.withSnapshots (s : Database) (snapshots : Snapshots) : Database :=
  { s with disk := { s.disk with snapshots } }

/-- Only the directories in `keys` changed. -/
def OnlyAt (keys : List SnapshotKey) (snapshots snapshots' : Snapshots) : Prop :=
  ∀ key, key ∉ keys → snapshots'[key]? = snapshots[key]?

theorem OnlyAt.refl (keys : List SnapshotKey) (snapshots : Snapshots) :
    OnlyAt keys snapshots snapshots :=
  fun _ _ => rfl

variable {snapshots snapshots' : Snapshots}

theorem OnlyAt.trans {keys : List SnapshotKey} {snapshots'' : Snapshots}
    (h : OnlyAt keys snapshots snapshots') (h' : OnlyAt keys snapshots' snapshots'') :
    OnlyAt keys snapshots snapshots'' :=
  fun key hkey => (h' key hkey).trans (h key hkey)

theorem OnlyAt.of_ne {key : SnapshotKey}
    (h : ∀ k, ¬ compare key k = .eq → snapshots'[k]? = snapshots[k]?) :
    OnlyAt [key] snapshots snapshots' := by
  intro k hk
  refine h k fun heq => ?_
  exact hk (mem_singleton.mpr (Std.compare_eq_iff_eq.mp heq).symm)

theorem OnlyAt.erase (key : SnapshotKey) (snapshots : Snapshots) :
    OnlyAt [key] snapshots (snapshots.erase key) :=
  .of_ne fun k hk => by rw [getElem?_erase, if_neg hk]

theorem OnlyAt.modify (key : SnapshotKey) (snapshots : Snapshots)
    (f : SnapshotDirectory → SnapshotDirectory) :
    OnlyAt [key] snapshots (snapshots.modify key f) :=
  .of_ne fun k hk => by rw [ExtTreeMap.getElem?_modify, if_neg hk]

theorem OnlyAt.insert (key : SnapshotKey) (directory : SnapshotDirectory)
    (snapshots : Snapshots) :
    OnlyAt [key] snapshots (snapshots.insert key directory) :=
  .of_ne fun k hk => by rw [ExtTreeMap.getElem?_insert, if_neg hk]

namespace Table

variable {faults : Prop} {s₀ : Database}

/-- The states between which a removal of `key` moves. -/
def Removing (s₀ : Database) (key : SnapshotKey) (s : Database) : Prop :=
  ∃ snapshots, OnlyAt [key] s₀.disk.snapshots snapshots ∧ s = s₀.withSnapshots snapshots

theorem Removing.refl (s : Database) (key : SnapshotKey) : Removing s key s :=
  ⟨_, .refl _ _, rfl⟩

theorem removeDirectory_spec (key : SnapshotKey) :
    Spec faults (· = s₀) (removeDirectory key)
      (outcome (fun _ s => s = s₀.withSnapshots (s₀.disk.snapshots.erase key))
        fun s => faults ∧ Removing s₀ key s) := by
  have hmodify := OnlyAt.modify key s₀.disk.snapshots fun _ => .empty
  have herase : (s₀.disk.snapshots.modify key fun _ => .empty).erase key =
      s₀.disk.snapshots.erase key := by
    refine ext_getElem? fun {k} => ?_
    rw [getElem?_erase, getElem?_erase]
    split
    · rfl
    · rename_i hk
      rw [ExtTreeMap.getElem?_modify, if_neg hk]
  unfold removeDirectory
  refine seq (Q := fun _ s => s = s₀.withSnapshots
    (s₀.disk.snapshots.modify key fun _ => .empty)) (callOutcome ?_ ?_) fun _ => ?_
  · rintro s rfl
    rfl
  · rintro hf s rfl
    exact ⟨⟨hf, .refl s key⟩, hf, _, hmodify, rfl⟩
  · refine callOutcome ?_ ?_
    · rintro s rfl
      show _ = _
      rw [← herase]
      rfl
    · rintro hf s rfl
      exact ⟨⟨hf, _, hmodify, rfl⟩, hf, _, hmodify.trans (.erase _ _), rfl⟩

/-- `remove_snapshot` removes a directory that has its marker. -/
theorem removeSnapshot_spec (key : SnapshotKey) :
    Spec faults (· = s₀) (removeSnapshot key)
      (ends
        (fun removal s => s = s₀.withSnapshots (s₀.disk.snapshots.erase key) ∧
          s₀.disk.markerOf key = some (key.marker s₀.disk.databaseId) ∧
          (faults ∨ removal = .removed))
        fun _ s => Removing s₀ key s ∧ (faults ∨
          s₀.disk.markerOf key ≠ some (key.marker s₀.disk.databaseId))) := by
  unfold removeSnapshot
  refine andThen (Reads.inspect key.markerPath (·.readMarker key) faults s₀) ?_
    fun marker s₁ ⟨hs₁, hmarker⟩ => ?_
  · rintro e s ⟨rfl, hf | ⟨error, -, herr⟩⟩
    · exact ⟨.refl _ _, .inl hf⟩
    · refine ⟨.refl _ _, .inr fun hmarker => ?_⟩
      cases (readMarker_eq_ok.mpr hmarker).symm.trans herr
  · subst hs₁
    rw [readMarker_eq_ok] at hmarker
    refine get_self (check (fun hother s hs => ?_) fun hsame => ?_)
    · refine ⟨hs ▸ .refl _ _, .inr fun hmark => hother ?_⟩
      rw [hmarker] at hmark
      exact some.inj hmark
    · have hmark := not_not.mp hsame ▸ hmarker
      refine seq (weakenOutcome (removeDirectory_spec key) (fun _ _ h => h)
        fun _ _ h => ⟨h.2, .inl h.1⟩) fun _ => ?_
      refine attempt_bind touch_spec ?_ (fun _ => ?_) fun _ => ?_
      · rintro s ⟨hf, rfl⟩
        exact ⟨⟨_, .erase _ _, rfl⟩, .inl hf⟩
      · exact pure fun s hs => ⟨hs, hmark, .inr rfl⟩
      · exact pure fun s hs => ⟨hs.2, hmark, .inl hs.1⟩

theorem removeOwnSnapshot_spec (snapshot : TableSnapshot) :
    Spec faults (· = s₀) (removeOwnSnapshot snapshot)
      (ends
        (fun _ s => s = s₀.withSnapshots (s₀.disk.snapshots.erase snapshot.key))
        fun _ s => Removing s₀ snapshot.key s ∧ (faults ∨
          s₀.disk.markerOf snapshot.key ≠
            some (snapshot.key.marker s₀.disk.databaseId))) := by
  unfold removeOwnSnapshot
  refine seq (removeSnapshot_spec snapshot.key) fun removal => ?_
  cases removal with
  | removed => exact pure fun s hs => hs.1
  | removedButUnsynced error =>
    refine fail fun s ⟨hs, _, hf⟩ => ⟨⟨_, .erase _ _, hs⟩, .inl ?_⟩
    exact hf.resolve_right (by simp)

end Table

end RustDb.Native
