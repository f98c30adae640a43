import RustDb.Native.DeleteVector

/-!
# Table snapshots

A snapshot of a table is a list of segments, each with an optional delete
vector.  Segments and delete vectors live in the directory of the snapshot that
wrote them, their owner, so a snapshot reaches the directories of older
versions.

* `TableManifest` is what the code stores, `TableSnapshot` what it keeps in
  memory.
* `reachableLocations` are the directories a snapshot reads, and
  `locationLeases` the reference counts that keep them alive.
* `verifySnapshot` is the check every snapshot passes when it is built and when
  it is loaded.
-/

namespace RustDb.Native

open Std RustDb.Lib List

/-- The statement that has made a snapshot. -/
inductive SnapshotOperation where
  | imported
  | append
  | replace
  | delete
  | update
  | truncate
deriving DecidableEq, Repr

/-- What a manifest states about the predicate sidecar of a segment. -/
structure PredicateSidecarDescriptor where
  formatVersion : Nat
  bytes : Nat
  sha256 : Sha256
  rowCount : Nat
  rowGroupCount : Nat
  indexedColumnOrdinals : List Nat
deriving DecidableEq, Repr

/-- What a manifest states about a delete vector: who owns its file, how many rows it deletes, its
size and digest. -/
structure DeleteVectorDescriptor where
  ownerVersion : Nat
  ownerSnapshotId : Uuid
  formatVersion : Nat
  rowCount : Nat
  deletedRows : Nat
  bytes : Nat
  sha256 : Sha256
deriving DecidableEq, Repr

/-- The directory that holds the file of a delete vector. -/
def DeleteVectorDescriptor.owner (vector : DeleteVectorDescriptor) :
    SnapshotLocation :=
  { version := vector.ownerVersion, snapshotId := vector.ownerSnapshotId }

/-- What a manifest states about a segment: who owns its file, its rows, size and digest, and the
files beside it. -/
structure NativeSegment where
  segmentId : Uuid
  ownerVersion : Nat
  ownerSnapshotId : Uuid
  formatVersion : Nat
  schemaFingerprint : Schema
  rows : Nat
  bytes : Nat
  sha256 : Sha256
  predicateSidecar : Option PredicateSidecarDescriptor
  deleteVector : Option DeleteVectorDescriptor
deriving DecidableEq, Repr

/-- The directory that holds the data file of a segment. -/
def NativeSegment.owner (segment : NativeSegment) : SnapshotLocation :=
  { version := segment.ownerVersion, snapshotId := segment.ownerSnapshotId }

/-- The directories that hold files of a segment. -/
def NativeSegment.owners (segment : NativeSegment) : List SnapshotLocation :=
  segment.owner :: segment.deleteVector.toList.map DeleteVectorDescriptor.owner

/-- The segment with other rows deleted; its data file stays as it is. -/
def NativeSegment.withDeleteVector (segment : NativeSegment)
    (descriptor : DeleteVectorDescriptor) : NativeSegment :=
  { segment with deleteVector := some descriptor }

/-- A table manifest, the durable form of a snapshot. -/
structure TableManifest where
  databaseId : Uuid
  formatVersion : Nat
  tableId : Uuid
  version : Nat
  snapshotId : Uuid
  parent : Option TableReference
  operation : SnapshotOperation
  schema : Schema
  sourceBytes : Nat
  rowCount : Nat
  deletedRowCount : Nat
  segmentBytes : Nat
  deleteVectorBytes : Nat
  segments : List NativeSegment
deriving DecidableEq, Repr

/-- A snapshot in memory.  A lease `Arc<()>` is identified by the location it
stands for and the number of the allocation that made it. -/
structure TableSnapshot extends TableManifest where
  physicalRowCount : Nat
  storageBytes : Nat
  manifestSha256 : Sha256
  locationLeases : ExtTreeMap SnapshotLocation Nat compare
deriving DecidableEq

/-- The table manifest format this code writes. -/
def tableFormatVersion : Nat := 3

/-- The version of delete vectors that is read and written. -/
def deleteVectorFormatVersion : Nat := 1

/-- The version of predicate sidecars that is read and written. -/
def sidecarFormatVersion : Nat := 1

/-- The version of segments that is read and written. -/
def segmentFormatVersion : Nat := 1

/-! ## Locations and leases -/

/-- The directory that the manifest itself is in. -/
def TableManifest.ownLocation (manifest : TableManifest) : SnapshotLocation :=
  { version := manifest.version, snapshotId := manifest.snapshotId }

/-- `reachable_locations` as a set: the directory of the snapshot itself and the
owners of its segments and delete vectors. -/
def TableManifest.locations (manifest : TableManifest) :
    ExtTreeSet SnapshotLocation compare :=
  ExtTreeSet.ofList
    (manifest.ownLocation :: manifest.segments.flatMap NativeSegment.owners)
    compare

/-- `TableSnapshot::reachable_locations`. -/
def TableManifest.reachableLocations (manifest : TableManifest) :
    List SnapshotLocation :=
  manifest.locations.toList

/-- What the catalog keeps of a snapshot. -/
def TableSnapshot.tableReference (snapshot : TableSnapshot) : TableReference :=
  { tableId := snapshot.tableId
    version := snapshot.version
    snapshotId := snapshot.snapshotId
    manifestSha256 := snapshot.manifestSha256 }

/-- `initialize_location_leases`: one new `Arc` for every location. -/
def TableSnapshot.initializeLocationLeases (snapshot : TableSnapshot)
    (allocation : Nat) : TableSnapshot :=
  { snapshot with
    locationLeases := ExtTreeMap.ofList
      (snapshot.reachableLocations.map (·, allocation)) compare }

/-- `inherit_location_leases`: the leases of `previous` where it has them. -/
def TableSnapshot.inheritLocationLeases (snapshot previous : TableSnapshot)
    (allocation : Nat) : TableSnapshot :=
  { snapshot with
    locationLeases := ExtTreeMap.ofList
      (snapshot.reachableLocations.map fun location =>
        (location, previous.locationLeases.getD location allocation)) compare }

variable {manifest : TableManifest}

theorem TableManifest.mem_reachableLocations {location : SnapshotLocation} :
    location ∈ manifest.reachableLocations ↔
      location = manifest.ownLocation ∨
        ∃ segment ∈ manifest.segments, location ∈ segment.owners := by
  unfold reachableLocations locations
  rw [ExtTreeSet.mem_toList, ExtTreeSet.mem_ofList, contains_iff_mem, mem_cons, mem_flatMap]

/-! ## Verification -/

/-- What is reserved for the small files of a snapshot. -/
def fixedMetadataAllowanceBytes : Nat := 64 * 1024

/-- `write_plan::storage_limit`. -/
def storageLimit (sourceBytes multiplier : Nat) (kind : String) :
    Except Error Nat :=
  if sourceBytes * multiplier < u64Limit ∧
      sourceBytes * multiplier + fixedMetadataAllowanceBytes < u64Limit then
    .ok (sourceBytes * multiplier + fixedMetadataAllowanceBytes)
  else .error (.resourceExhausted s!"native {kind} byte limit overflow")

/-- One addition of a sum that may not overflow. -/
def checkedSumStep (overflow : Error) (total value : Nat) : Except Error Nat :=
  match checkedAdd total value with
  | some total => .ok total
  | none => .error overflow

/-- A sum of `u64` values that fails with `overflow`. -/
def checkedSum (overflow : Error) (values : List Nat) : Except Error Nat :=
  values.foldlM (checkedSumStep overflow) 0

/-- The number of rows the delete vectors of the segments delete. -/
def deletedRowsOf (segments : List NativeSegment) : List Nat :=
  segments.filterMap fun segment =>
    segment.deleteVector.map DeleteVectorDescriptor.deletedRows

/-- The sizes of the delete vectors of some segments. -/
def deleteVectorBytesOf (segments : List NativeSegment) : List Nat :=
  segments.filterMap fun segment =>
    segment.deleteVector.map DeleteVectorDescriptor.bytes

/-- The sizes of the predicate sidecars of some segments. -/
def sidecarBytesOf (segments : List NativeSegment) : List Nat :=
  segments.filterMap fun segment =>
    segment.predicateSidecar.map PredicateSidecarDescriptor.bytes

/-- What is stated about a delete vector can be true: its owner is no later snapshot, it deletes
some of the rows, and it is no shorter than its header. -/
def verifyDeleteVectorDescriptor (snapshot : TableSnapshot)
    (segment : NativeSegment) (vector : DeleteVectorDescriptor) (path : Path) :
    Except Error Unit :=
  rejectIf (vector.formatVersion ≠ deleteVectorFormatVersion ∨
      vector.ownerVersion = 0 ∨ snapshot.version < vector.ownerVersion ∨
      vector.rowCount ≠ segment.rows ∨ vector.deletedRows = 0 ∨
      vector.rowCount < vector.deletedRows ∨ vector.bytes < 28)
    (.nativeStorage path "invalid native delete vector descriptor")

/-- `verify::predicate_sidecar_descriptor`. -/
def verifySidecarDescriptor (snapshot : TableSnapshot)
    (segment : NativeSegment) (sidecar : PredicateSidecarDescriptor)
    (path : Path) : Except Error Unit :=
  rejectIf (sidecar.formatVersion ≠ sidecarFormatVersion ∨
      sidecar.bytes = 0 ∨ sidecar.rowCount ≠ segment.rows ∨
      (0 < sidecar.rowCount ∧ sidecar.rowGroupCount = 0) ∨
      sidecar.indexedColumnOrdinals = [] ∨
      ¬ sidecar.indexedColumnOrdinals.Pairwise (· < ·) ∨
      ∃ ordinal ∈ sidecar.indexedColumnOrdinals,
        snapshot.schema.length ≤ ordinal)
    (.nativeStorage path "invalid native predicate sidecar descriptor")

/-- What is stated about a segment can be true: its owner, its schema, and the files beside it. -/
def verifySegmentDescriptor (snapshot : TableSnapshot)
    (segment : NativeSegment) (path : Path) : Except Error Unit := do
  rejectIf (segment.ownerVersion = 0 ∨ snapshot.version < segment.ownerVersion ∨
      segment.schemaFingerprint ≠ snapshot.schema ∨
      segment.formatVersion ≠ segmentFormatVersion)
    (.nativeStorage path "invalid native segment descriptor")
  forM segment.predicateSidecar.toList fun sidecar =>
    verifySidecarDescriptor snapshot segment sidecar path
  forM segment.deleteVector.toList fun vector =>
    verifyDeleteVectorDescriptor snapshot segment vector path

/-- The operations, versions and parents that go together. -/
def operationIsConsistent (manifest : TableManifest) : Bool :=
  match manifest.operation, manifest.parent with
  | .imported, none => manifest.version = 1
  | .imported, some _ => false
  | _, some parent => parent.tableId = manifest.tableId ∧
      checkedAdd parent.version 1 = some manifest.version
  | _, none => false

/-- A manifest that follows its parent is consistent. -/
theorem operationIsConsistent_of_parent {parent : TableReference}
    (hoperation : manifest.operation ≠ .imported) (hparent : manifest.parent = some parent)
    (hchild : parent.tableId = manifest.tableId ∧
      checkedAdd parent.version 1 = some manifest.version) :
    operationIsConsistent manifest = true := by
  rw [operationIsConsistent, hparent]
  cases h : manifest.operation with
  | imported => exact absurd h hoperation
  | append | replace | truncate | delete | update => exact decide_eq_true hchild

/-- What a manifest states can be true, without a look at the files of its segments: the operation,
the totals, and every segment with the files beside it. -/
def verifySnapshot (snapshot : TableSnapshot) (path : Path) :
    Except Error Unit := do
  rejectIf (snapshot.version = 0)
    (.nativeStorage path "snapshot version must be positive")
  rejectIf (operationIsConsistent snapshot.toTableManifest = false)
    (.nativeStorage path
      "snapshot operation, version, and parent are inconsistent")
  forM snapshot.parent.toList fun parent => parent.validate path "parent"
  let physicalRows ← checkedSum
    (.nativeStorage path "snapshot physical row count overflow")
    (snapshot.segments.map NativeSegment.rows)
  let deletedRows ← checkedSum
    (.nativeStorage path "snapshot deleted row count overflow")
    (deletedRowsOf snapshot.segments)
  rejectIf (physicalRows < deletedRows)
    (.nativeStorage path "deleted rows exceed physical rows")
  let bytes ← checkedSum (.nativeStorage path "snapshot segment bytes overflow")
    (snapshot.segments.map NativeSegment.bytes)
  rejectIf (physicalRows ≠ snapshot.physicalRowCount ∨
      physicalRows - deletedRows ≠ snapshot.rowCount ∨
      deletedRows ≠ snapshot.deletedRowCount ∨ bytes ≠ snapshot.segmentBytes)
    (.nativeStorage path "snapshot totals do not match its segment list")
  let sidecarBytes ← checkedSum
    (.nativeStorage path "snapshot predicate sidecar bytes overflow")
    (sidecarBytesOf snapshot.segments)
  let deleteVectorBytes ← checkedSum
    (.nativeStorage path "snapshot delete vector bytes overflow")
    (deleteVectorBytesOf snapshot.segments)
  rejectIf (deleteVectorBytes ≠ snapshot.deleteVectorBytes)
    (.nativeStorage path
      "snapshot delete vector bytes do not match its segment list")
  let managedBytes := bytes + sidecarBytes + deleteVectorBytes
  rejectIf (u64Limit ≤ managedBytes)
    (.nativeStorage path "snapshot managed data byte count overflow")
  let limit ← storageLimit snapshot.sourceBytes 2 "final"
  let sourceBytes := snapshot.sourceBytes
  rejectIf (limit < managedBytes) (.resourceExhausted
    s!"native snapshot uses {managedBytes} data bytes for {sourceBytes} source bytes, exceeding the 2x plus metadata allowance final-size limit")
  verifySegments snapshot path [] snapshot.segments
where
  /-- The loop over the segments, with the ids seen so far. -/
  verifySegments (snapshot : TableSnapshot) (path : Path) (seen : List Uuid) :
      List NativeSegment → Except Error Unit
    | [] => .ok ()
    | segment :: rest => do
      rejectIf (segment.segmentId ∈ seen)
        (.nativeStorage path "duplicate segment id in snapshot")
      verifySegmentDescriptor snapshot segment path
      verifySegments snapshot path (segment.segmentId :: seen) rest

/-! ### What verification accepts -/

private theorem checkedSum_aux (overflow : Error) (n : Nat) :
    ∀ (values : List Nat) (total : Nat), total < u64Limit →
      (values.foldlM (checkedSumStep overflow) total = .ok n ↔
        total + values.sum < u64Limit ∧ n = total + values.sum) := by
  intro values
  induction values with
  | nil =>
    intro total htotal
    simp [pure, Except.pure, htotal, eq_comm]
  | cons value values ih =>
    intro total htotal
    rw [foldlM_cons, sum_cons, ← add_assoc, checkedSumStep]
    by_cases h : total + value < u64Limit
    · rw [checkedAdd, if_pos h]
      exact ih (total + value) h
    · rw [checkedAdd, if_neg h]
      have hsum : ¬ total + value + values.sum < u64Limit := by omega
      simp [hsum, bind, Except.bind]

variable {n : Nat}

/-- A checked sum succeeds exactly when the sum fits. -/
theorem checkedSum_eq_ok {overflow : Error} {values : List Nat} :
    checkedSum overflow values = .ok n ↔
      values.sum < u64Limit ∧ n = values.sum := by
  have h := checkedSum_aux overflow n values 0 (by decide)
  rwa [zero_add] at h

variable {sourceBytes : Nat}

theorem storageLimit_eq_ok {multiplier : Nat} {kind : String} :
    storageLimit sourceBytes multiplier kind = .ok n ↔
      sourceBytes * multiplier + fixedMetadataAllowanceBytes < u64Limit ∧
        n = sourceBytes * multiplier + fixedMetadataAllowanceBytes := by
  unfold storageLimit
  split
  · rename_i h
    simp [h.2, eq_comm]
  · rename_i h
    have : ¬ sourceBytes * multiplier + fixedMetadataAllowanceBytes < u64Limit := by
      omega
    simp [this]

/-- A segment descriptor that `verifySegmentDescriptor` accepts. -/
structure SegmentValid (snapshot : TableSnapshot) (segment : NativeSegment) :
    Prop where
  owner_pos : segment.ownerVersion ≠ 0
  owner_le : segment.ownerVersion ≤ snapshot.version
  schema_eq : segment.schemaFingerprint = snapshot.schema
  format_eq : segment.formatVersion = segmentFormatVersion
  sidecar : ∀ path, ∀ sidecar ∈ segment.predicateSidecar,
    verifySidecarDescriptor snapshot segment sidecar path = .ok ()
  vector : ∀ vector ∈ segment.deleteVector,
    vector.formatVersion = deleteVectorFormatVersion ∧
      vector.ownerVersion ≠ 0 ∧ vector.ownerVersion ≤ snapshot.version ∧
      vector.rowCount = segment.rows ∧ vector.deletedRows ≠ 0 ∧
      vector.deletedRows ≤ vector.rowCount ∧ 28 ≤ vector.bytes

variable {snapshot snapshot' : TableSnapshot} {segment : NativeSegment}

/-- A segment is accepted in another snapshot of the same schema whose version is not
older than its files. -/
theorem SegmentValid.of_version (h : SegmentValid snapshot segment)
    (hschema : snapshot'.schema = snapshot.schema)
    (howner : segment.ownerVersion ≤ snapshot'.version)
    (hvector : ∀ vector ∈ segment.deleteVector,
      vector.ownerVersion ≤ snapshot'.version) : SegmentValid snapshot' segment where
  owner_pos := h.owner_pos
  owner_le := howner
  schema_eq := hschema ▸ h.schema_eq
  format_eq := h.format_eq
  sidecar := by
    intro path sidecar hmem
    have hok := h.sidecar path sidecar hmem
    unfold verifySidecarDescriptor at hok ⊢
    rw [hschema]
    exact hok
  vector := by
    intro vector hmem
    obtain ⟨hformat, hpos, -, hrest⟩ := h.vector vector hmem
    exact ⟨hformat, hpos, hvector vector hmem, hrest⟩

/-- The limits on the rows and the bytes of a snapshot. -/
@[mk_iff] structure TotalsFit (snapshot : TableSnapshot) : Prop where
  physical_lt : (snapshot.segments.map NativeSegment.rows).sum < u64Limit
  limit_lt : snapshot.sourceBytes * 2 + fixedMetadataAllowanceBytes < u64Limit
  managed_le : (snapshot.segments.map NativeSegment.bytes).sum +
      (sidecarBytesOf snapshot.segments).sum +
      (deleteVectorBytesOf snapshot.segments).sum ≤
    snapshot.sourceBytes * 2 + fixedMetadataAllowanceBytes

/-- The totals of a snapshot that `verifySnapshot` accepts: they are within the limits, and
are those of its segments. -/
structure TotalsValid (snapshot : TableSnapshot) : Prop extends TotalsFit snapshot where
  deleted_le : (deletedRowsOf snapshot.segments).sum ≤
    (snapshot.segments.map NativeSegment.rows).sum
  physical_eq : snapshot.physicalRowCount =
    (snapshot.segments.map NativeSegment.rows).sum
  deleted_eq : snapshot.deletedRowCount =
    (deletedRowsOf snapshot.segments).sum
  visible_eq : snapshot.rowCount =
    snapshot.physicalRowCount - snapshot.deletedRowCount
  bytes_eq : snapshot.segmentBytes =
    (snapshot.segments.map NativeSegment.bytes).sum
  vector_bytes_eq : snapshot.deleteVectorBytes =
    (deleteVectorBytesOf snapshot.segments).sum

/-- What `verifySnapshot` accepts. -/
structure SnapshotValid (snapshot : TableSnapshot) : Prop where
  version_pos : snapshot.version ≠ 0
  operation : operationIsConsistent snapshot.toTableManifest = true
  parent : ∀ parent ∈ snapshot.parent, parent.version ≠ 0
  totals : TotalsValid snapshot
  segments : ∀ segment ∈ snapshot.segments, SegmentValid snapshot segment
  nodup : (snapshot.segments.map NativeSegment.segmentId).Nodup

variable {path : Path}

theorem verifySegmentDescriptor_eq_ok :
    verifySegmentDescriptor snapshot segment path = .ok () ↔
      SegmentValid snapshot segment := by
  unfold verifySegmentDescriptor
  rw [check_bind_eq_ok, check_bind_eq_ok, rejectIf_eq_ok, forM_eq_ok, forM_eq_ok]
  simp only [Option.mem_toList, verifyDeleteVectorDescriptor, rejectIf_eq_ok,
    not_or, Nat.not_lt, not_not, ne_eq]
  constructor
  · rintro ⟨⟨h1, h2, h3, h4⟩, h5, h6⟩
    refine ⟨h1, h2, h3, h4, fun path' sidecar hs => ?_, h6⟩
    have h := h5 sidecar hs
    rw [verifySidecarDescriptor, rejectIf_eq_ok] at h ⊢
    exact h
  · intro h
    exact ⟨⟨h.owner_pos, h.owner_le, h.schema_eq, h.format_eq⟩, h.sidecar path, h.vector⟩

private theorem verifySegments_eq_ok :
    ∀ (segments : List NativeSegment) (seen : List Uuid),
      verifySnapshot.verifySegments snapshot path seen segments = .ok () ↔
        (∀ segment ∈ segments, SegmentValid snapshot segment) ∧
        (segments.map NativeSegment.segmentId).Nodup ∧
        ∀ segment ∈ segments, segment.segmentId ∉ seen := by
  intro segments
  induction segments with
  | nil => simp [verifySnapshot.verifySegments]
  | cons segment segments ih =>
    intro seen
    rw [verifySnapshot.verifySegments, check_bind_eq_ok, check_bind_eq_ok,
      rejectIf_eq_ok, verifySegmentDescriptor_eq_ok, ih]
    simp only [mem_cons, forall_eq_or_imp, map_cons, nodup_cons,
      mem_map, not_exists, not_and, not_or]
    constructor
    · rintro ⟨h1, h2, h3, h4, h5⟩
      exact ⟨⟨h2, h3⟩, ⟨fun s hs => (h5 s hs).1, h4⟩, h1, fun s hs => (h5 s hs).2⟩
    · rintro ⟨⟨h2, h3⟩, ⟨h5, h4⟩, h1, h6⟩
      exact ⟨h1, h2, h3, h4, fun s hs => ⟨h5 s hs, h6 s hs⟩⟩

/-- Verification accepts exactly the valid snapshots. -/
theorem verifySnapshot_eq_ok {u : Unit} :
    verifySnapshot snapshot path = .ok u ↔ SnapshotValid snapshot := by
  cases u
  unfold verifySnapshot
  simp only [bind_eq_ok, exists_const, rejectIf_eq_ok, forM_eq_ok,
    checkedSum_eq_ok, storageLimit_eq_ok, verifySegments_eq_ok,
    Option.mem_toList, TableReference.validate_eq_ok, Nat.not_lt, not_or,
    not_not, ne_eq, Bool.not_eq_false, not_mem_nil, not_false_eq_true,
    implies_true, and_true]
  constructor
  · rintro ⟨hv, hop, hpar, _, ⟨hphys, rfl⟩, _, ⟨-, rfl⟩, hdel, _, ⟨-, rfl⟩,
      ⟨ep, ev, ed, eb⟩, _, ⟨-, rfl⟩, _, ⟨-, rfl⟩, edv, -, _, ⟨hlim, rfl⟩, hman,
      hseg, hnd⟩
    have totals : TotalsValid snapshot :=
      ⟨⟨hphys, hlim, hman⟩, hdel, ep.symm, ed.symm, by omega, eb.symm, edv.symm⟩
    exact ⟨hv, hop, hpar, totals, hseg, hnd⟩
  · rintro ⟨hv, hop, hpar, t, hseg, hnd⟩
    obtain ⟨⟨hphys, hlim, hman⟩, hdel, ep, ed, ev, eb, edv⟩ := t
    have hlim' := hlim
    have hman' := hman
    exact ⟨hv, hop, hpar, _, ⟨hphys, rfl⟩, _, ⟨by omega, rfl⟩, hdel, _,
      ⟨by omega, rfl⟩, ⟨ep.symm, by omega, ed.symm, eb.symm⟩, _,
      ⟨by omega, rfl⟩, _, ⟨by omega, rfl⟩, edv.symm, by omega, _, ⟨hlim, rfl⟩,
      hman, hseg, hnd⟩

/-- `TableSnapshot::new`: the snapshot of a list of segments, verified. -/
def TableSnapshot.new (databaseId tableId : Uuid) (version : Nat)
    (snapshotId : Uuid) (parent : Option TableReference)
    (operation : SnapshotOperation) (schema : Schema) (sourceBytes : Nat)
    (segments : List NativeSegment) (allocation : Nat) :
    Except Error TableSnapshot := do
  let physicalRowCount ← checkedSum
    (.resourceExhausted "native table physical row count overflow")
    (segments.map NativeSegment.rows)
  let deletedRowCount ← checkedSum
    (.resourceExhausted "native table deleted row count overflow")
    (deletedRowsOf segments)
  rejectIf (physicalRowCount < deletedRowCount)
    (.nativeStorage (.label "native table") "deleted rows exceed physical rows")
  let segmentBytes ← checkedSum
    (.resourceExhausted "native table segment bytes overflow")
    (segments.map NativeSegment.bytes)
  let deleteVectorBytes ← checkedSum
    (.resourceExhausted "native table delete vector bytes overflow")
    (deleteVectorBytesOf segments)
  let snapshot : TableSnapshot :=
    { databaseId, formatVersion := tableFormatVersion, tableId, version
      snapshotId, parent, operation, schema, sourceBytes
      rowCount := physicalRowCount - deletedRowCount
      deletedRowCount, segmentBytes, deleteVectorBytes, segments
      physicalRowCount, storageBytes := 0, manifestSha256 := 0
      locationLeases := ∅ }
  let snapshot := snapshot.initializeLocationLeases allocation
  verifySnapshot snapshot (.label "native table snapshot")
  pure snapshot

/-- The snapshot of a list of segments, with the totals of the list and no leases. -/
def TableSnapshot.ofSegments (databaseId tableId : Uuid) (version : Nat)
    (snapshotId : Uuid) (parent : Option TableReference)
    (operation : SnapshotOperation) (schema : Schema) (sourceBytes : Nat)
    (segments : List NativeSegment) : TableSnapshot where
  databaseId
  formatVersion := tableFormatVersion
  tableId
  version
  snapshotId
  parent
  operation
  schema
  sourceBytes
  rowCount := (segments.map NativeSegment.rows).sum - (deletedRowsOf segments).sum
  deletedRowCount := (deletedRowsOf segments).sum
  segmentBytes := (segments.map NativeSegment.bytes).sum
  deleteVectorBytes := (deleteVectorBytesOf segments).sum
  segments
  physicalRowCount := (segments.map NativeSegment.rows).sum
  storageBytes := 0
  manifestSha256 := 0
  locationLeases := ∅

theorem deletedRows_sum_le {segments : List NativeSegment}
    (h : ∀ segment ∈ segments, SegmentValid snapshot segment) :
    (deletedRowsOf segments).sum ≤ (segments.map NativeSegment.rows).sum := by
  induction segments with
  | nil => exact Nat.le_refl _
  | cons segment segments ih =>
    have ⟨hsegment, hrest⟩ := forall_mem_cons.mp h
    have hle := ih hrest
    unfold deletedRowsOf at hle ⊢
    rw [map_cons, sum_cons]
    cases hvector : segment.deleteVector with
    | none =>
      rw [filterMap_cons_none (by rw [hvector]; rfl)]
      omega
    | some vector =>
      obtain ⟨-, -, -, hrows, -, hdeleted, -⟩ := hsegment.vector vector hvector
      rw [filterMap_cons_some (by rw [hvector]; rfl), sum_cons]
      omega

/-- Validity does not depend on leases, on measured storage or on the digest. -/
theorem SnapshotValid.of_manifest_eq (h : SnapshotValid snapshot)
    (hmanifest : snapshot'.toTableManifest = snapshot.toTableManifest)
    (hrows : snapshot'.physicalRowCount = snapshot.physicalRowCount) :
    SnapshotValid snapshot' := by
  cases snapshot with | mk manifest physical storage sha leases =>
  cases snapshot' with | mk manifest' physical' storage' sha' leases' =>
  cases hmanifest
  cases hrows
  have totals := h.totals
  exact ⟨h.version_pos, h.operation, h.parent,
    ⟨⟨totals.physical_lt, totals.limit_lt, totals.managed_le⟩, totals.deleted_le,
      totals.physical_eq, totals.deleted_eq, totals.visible_eq, totals.bytes_eq,
      totals.vector_bytes_eq⟩,
    fun segment hs => ⟨(h.segments segment hs).owner_pos, (h.segments segment hs).owner_le,
      (h.segments segment hs).schema_eq, (h.segments segment hs).format_eq,
      (h.segments segment hs).sidecar, (h.segments segment hs).vector⟩, h.nodup⟩

/-- `TableSnapshot::new` accepts exactly the valid lists of segments. -/
theorem TableSnapshot.new_eq_ok {databaseId tableId snapshotId : Uuid} {version : Nat}
    {parent : Option TableReference} {operation : SnapshotOperation} {schema : Schema}
    {segments : List NativeSegment} {allocation : Nat} :
    TableSnapshot.new databaseId tableId version snapshotId parent operation schema
        sourceBytes segments allocation = .ok snapshot ↔
      SnapshotValid (ofSegments databaseId tableId version snapshotId parent operation
        schema sourceBytes segments) ∧
      snapshot = (ofSegments databaseId tableId version snapshotId parent operation
        schema sourceBytes segments).initializeLocationLeases allocation := by
  unfold TableSnapshot.new
  simp only [bind_eq_ok, checkedSum_eq_ok, rejectIf_eq_ok, exists_const, verifySnapshot_eq_ok]
  constructor
  · rintro ⟨_, ⟨-, rfl⟩, _, ⟨-, rfl⟩, -, _, ⟨-, rfl⟩, _, ⟨-, rfl⟩, hvalid, h⟩
    cases h
    exact ⟨hvalid.of_manifest_eq rfl rfl, rfl⟩
  · rintro ⟨hvalid, rfl⟩
    have totals := hvalid.totals
    have hlimit := totals.limit_lt
    have hmanaged := totals.managed_le
    have hphysical := totals.physical_lt
    have hdeleted := totals.deleted_le
    change (deletedRowsOf segments).sum ≤ (segments.map NativeSegment.rows).sum at hdeleted
    change (segments.map NativeSegment.rows).sum < u64Limit at hphysical
    change (segments.map NativeSegment.bytes).sum + (sidecarBytesOf segments).sum +
      (deleteVectorBytesOf segments).sum ≤ _ at hmanaged
    exact ⟨_, ⟨hphysical, rfl⟩, _, ⟨by omega, rfl⟩, by omega, _, ⟨by omega, rfl⟩, _,
      ⟨by omega, rfl⟩, hvalid.of_manifest_eq rfl rfl, rfl⟩

end RustDb.Native
