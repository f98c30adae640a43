import RustDb.Native.Table
import Mathlib.Data.List.Nodup

/-!
# The rows of a snapshot

A row is named by its segment, the directory of the segment, and its offset there.

* `Disk.visibleRows` are the rows that the delete vectors of a snapshot leave, and
  `Disk.scan` is their contents.
* Both depend only on the data files of the directories that the snapshot reaches.
-/

namespace RustDb.Native

open Std RustDb.Lib List NativeSegment

/-- The identity of a row. -/
structure RowId where
  segmentId : Uuid
  owner : SnapshotLocation
  offset : Nat
deriving DecidableEq, Repr

/-- The row at a place of a segment. -/
def NativeSegment.row (segment : NativeSegment) (offset : Nat) : RowId :=
  { segmentId := segment.segmentId, owner := segment.owner, offset }

namespace Disk

/-- The delete vector of a segment, as `load_delete_vectors` reads it. -/
def vectorOf (disk : Disk) (tableId : Uuid) (segment : NativeSegment) :
    Except Error (Option DeleteVector) :=
  match segment.deleteVector with
  | none => .ok none
  | some descriptor => do
    let vector ← disk.readDeleteVector tableId segment.segmentId descriptor
    pure (some vector)

/-- Whether the delete vector of a segment has an offset. -/
def isDeleted (disk : Disk) (tableId : Uuid) (segment : NativeSegment)
    (offset : Nat) : Bool :=
  match disk.vectorOf tableId segment with
  | .ok (some vector) => vector.contains offset
  | _ => false

/-- The rows of a segment that are not deleted. -/
def segmentRows (disk : Disk) (tableId : Uuid) (segment : NativeSegment) : List RowId :=
  ((List.range segment.rows).filter fun offset =>
    !disk.isDeleted tableId segment offset).map segment.row

/-- The rows that a snapshot shows. -/
def visibleRows (disk : Disk) (manifest : TableManifest) : List RowId :=
  manifest.segments.flatMap (disk.segmentRows manifest.tableId)

/-- The contents of a row. -/
def rowAt (disk : Disk) (tableId : Uuid) (row : RowId) : Option Row :=
  ((disk.snapshots[(⟨tableId, row.owner⟩ : SnapshotKey)]?).bind
    (·.segments[row.segmentId]?)).bind (·.rows[row.offset]?)

/-- The contents of a table. -/
def scan (disk : Disk) (manifest : TableManifest) : List Row :=
  (disk.visibleRows manifest).filterMap (disk.rowAt manifest.tableId)

end Disk

section Rows

variable {disk disk' : Disk} {tableId : Uuid} {segment : NativeSegment}
  {manifest : TableManifest} {row : RowId}

theorem Disk.mem_segmentRows : row ∈ disk.segmentRows tableId segment ↔
    ∃ offset, row = segment.row offset ∧ offset < segment.rows ∧
      disk.isDeleted tableId segment offset = false := by
  unfold segmentRows
  simp only [mem_map, mem_filter, mem_range, Bool.not_eq_true']
  constructor
  · rintro ⟨offset, ⟨hlt, hdel⟩, rfl⟩
    exact ⟨offset, rfl, hlt, hdel⟩
  · rintro ⟨offset, rfl, hlt, hdel⟩
    exact ⟨offset, ⟨hlt, hdel⟩, rfl⟩

theorem Disk.mem_visibleRows : row ∈ disk.visibleRows manifest ↔
    ∃ segment ∈ manifest.segments, ∃ offset, row = segment.row offset ∧
      offset < segment.rows ∧
      disk.isDeleted manifest.tableId segment offset = false := by
  unfold visibleRows
  simp only [mem_flatMap, mem_segmentRows]

theorem Disk.nodup_segmentRows : (disk.segmentRows tableId segment).Nodup := by
  unfold segmentRows
  refine List.Nodup.map (fun x y hxy => ?_) (nodup_range.filter _)
  cases hxy
  rfl

section

variable (hnodup : (manifest.segments.map segmentId).Nodup)
include hnodup

/-- No row is shown twice. -/
theorem Disk.nodup_visibleRows : (disk.visibleRows manifest).Nodup := by
  unfold visibleRows
  rw [nodup_flatMap]
  refine ⟨fun segment _ => nodup_segmentRows, ?_⟩
  rw [List.Nodup, pairwise_map] at hnodup
  refine hnodup.imp fun hne row hrow hrow' => hne ?_
  obtain ⟨_, rfl, -⟩ := mem_segmentRows.mp hrow
  obtain ⟨_, heq, -⟩ := mem_segmentRows.mp hrow'
  exact congrArg RowId.segmentId heq

theorem Disk.row_mem_visibleRows (hmem : segment ∈ manifest.segments) {offset : Nat} :
    segment.row offset ∈ disk.visibleRows manifest ↔
      offset < segment.rows ∧
        disk.isDeleted manifest.tableId segment offset = false := by
  rw [mem_visibleRows]
  constructor
  · rintro ⟨segment', hmem', offset', hrow, h⟩
    obtain rfl := inj_on_of_nodup_map hnodup hmem hmem' (congrArg RowId.segmentId hrow)
    obtain rfl : offset = offset' := congrArg RowId.offset hrow
    exact h
  · rintro ⟨hlt, hdel⟩
    exact ⟨segment, hmem, offset, rfl, hlt, hdel⟩

end

/-- The delete vector of a stored segment is read. -/
theorem SegmentStored.vectorOf_eq_ok {file : SegmentFile}
    (h : SegmentStored disk tableId segment file) :
    ∃ vector, disk.vectorOf tableId segment = .ok vector := by
  unfold Disk.vectorOf
  cases hd : segment.deleteVector with
  | none => exact ⟨none, rfl⟩
  | some descriptor =>
    obtain ⟨vector, hv⟩ := h.vector descriptor hd
    refine ⟨some vector, ?_⟩
    dsimp only
    rw [Disk.readDeleteVector_eq_ok.mpr hv]
    rfl

theorem Disk.vectorOf_eq_some {vector : DeleteVector} :
    disk.vectorOf tableId segment = .ok (some vector) ↔
      ∃ descriptor, segment.deleteVector = some descriptor ∧
        VectorStored disk tableId segment.segmentId descriptor vector := by
  unfold vectorOf
  cases segment.deleteVector with
  | none => simp
  | some descriptor =>
    simp only [bind_eq_ok, readDeleteVector_eq_ok, Option.some.injEq]
    constructor
    · rintro ⟨v, hv, h⟩
      cases h
      exact ⟨descriptor, rfl, hv⟩
    · rintro ⟨_, rfl, hv⟩
      exact ⟨vector, hv, rfl⟩

variable {vector : Option DeleteVector}

section

variable (h : disk.vectorOf tableId segment = .ok vector)
include h

theorem Disk.isDeleted_of_vectorOf (offset : Nat) :
    disk.isDeleted tableId segment offset = vector.any (·.contains offset) := by
  unfold isDeleted
  rw [h]
  cases vector <;> rfl

section

variable (hkeep : ∀ location ∈ segment.owners, KeepsData disk disk' ⟨tableId, location⟩)
include hkeep

/-- Reading the delete vector of a segment needs the directory of its owner only. -/
theorem Disk.vectorOf_congr : disk'.vectorOf tableId segment = .ok vector := by
  cases vector with
  | none =>
    unfold vectorOf at h ⊢
    cases hd : segment.deleteVector with
    | none => rfl
    | some descriptor =>
      rw [hd] at h
      obtain ⟨_, _, h⟩ := bind_eq_ok.mp h
      cases h
  | some vector =>
    obtain ⟨descriptor, hd, hv⟩ := vectorOf_eq_some.mp h
    exact vectorOf_eq_some.mpr ⟨descriptor, hd,
      hv.congr (hkeep _ (vector_owner_mem hd))⟩

theorem Disk.isDeleted_congr (offset : Nat) :
    disk'.isDeleted tableId segment offset = disk.isDeleted tableId segment offset := by
  rw [isDeleted_of_vectorOf h, isDeleted_of_vectorOf (vectorOf_congr h hkeep)]

end

end

theorem Disk.rowAt_congr {content : Row}
    (h : disk.rowAt tableId row = some content)
    (hkeep : KeepsData disk disk' ⟨tableId, row.owner⟩) :
    disk'.rowAt tableId row = some content := by
  unfold rowAt at h ⊢
  simp only [Option.bind_eq_some_iff] at h ⊢
  obtain ⟨file, ⟨directory, hd, hfile⟩, hrow⟩ := h
  obtain ⟨directory', hd', hsame⟩ := hkeep directory hd
  refine ⟨file, ⟨directory', hd', ?_⟩, hrow⟩
  rw [hsame]
  exact hfile

/-- A row that a stored snapshot shows has contents. -/
theorem FilesOk.rowAt_isSome {databaseId : Uuid} (h : FilesOk disk databaseId manifest)
    (hrow : row ∈ disk.visibleRows manifest) :
    ∃ content, disk.rowAt manifest.tableId row = some content := by
  obtain ⟨segment, hmem, offset, rfl, hlt, -⟩ := Disk.mem_visibleRows.mp hrow
  obtain ⟨file, hstored⟩ := h.segments segment hmem
  obtain ⟨directory, hd, hfile, -⟩ := hstored.data
  have hlen : offset < file.rows.length := by
    rw [hstored.rows_eq]
    exact hlt
  refine ⟨file.rows[offset], ?_⟩
  unfold Disk.rowAt row
  simp only [hd, hfile, Option.bind_some, getElem?_eq_getElem hlen]

end Rows

end RustDb.Native
