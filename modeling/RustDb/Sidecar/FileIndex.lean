import RustDb.Sidecar.WholeFile

/-!
# The index of a sidecar file

An index that `from_metadata` accepts describes the file: the blocks lie in the order
of their keys, one after the other, from the end of the metadata to the end of the
file.

* `Tiled start stop ranges`: the ranges fill the interval without a gap.
* `Indexed`: the invariant of the loop over the directory, kept by one turn
  (`Indexed.addEntry`) and so by the loop (`Indexed.foldlM`).
* `fromMetadata_sound`: what an accepted index guarantees.
-/

namespace RustDb.Sidecar

open Std List PredicateSidecarIndex DirectoryEntry
open RustDb.Lib RustDb.Lib.Checked RustDb.Lib.LittleEndian
open WholeFile

/-! ## Tilings -/

/-- The ranges, given by offset and length, lie one after the other from `start` to
`stop`, and none is empty. -/
def Tiled (start stop : Nat) : List (Nat × Nat) → Prop
  | [] => start = stop
  | range :: ranges => range.1 = start ∧ 0 < range.2 ∧ Tiled (start + range.2) stop ranges

namespace Tiled

variable {start stop : Nat} {ranges : List (Nat × Nat)}

section

variable (h : Tiled start stop ranges)
include h

theorem concat {length : Nat} (hlength : 0 < length) :
    Tiled start (stop + length) (ranges ++ [(stop, length)]) := by
  induction ranges generalizing start with
  | nil =>
    cases h
    exact ⟨rfl, hlength, rfl⟩
  | cons range ranges ih => exact ⟨h.1, h.2.1, ih h.2.2⟩

theorem le : start ≤ stop := by
  induction ranges generalizing start with
  | nil => exact Nat.le_of_eq h
  | cons range ranges ih => exact Nat.le_trans (Nat.le_add_right ..) (ih h.2.2)

theorem start_le {range : Nat × Nat} (hrange : range ∈ ranges) : start ≤ range.1 := by
  induction ranges generalizing start with
  | nil => cases hrange
  | cons first ranges ih =>
    rcases mem_cons.mp hrange with rfl | hrange
    · exact Nat.le_of_eq h.1.symm
    · exact Nat.le_trans (Nat.le_add_right ..) (ih h.2.2 hrange)

end

theorem of_append {ranges' : List (Nat × Nat)} (h : Tiled start stop (ranges ++ ranges')) :
    ∃ middle, Tiled start middle ranges ∧ Tiled middle stop ranges' := by
  induction ranges generalizing start with
  | nil => exact ⟨start, rfl, h⟩
  | cons range ranges ih =>
    obtain ⟨middle, hleft, hright⟩ := ih h.2.2
    exact ⟨middle, ⟨h.1, h.2.1, hleft⟩, hright⟩

theorem stop_unique {stop' : Nat} (h : Tiled start stop ranges)
    (h' : Tiled start stop' ranges) : stop = stop' := by
  induction ranges generalizing start with
  | nil => exact h.symm.trans h'
  | cons range ranges ih => exact ih h.2.2 h'.2.2

/-- No two ranges of a tiling overlap. -/
theorem disjoint (h : Tiled start stop ranges) :
    ranges.Pairwise fun a b => a.1 + a.2 ≤ b.1 := by
  induction ranges generalizing start with
  | nil => exact .nil
  | cons range ranges ih =>
    refine pairwise_cons.mpr ⟨fun b hb => ?_, ih h.2.2⟩
    rw [h.1]
    exact h.2.2.start_le hb

end Tiled

/-- The range of the block of an entry. -/
def DirectoryEntry.range (entry : DirectoryEntry) : Nat × Nat := (entry.offset, entry.length)

/-! ## The loop over the directory -/

/-- What the loop knows after the entries of `directory`. -/
structure Indexed (rowGroupRows ordinals : List Nat) (start : Nat)
    (state : IndexState) (directory : List DirectoryEntry) : Prop where
  entries_eq : state.entries.toList = directory.map fun entry => (entry.key, entry.block)
  ordered : directory.Pairwise fun a b => BlockKey.cmp a.key b.key = .lt
  previous_eq : state.previousKey = directory.getLast?.map key
  tiled : Tiled start state.payloadCursor (directory.map range)
  rows_eq : ∀ entry ∈ directory, rowGroupRows[entry.rowGroup]? = some entry.rowCount
  indexed : ∀ entry ∈ directory, entry.columnOrdinal ∈ ordinals

theorem Indexed.empty (rowGroupRows ordinals : List Nat) (start : Nat) :
    Indexed rowGroupRows ordinals start
      { entries := ∅, payloadCursor := start, previousKey := none } [] where
  entries_eq := rfl
  ordered := .nil
  previous_eq := rfl
  tiled := rfl
  rows_eq _ h := (not_mem_nil h).elim
  indexed _ h := (not_mem_nil h).elim

/-- The entry that the loop reads in one turn. -/
def entryAt (metadata : List UInt8) (header : FileHeader) (entryIndex : Nat) :
    Result DirectoryEntry :=
  DirectoryEntry.parse metadata
    (header.directoryOffset + entryIndex * WholeFile.directoryEntryBytes)

section Loop

variable {metadata : List UInt8} {total start : Nat} {header : FileHeader}
  {rows ordinals : List Nat} {state state' : IndexState} {directory : List DirectoryEntry}

/-- What one turn of the loop checks and does. -/
theorem addEntry_eq_ok {entryIndex : Nat} :
    addEntry metadata total header rows ordinals state entryIndex =
        .ok state' ↔
      header.directoryOffset + entryIndex * WholeFile.directoryEntryBytes < 2 ^ 64 ∧
      ∃ entry, entryAt metadata header entryIndex = .ok entry ∧
        entry.rowGroup < header.rowGroupCount ∧ entry.columnOrdinal ∈ ordinals ∧
        rows[entry.rowGroup]? = some entry.rowCount ∧
        entry.offset = state.payloadCursor ∧ 0 < entry.length ∧
        (∀ previous, state.previousKey = some previous →
          BlockKey.cmp previous entry.key = .lt) ∧
        entry.offset + entry.length < 2 ^ 64 ∧ entry.offset + entry.length ≤ total ∧
        state' = {
          entries := state.entries.insert entry.key entry.block
          payloadCursor := entry.offset + entry.length
          previousKey := some entry.key } := by
  simp [addEntry, checkEntry, corruptIf,
    usizeFromU64, entryAt, and_assoc, pos_iff_ne_zero, Option.any_eq_false,
    eq_comm (b := state')]
  omega

/-- One turn keeps the invariant. -/
theorem Indexed.addEntry {entryIndex : Nat} (hi : Indexed rows ordinals start state directory)
    (h : addEntry metadata total header rows ordinals state entryIndex =
      .ok state') :
    ∃ entry, entryAt metadata header entryIndex = .ok entry ∧
      Indexed rows ordinals start state' (directory ++ [entry]) := by
  obtain ⟨-, entry, hentry, -, hordinal, hrows, hoffset, hlength, hprevious, -, -, rfl⟩ :=
    addEntry_eq_ok.mp h
  -- the last key is below the new one, so all are
  have hbelow : ∀ old ∈ directory, BlockKey.cmp old.key entry.key = .lt := by
    intro old hold
    rcases eq_nil_or_concat directory with rfl | ⟨init, last, rfl⟩
    · cases hold
    · rw [concat_eq_append] at hi hold
      have hlast := hprevious last.key (by rw [hi.previous_eq, getLast?_concat]; rfl)
      rcases mem_append.mp hold with hold | hold
      · have hlt := (pairwise_append.mp hi.ordered).2.2 old hold last (mem_singleton_self _)
        exact TransCmp.lt_trans hlt hlast
      · rw [mem_singleton.mp hold]
        exact hlast
  refine ⟨entry, hentry, {
    entries_eq := ?_
    ordered := ?_
    previous_eq := by simp
    tiled := ?_
    rows_eq := forall_mem_append.mpr ⟨hi.rows_eq, forall_mem_singleton.mpr hrows⟩
    indexed := forall_mem_append.mpr
      ⟨hi.indexed, forall_mem_singleton.mpr hordinal⟩ }⟩
  · rw [toList_insert_of_lt, hi.entries_eq, map_append]
    · rfl
    · simpa [hi.entries_eq] using hbelow
  · simpa [pairwise_append, hi.ordered] using hbelow
  · simpa [DirectoryEntry.range, hoffset] using hi.tiled.concat hlength

/-- The whole loop keeps the invariant. -/
theorem Indexed.foldlM {indices : List Nat} (hi : Indexed rows ordinals start state directory)
    (h : indices.foldlM
      (PredicateSidecarIndex.addEntry metadata total header rows ordinals) state = .ok state') :
    ∃ read, indices.mapM (entryAt metadata header) = .ok read ∧
      Indexed rows ordinals start state' (directory ++ read) := by
  induction indices generalizing state directory with
  | nil =>
    cases h
    refine ⟨[], rfl, ?_⟩
    rw [append_nil]
    exact hi
  | cons i indices ih =>
    rw [foldlM_cons] at h
    obtain ⟨next, hnext, h⟩ := bind_eq_ok.mp h
    obtain ⟨entry, hentry, hi⟩ := hi.addEntry hnext
    obtain ⟨read, hread, hi⟩ := ih hi h
    refine ⟨entry :: read, ?_, ?_⟩
    · rw [mapM_cons, hentry, hread]
      rfl
    · rw [append_cons]
      exact hi

end Loop

theorem foldlM_sum_eq_ok {rows : List Nat} {start total : Nat} (hstart : start < 2 ^ 64) :
    rows.foldlM (fun total rows => orTooLarge 64 (total + rows)) start = .ok total ↔
      start + rows.sum < 2 ^ 64 ∧ total = start + rows.sum := by
  induction rows generalizing start with
  | nil => simpa [pure, Except.pure, eq_comm] using fun _ => hstart
  | cons r rows ih =>
    simp only [foldlM_cons, bind_eq_ok, orTooLarge_eq_ok, and_assoc, exists_and_left,
      exists_eq_left, sum_cons, ← add_assoc]
    constructor
    · intro h
      exact (ih h.1).mp h.2
    · intro h
      have hlt : start + r < 2 ^ 64 := by omega
      exact ⟨hlt, (ih hlt).mpr h⟩

theorem validateRowGroups_eq_ok {segmentRows : Nat} {rows : List Nat} {u : Unit} :
    validateRowGroups segmentRows rows = .ok u ↔
      rows ≠ [] ∧ 0 ∉ rows ∧ rows.sum = segmentRows ∧ segmentRows < 2 ^ 64 := by
  simp [validateRowGroups, corruptIf, foldlM_sum_eq_ok, and_assoc]
  omega

/-! ## Soundness -/

/-- What an accepted index guarantees about the directory of the file. -/
structure DirectorySound (index : PredicateSidecarIndex) (metadataLen totalFileLen : Nat)
    (directory : List DirectoryEntry) : Prop where
  entries_eq : index.entries.toList = directory.map fun entry => (entry.key, entry.block)
  ordered : directory.Pairwise fun a b => BlockKey.cmp a.key b.key = .lt
  disjoint : directory.Pairwise fun a b => a.offset + a.length ≤ b.offset
  tiled : Tiled metadataLen totalFileLen (directory.map range)
  rows_eq : ∀ entry ∈ directory, index.rowGroupRows[entry.rowGroup]? = some entry.rowCount
  rows_sum : index.rowGroupRows.sum = index.segmentRows
  indexed : ∀ ordinal ∈ index.indexedColumnOrdinals, ∃ entry ∈ directory,
    entry.columnOrdinal = ordinal

theorem fromMetadata_sound {metadata : List UInt8} {total : Nat}
    {index : PredicateSidecarIndex}
    (h : fromMetadata metadata total = .ok index) :
    ∃ header directory, FileHeader.parse metadata = .ok header ∧
      (List.range header.blockCount).mapM (entryAt metadata header) = .ok directory ∧
      DirectorySound index metadata.length total directory := by
  simp only [fromMetadata, corruptIf, bind_eq_ok, failIf_eq_ok, not_or,
    not_not, ne_eq, exists_and_left, exists_const] at h
  obtain ⟨header, hheader, -, -, payloadOffset, hoffset, rfl, rows, -, _, hrows, ordinals, -, -,
    cursor, hcursor, state, hloop, ⟨rfl, hordinals⟩, h⟩ := h
  cases h
  cases hoffset.symm.trans hcursor
  obtain ⟨directory, hread, hi⟩ := (Indexed.empty rows ordinals metadata.length).foldlM hloop
  rw [nil_append] at hi
  refine ⟨header, directory, hheader, hread, {
    entries_eq := hi.entries_eq
    ordered := hi.ordered
    disjoint := pairwise_map.mp hi.tiled.disjoint
    tiled := hi.tiled
    rows_eq := hi.rows_eq
    rows_sum := (validateRowGroups_eq_ok.mp hrows).2.2.1
    indexed := ?_ }⟩
  rw [← ExtTreeMap.map_fst_toList_eq_keys, hi.entries_eq] at hordinals
  simpa [key] using hordinals

end RustDb.Sidecar
