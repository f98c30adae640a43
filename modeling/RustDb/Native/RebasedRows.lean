import RustDb.Native.Rebased

/-!
# The rows of a rebased snapshot

* `rewritten` says what becomes of one segment, and `applyVectors_eq_map` that this
  happens to each segment of the plan.
* `mem_visibleRows`: the rebased snapshot shows the three-way merge of the
  rows of the three snapshots.
-/

namespace RustDb.Native

open Std RustDb.Lib Faulty List NativeSegment Disk SnapshotDirectory ThreeWay

namespace Rebase

/-! ## Segments with rewritten vectors -/

section Rewritten

variable {plan : NativeWritePlan} {vectors : List (Uuid × DeleteVector)}
  {segment : NativeSegment} {segments : List NativeSegment}

theorem setDeleteVector_eq_map {segmentId : Uuid} {descriptor : DeleteVectorDescriptor}
    (hnodup : (segments.map NativeSegment.segmentId).Nodup) :
    setDeleteVector segmentId descriptor segments = segments.map fun segment =>
      if segment.segmentId = segmentId then segment.withDeleteVector descriptor
      else segment := by
  induction segments with
  | nil => rfl
  | cons head rest ih =>
    rw [map_cons, nodup_cons] at hnodup
    rw [setDeleteVector, map_cons]
    split_ifs with hid
    · -- The first match is the only one.
      congr 1
      refine (map_id' rest).symm.trans (map_congr_left fun segment hmem => ?_)
      rw [if_neg]
      exact fun heq => hnodup.1 (hid.trans heq.symm ▸ mem_map_of_mem hmem)
    · rw [ih hnodup.2]

variable [Digests]

/-- The segment with its rewritten delete vector, if it has one. -/
def rewritten (plan : NativeWritePlan) (vectors : List (Uuid × DeleteVector))
    (segment : NativeSegment) : NativeSegment :=
  match vectors.lookup segment.segmentId with
  | none => segment
  | some vector =>
    segment.withDeleteVector (vector.descriptor plan.version plan.snapshotId)

theorem rewritten_of_lookup_eq_none (h : vectors.lookup segment.segmentId = none) :
    rewritten plan vectors segment = segment := by
  rw [rewritten, h]

theorem rewritten_of_lookup_eq_some {vector : DeleteVector}
    (h : vectors.lookup segment.segmentId = some vector) :
    rewritten plan vectors segment =
      segment.withDeleteVector (vector.descriptor plan.version plan.snapshotId) := by
  rw [rewritten, h]

/-- Only the delete vector of a segment is rewritten. -/
theorem rewritten_eq (plan : NativeWritePlan) (vectors : List (Uuid × DeleteVector))
    (segment : NativeSegment) : ∃ deleteVector,
    rewritten plan vectors segment = { segment with deleteVector } := by
  unfold rewritten
  split
  · exact ⟨segment.deleteVector, rfl⟩
  · exact ⟨_, rfl⟩

theorem applyVectors_eq_map (hsegments : (segments.map segmentId).Nodup)
    (hvectors : (vectors.map Prod.fst).Nodup) :
    applyVectors plan vectors segments = segments.map (rewritten plan vectors) := by
  induction vectors generalizing segments with
  | nil => exact (map_id' segments).symm
  | cons entry rest ih =>
    obtain ⟨id, vector⟩ := entry
    rw [map_cons, nodup_cons] at hvectors
    show applyVectors plan rest (setDeleteVector id _ segments) = _
    rw [ih (by rw [setDeleteVector_segmentId]; exact hsegments) hvectors.2,
      setDeleteVector_eq_map hsegments, map_map]
    refine map_congr_left fun segment _ => ?_
    rw [Function.comp_apply]
    by_cases hid : segment.segmentId = id
    · subst hid
      rw [if_pos rfl, rewritten_of_lookup_eq_some lookup_cons_self]
      exact rewritten_of_lookup_eq_none (lookup_eq_none.mpr hvectors.1)
    · rw [if_neg hid, rewritten, rewritten, lookup_cons, beq_false_of_ne hid]

theorem applyVectors_segmentId (vectors : List (Uuid × DeleteVector))
    (segments : List NativeSegment) :
    (applyVectors plan vectors segments).map segmentId =
      segments.map segmentId := by
  induction vectors generalizing segments with
  | nil => rfl
  | cons entry rest ih =>
    show (applyVectors plan rest (setDeleteVector _ _ segments)).map _ = _
    rw [ih, setDeleteVector_segmentId]

theorem getElem?_addVectors (hvectors : (vectors.map Prod.fst).Nodup)
    (directory : SnapshotDirectory) (id : Uuid) :
    (directory.addVectors vectors).deleteVectors[id]? =
      ((vectors.lookup id).map fun vector => ⟨vector, Digests.vector vector⟩).or
        directory.deleteVectors[id]? := by
  rw [← getElem?_foldl_insert_entries hvectors]
  congr 1
  unfold addVectors
  exact (foldl_hom deleteVectors fun _ _ => rfl).symm

end Rewritten

/-! ## The merged rows -/

/-- A snapshot whose files are in place. -/
structure Intact (disk : Disk) (snapshot : TableSnapshot) : Prop where
  valid : SnapshotValid snapshot
  files : FilesOk disk disk.databaseId snapshot.toTableManifest

variable {snapshot : TableSnapshot}

theorem Intact.vectorOf {disk : Disk} (h : Intact disk snapshot) {segment : NativeSegment}
    (hmem : segment ∈ snapshot.segments) :
    ∃ vector, disk.vectorOf snapshot.tableId segment = .ok vector := by
  obtain ⟨file, hstored⟩ := h.files.segments segment hmem
  exact hstored.vectorOf_eq_ok

theorem Intact.readable {disk : Disk} (h : Intact disk snapshot) : Readable disk snapshot :=
  ⟨h.valid.nodup, fun _ hmem => h.vectorOf hmem⟩

section Rows

variable {disk : Disk} {base current transaction : TableSnapshot} {merge : Merge}

/-- Whether a rebased snapshot shows a row of a segment of the merge. -/
def mergedDeleted (disk : Disk) (tableId : Uuid) (merge : Merge)
    (segment : NativeSegment) (offset : Nat) : Bool :=
  match merge.vectors.lookup segment.segmentId with
  | none => disk.isDeleted tableId segment offset
  | some vector => vector.contains offset

/-- The rows that the merge shows. -/
def mergedRows (disk : Disk) (tableId : Uuid) (merge : Merge) : Set RowId :=
  {row | ∃ segment ∈ merge.segments, ∃ offset, row = segment.row offset ∧
    offset < segment.rows ∧ mergedDeleted disk tableId merge segment offset = false}

/-- The rows of the segments of a snapshot, deleted or not. -/
def oldRows (snapshot : TableSnapshot) : Set RowId :=
  {row | row.segmentId ∈ segmentIds snapshot}

/-- The rows that a snapshot shows. -/
def shown (disk : Disk) (snapshot : TableSnapshot) : Set RowId :=
  {row | row ∈ disk.visibleRows snapshot.toTableManifest}

/-- The version deletes every row of a segment of `base` that `base` deletes. -/
def KeepsDeletions (disk : Disk) (base version : TableSnapshot) : Prop :=
  Shrinks (oldRows base) (shown disk base) (shown disk version)

theorem sameDataFile_row {left right : NativeSegment}
    (h : sameDataFile left right = true) (offset : Nat) :
    right.row offset = left.row offset ∧ right.rows = left.rows := by
  unfold sameDataFile at h
  rw [decide_eq_true_iff] at h
  obtain ⟨hid, hversion, hsnapshot, -, -, hrows, -⟩ := h
  refine ⟨?_, hrows.symm⟩
  unfold row owner
  rw [hid, hversion, hsnapshot]

variable {segment kept : NativeSegment} {offset : Nat}

/-- The segment with the id of a segment of `base` is the one that was kept. -/
theorem sameDataFile_of_segmentId_eq {other : TableSnapshot} (hnodup : (segmentIds other).Nodup)
    (hkeeps : KeepsSegments base other) (hsegment : segment ∈ base.segments)
    (hkept : kept ∈ other.segments) (hid : kept.segmentId = segment.segmentId) :
    sameDataFile segment kept = true := by
  obtain ⟨kept', hkept', hsame⟩ := hkeeps segment hsegment
  obtain rfl := inj_on_of_nodup_map hnodup hkept hkept'
    (hid.trans (sameDataFile_segmentId hsame).symm)
  exact hsame

theorem sameTable_tableId (h : sameTable base current transaction = true) :
    current.tableId = base.tableId ∧ transaction.tableId = base.tableId := by
  unfold sameTable at h
  rw [decide_eq_true_iff] at h
  exact ⟨h.1.symm, h.2.1.symm⟩

theorem Intact.row_mem_shown (h : Intact disk snapshot)
    (hmem : segment ∈ snapshot.segments) :
    segment.row offset ∈ shown disk snapshot ↔ offset < segment.rows ∧
      disk.isDeleted snapshot.tableId segment offset = false :=
  row_mem_visibleRows h.valid.nodup hmem

theorem Intact.row_mem_shown_of_same (h : Intact disk snapshot)
    (hid : snapshot.tableId = base.tableId) (hkept : kept ∈ snapshot.segments)
    (hsame : sameDataFile segment kept = true) :
    segment.row offset ∈ shown disk snapshot ↔ offset < segment.rows ∧
      disk.isDeleted base.tableId kept offset = false := by
  obtain ⟨hrow, hrows⟩ := sameDataFile_row hsame offset
  rw [← hrow, ← hrows, h.row_mem_shown hkept, hid]

/-- No segment of the transaction alone has a rewritten vector. -/
theorem MergedAs.lookup_eq_none (h : MergedAs disk base current transaction merge) {id : Uuid}
    (hnew : id ∉ segmentIds base) : merge.vectors.lookup id = none := by
  rw [Lib.lookup_eq_none]
  intro hin
  obtain ⟨entry, hentry, rfl⟩ := mem_map.mp hin
  obtain ⟨old, hold, hid, -⟩ := h.vector _ hentry
  exact hnew (mem_map.mpr ⟨old, hold, hid⟩)

/-- A merge of snapshots with their files. -/
structure Merges (disk : Disk) (base current transaction : TableSnapshot) (merge : Merge) :
    Prop where
  mergeable : Mergeable disk base current transaction
  merged : MergedAs disk base current transaction merge
  current : Intact disk current
  transaction : Intact disk transaction

namespace Merges

variable (h : Merges disk base current transaction merge)

include h

variable {segment : NativeSegment}

/-- The rows that the merge leaves in the segments of `current`. -/
theorem mergedDeleted_of_mem_current {offset : Nat} (hkeeps : KeepsDeletions disk base current)
    (hmem : segment ∈ current.segments) (hlt : offset < segment.rows) :
    mergedDeleted disk base.tableId merge segment offset = false ↔
      segment.row offset ∈ shown disk current ∧
        ¬ (segment.row offset ∈ shown disk base ∧
          segment.row offset ∉ shown disk transaction) := by
  obtain ⟨hidc, hidt⟩ := sameTable_tableId h.mergeable.same
  have hshown : segment.row offset ∈ shown disk current ↔
      disk.isDeleted base.tableId segment offset = false := by
    rw [h.current.row_mem_shown hmem, hidc]
    exact and_iff_right hlt
  unfold mergedDeleted
  cases hlookup : merge.vectors.lookup segment.segmentId with
  | some vector =>
    -- A rewritten vector has what either side deleted.
    obtain ⟨old, hold, hid, -, -, -, hcontains⟩ :=
      h.merged.vector _ ((lookup_eq_some h.merged.nodup).mp hlookup)
    obtain ⟨kept, hkept, hsame⟩ := h.mergeable.transaction_keeps old hold
    have hsame' := sameDataFile_of_segmentId_eq h.current.valid.nodup
      h.mergeable.current_keeps hold hmem hid.symm
    obtain ⟨hrow, hrows⟩ := sameDataFile_row hsame' offset
    have ht : segment.row offset ∈ shown disk transaction ↔
        disk.isDeleted base.tableId kept offset = false := by
      rw [hrow, h.transaction.row_mem_shown_of_same hidt hkept hsame]
      exact and_iff_right (by omega)
    dsimp only
    rw [hcontains segment hmem kept hkept rfl ((sameDataFile_segmentId hsame).trans hid)
      offset (by omega), Bool.or_eq_false_iff, ← hshown, ← ht]
    constructor
    · rintro ⟨hc, hyes⟩
      exact ⟨hc, fun hno => hno.2 hyes⟩
    · rintro ⟨hc, hno⟩
      refine ⟨hc, by_contra fun hnot => hno ⟨hkeeps _ hc ?_, hnot⟩⟩
      exact mem_map.mpr ⟨old, hold, hid⟩
  | none =>
    -- A segment without a rewritten vector has no row that the transaction deleted.
    rw [lookup_eq_none] at hlookup
    refine ⟨fun hdel => ⟨hshown.mpr hdel, ?_⟩, fun hc => hshown.mp hc.1⟩
    rintro ⟨hb, ht⟩
    obtain ⟨old, hold, offset', hrow, hlt', hdel⟩ := mem_visibleRows.mp hb
    obtain ⟨kept, hkept, hsame⟩ := h.mergeable.transaction_keeps old hold
    refine ht ?_
    rw [hrow, h.transaction.row_mem_shown_of_same hidt hkept hsame]
    refine ⟨hlt', ?_⟩
    by_contra hyes
    rw [Bool.not_eq_false] at hyes
    have hid : segment.segmentId = old.segmentId := congrArg RowId.segmentId hrow
    rw [h.merged.untouched old hold kept hkept (sameDataFile_segmentId hsame)
      (hid ▸ hlookup) offset' hlt' hyes] at hdel
    cases hdel

/-- The rows that the merge shows in the segments of the transaction. -/
theorem mergedDeleted_of_notMem_base {offset : Nat} (hmem : segment ∈ transaction.segments)
    (hnew : segment.segmentId ∉ segmentIds base) (hlt : offset < segment.rows) :
    mergedDeleted disk base.tableId merge segment offset = false ↔
      segment.row offset ∈ shown disk transaction := by
  obtain ⟨-, hidt⟩ := sameTable_tableId h.mergeable.same
  rw [mergedDeleted, h.merged.lookup_eq_none hnew, h.transaction.row_mem_shown hmem, hidt]
  exact (and_iff_right hlt).symm

theorem mergedRows_eq (hkeeps : KeepsDeletions disk base current) :
    mergedRows disk base.tableId merge =
      ThreeWay.merge (oldRows base) (shown disk base) (shown disk current)
        (shown disk transaction) := by
  ext row
  rw [ThreeWay.mem_merge]
  constructor
  · rintro ⟨segment, hmem, offset, rfl, hlt, hdel⟩
    rw [h.merged.segments_eq, mem_append, mem_filter, decide_eq_true_iff] at hmem
    rcases hmem with hmem | ⟨hmem, hnew⟩
    · exact .inl ((h.mergedDeleted_of_mem_current hkeeps hmem hlt).mp hdel)
    · exact .inr ⟨(h.mergedDeleted_of_notMem_base hmem hnew hlt).mp hdel, hnew⟩
  · rintro (⟨hc, hno⟩ | ⟨ht, hnew⟩)
    · obtain ⟨segment, hmem, offset, rfl, hlt, -⟩ := mem_visibleRows.mp hc
      refine ⟨segment, ?_, offset, rfl, hlt,
        (h.mergedDeleted_of_mem_current hkeeps hmem hlt).mpr ⟨hc, hno⟩⟩
      rw [h.merged.segments_eq]
      exact mem_append_left _ hmem
    · obtain ⟨segment, hmem, offset, rfl, hlt, -⟩ := mem_visibleRows.mp ht
      refine ⟨segment, ?_, offset, rfl, hlt, (h.mergedDeleted_of_notMem_base hmem hnew hlt).mpr ht⟩
      rw [h.merged.segments_eq]
      exact mem_append_right _ (mem_filter.mpr ⟨hmem, decide_eq_true hnew⟩)

end Merges

end Rows

/-! ## The rebased snapshot -/

section Rebased

variable [Digests] {s₀ s : Database} {name : String} {base current transaction : TableSnapshot}
  {merge : Merge} {delta : Nat} {plan : NativeWritePlan}
  {published : NativePublishedSnapshot}

variable (merge) in
/-- The new directory takes the place of none. -/
theorem keepsData_diskWith {disk : Disk} {manifest : TableManifest}
    (hfree : manifest.key ∉ disk.snapshots) (key : SnapshotKey) :
    KeepsData disk (diskWith disk merge manifest) key := by
  intro directory hdirectory
  refine ⟨directory, getElem?_insert_eq_some.mpr (.inr ⟨?_, hdirectory⟩), rfl⟩
  rintro rfl
  exact hfree (mem_iff_exists_getElem?.mpr ⟨directory, hdirectory⟩)

/-- A rewritten vector is read from the new directory. -/
theorem vectorOf_rewritten {disk : Disk} {databaseId : Uuid} {segment : NativeSegment}
    {vector : DeleteVector} (hnodup : (merge.vectors.map Prod.fst).Nodup)
    (hlookup : merge.vectors.lookup segment.segmentId = some vector)
    (hmem : rewritten plan merge.vectors segment ∈
      (manifestOf databaseId plan merge delta).segments)
    (hfiles : FilesOk disk databaseId (manifestOf databaseId plan merge delta))
    (hdisk : disk.snapshots[(manifestOf databaseId plan merge delta).key]? =
      some (directoryOf merge (manifestOf databaseId plan merge delta))) :
    disk.vectorOf plan.tableId (rewritten plan merge.vectors segment) =
      .ok (some vector) := by
  rw [rewritten_of_lookup_eq_some hlookup] at hmem ⊢
  obtain ⟨file, hstored⟩ := hfiles.segments _ hmem
  obtain ⟨found, hfound⟩ := hstored.vector _ rfl
  refine vectorOf_eq_some.mpr ⟨_, rfl, ?_⟩
  obtain ⟨directory, hdirectory, hfile⟩ := hfound.file
  cases hdisk.symm.trans hdirectory
  have hget : (directoryOf merge (manifestOf databaseId plan merge
      delta)).deleteVectors[segment.segmentId]? = some ⟨vector, Digests.vector vector⟩ := by
    show (empty.addVectors merge.vectors).deleteVectors[_]? = _
    rw [getElem?_addVectors hnodup, hlookup]
    rfl
  cases hget.symm.trans hfile
  exact hfound

namespace Stores

variable (h : Stores s₀ name base current transaction merge delta plan published s)

include h

theorem plannedOn : PlannedOn plan current merge (s₀.nextUuid + 1) delta :=
  planOf_plannedOn h.computes.plan_eq

theorem keepsData (key : SnapshotKey) : KeepsData s₀.disk s.disk key := by
  have hkeeps := keepsData_diskWith merge h.rebased.free key
  unfold KeepsData at hkeeps ⊢
  rw [h.rebased.snapshots_eq]
  exact hkeeps

theorem files : FilesOk s.disk s₀.disk.databaseId
    (manifestOf s₀.disk.databaseId plan merge delta) :=
  h.rebased.stored.files

theorem directory_eq :
    s.disk.snapshots[(manifestOf s₀.disk.databaseId plan merge delta).key]? =
      some (directoryOf merge (manifestOf s₀.disk.databaseId plan merge delta)) := by
  rw [h.rebased.snapshots_eq]
  exact ExtTreeMap.getElem?_insert_self

theorem nodup_segments : (merge.segments.map segmentId).Nodup := by
  have hnodup := h.computes.built.valid.nodup
  change ((segmentsOf plan merge).map segmentId).Nodup at hnodup
  rw [segmentsOf, applyVectors_segmentId, h.plannedOn.inheritedSegments_eq] at hnodup
  exact hnodup

section

variable (hnodup : (merge.vectors.map Prod.fst).Nodup)
include hnodup

theorem segments_eq : (manifestOf s₀.disk.databaseId plan merge delta).segments =
      merge.segments.map (rewritten plan merge.vectors) := by
  show applyVectors plan merge.vectors plan.inheritedSegments = _
  rw [h.plannedOn.inheritedSegments_eq]
  exact applyVectors_eq_map h.nodup_segments hnodup

/-- The rebased snapshot deletes what the merge says. -/
theorem isDeleted_eq {segment : NativeSegment} (hmem : segment ∈ merge.segments)
    (hread : ∃ vector, s₀.disk.vectorOf current.tableId segment = .ok vector) (offset : Nat) :
    s.disk.isDeleted current.tableId (rewritten plan merge.vectors segment) offset =
      mergedDeleted s₀.disk current.tableId merge segment offset := by
  unfold mergedDeleted
  cases hlookup : merge.vectors.lookup segment.segmentId with
  | none =>
    obtain ⟨vector, hvector⟩ := hread
    rw [rewritten_of_lookup_eq_none hlookup]
    exact isDeleted_congr hvector (fun _ _ => h.keepsData _) offset
  | some vector =>
    have hmem' : rewritten plan merge.vectors segment ∈
        (manifestOf s₀.disk.databaseId plan merge delta).segments := by
      rw [h.segments_eq hnodup]
      exact mem_map_of_mem hmem
    have hvector := vectorOf_rewritten hnodup hlookup hmem' h.files h.directory_eq
    rw [h.plannedOn.tableId_eq] at hvector
    exact isDeleted_of_vectorOf hvector offset

theorem mem_visibleRows (hread : ∀ segment ∈ merge.segments,
      ∃ vector, s₀.disk.vectorOf current.tableId segment = .ok vector) {row : RowId} :
    row ∈ s.disk.visibleRows published.snapshot.toTableManifest ↔
      row ∈ mergedRows s₀.disk current.tableId merge := by
  rw [h.rebased.manifest_eq, Disk.mem_visibleRows, h.segments_eq hnodup]
  show (∃ segment ∈ merge.segments.map (rewritten plan merge.vectors), ∃ offset,
    row = segment.row offset ∧ offset < segment.rows ∧
      s.disk.isDeleted plan.tableId segment offset = false) ↔ _
  rw [h.plannedOn.tableId_eq]
  simp only [mem_map, exists_exists_and_eq_and]
  refine exists_congr fun segment => and_congr_right fun hmem =>
    exists_congr fun offset => ?_
  rw [h.isDeleted_eq hnodup hmem (hread segment hmem)]
  obtain ⟨deleteVector, heq⟩ := rewritten_eq plan merge.vectors segment
  rw [heq]
  rfl

end

end Stores

end Rebased

/-! ## Rebasing as a three-way merge -/

section Merges

variable {disk disk' : Disk} {snapshot base current transaction : TableSnapshot}

theorem Intact.congr (h : Intact disk snapshot)
    (hdatabase : disk'.databaseId = disk.databaseId)
    (hkeep : ∀ key, KeepsData disk disk' key) : Intact disk' snapshot :=
  ⟨h.valid, hdatabase ▸ h.files.congr fun _ _ => hkeep _⟩

theorem Intact.shown_congr (h : Intact disk snapshot)
    (hkeep : ∀ key, KeepsData disk disk' key) :
    shown disk' snapshot = shown disk snapshot := by
  ext row
  show row ∈ disk'.visibleRows _ ↔ row ∈ disk.visibleRows _
  rw [mem_visibleRows, mem_visibleRows]
  refine exists_congr fun segment => and_congr_right fun hmem =>
    exists_congr fun offset => ?_
  obtain ⟨vector, hvector⟩ := h.vectorOf hmem
  rw [isDeleted_congr hvector fun _ _ => hkeep _]

theorem Intact.rowAt_congr (h : Intact disk snapshot)
    (hkeep : ∀ key, KeepsData disk disk' key) {row : RowId}
    (hrow : row ∈ shown disk snapshot) :
    disk'.rowAt snapshot.tableId row = disk.rowAt snapshot.tableId row := by
  obtain ⟨content, hcontent⟩ := h.files.rowAt_isSome hrow
  rw [hcontent, Disk.rowAt_congr hcontent (hkeep _)]

/-- Both sides deleted a row that `base` shows, or one of them dropped or replaced a
segment of `base`. -/
def Conflict (disk : Disk) (base current transaction : TableSnapshot) : Prop :=
  (∃ row ∈ shown disk base, row ∉ shown disk current ∧ row ∉ shown disk transaction) ∨
  ¬ KeepsSegments base current ∨ ¬ KeepsSegments base transaction

instance : Decidable (KeepsSegments base current) :=
  inferInstanceAs (Decidable (∀ segment ∈ base.segments, ∃ kept ∈ current.segments, _))

instance : Decidable (Conflict disk base current transaction) :=
  inferInstanceAs (Decidable (
    (∃ row ∈ disk.visibleRows base.toTableManifest,
      row ∉ disk.visibleRows current.toTableManifest ∧
        row ∉ disk.visibleRows transaction.toTableManifest) ∨ _))

instance : Decidable (KeepsDeletions disk base current) :=
  inferInstanceAs (Decidable (∀ row ∈ disk.visibleRows current.toTableManifest,
    row.segmentId ∈ segmentIds base → row ∈ disk.visibleRows base.toTableManifest))

/-- What two writes need in order to be merged. -/
@[mk_iff] structure Compatible (disk : Disk) (base current transaction : TableSnapshot) :
    Prop where
  same : sameTable base current transaction = true
  peaceful : ¬ Conflict disk base current transaction
  added : ∀ segment ∈ transaction.segments, segment.segmentId ∉ segmentIds base →
    segment.segmentId ∉ segmentIds current

instance : Decidable (Compatible disk base current transaction) :=
  decidable_of_iff' _ (compatible_iff disk base current transaction)

theorem Compatible.symm (h : Compatible disk base current transaction) :
    Compatible disk base transaction current where
  same := by
    have hsame := h.same
    unfold sameTable at hsame ⊢
    rw [decide_eq_true_iff] at hsame ⊢
    exact ⟨hsame.2.1, hsame.1, hsame.2.2.2, hsame.2.2.1⟩
  peaceful := by
    rintro (⟨row, hrow, ht, hc⟩ | hdrop | hdrop)
    · exact h.peaceful (.inl ⟨row, hrow, hc, ht⟩)
    · exact h.peaceful (.inr (.inr hdrop))
    · exact h.peaceful (.inr (.inl hdrop))
  added := by
    intro segment hmem hnew hin
    obtain ⟨kept, hkept, hid⟩ := mem_map.mp hin
    exact h.added kept hkept (hid ▸ hnew) (mem_map.mpr ⟨segment, hmem, hid.symm⟩)

section

variable (hbase : Intact disk base) (hcurrent : Intact disk current)
  (htransaction : Intact disk transaction)

include hbase hcurrent htransaction

omit hbase in
theorem Conflict.not_mergeable (h : Conflict disk base current transaction) :
    ¬ Mergeable disk base current transaction := by
  intro hm
  obtain ⟨hidc, hidt⟩ := sameTable_tableId hm.same
  rcases h with ⟨row, hrow, hc, ht⟩ | hdrop | hdrop
  · obtain ⟨segment, hmem, offset, rfl, hlt, hdel⟩ := mem_visibleRows.mp hrow
    obtain ⟨kept, hkept, hsame⟩ := hm.current_keeps segment hmem
    obtain ⟨kept', hkept', hsame'⟩ := hm.transaction_keeps segment hmem
    rw [hcurrent.row_mem_shown_of_same hidc hkept hsame, not_and, Bool.not_eq_false] at hc
    refine ht ((htransaction.row_mem_shown_of_same hidt hkept' hsame').mpr ⟨hlt, ?_⟩)
    exact hm.disjoint segment hmem kept hkept kept' hkept' (sameDataFile_segmentId hsame)
      (sameDataFile_segmentId hsame') offset hlt hdel (hc hlt)
  · exact hdrop hm.current_keeps
  · exact hdrop hm.transaction_keeps

theorem Compatible.congr (h : Compatible disk base current transaction)
    (hkeep : ∀ key, KeepsData disk disk' key) :
    Compatible disk' base current transaction where
  same := h.same
  peaceful := by
    have hpeaceful := h.peaceful
    unfold Conflict at hpeaceful ⊢
    rw [hbase.shown_congr hkeep, hcurrent.shown_congr hkeep, htransaction.shown_congr hkeep]
    exact hpeaceful
  added := h.added

theorem Compatible.mergeable (h : Compatible disk base current transaction) :
    Mergeable disk base current transaction := by
  obtain ⟨hidc, hidt⟩ := sameTable_tableId h.same
  have hck := not_not.mp fun hno => h.peaceful (.inr (.inl hno))
  have htk := not_not.mp fun hno => h.peaceful (.inr (.inr hno))
  refine ⟨h.same, hck, htk, ?_, h.added⟩
  intro segment hmem kept hkept kept' hkept' hid hid' offset hlt hb hc
  by_contra ht
  rw [Bool.not_eq_false] at ht
  have hsame := sameDataFile_of_segmentId_eq hcurrent.valid.nodup hck hmem hkept hid
  have hsame' := sameDataFile_of_segmentId_eq htransaction.valid.nodup htk hmem hkept' hid'
  refine h.peaceful (.inl ⟨segment.row offset, ?_, ?_, ?_⟩)
  · exact (hbase.row_mem_shown hmem).mpr ⟨hlt, hb⟩
  · simp [hcurrent.row_mem_shown_of_same hidc hkept hsame, hc]
  · simp [htransaction.row_mem_shown_of_same hidt hkept' hsame', ht]

end

/-- The published snapshot shows the three-way merge of the rows, each row once and
with its contents. -/
structure ShowsMerge (disk : Disk) (base current transaction : TableSnapshot)
    (disk' : Disk) (published : TableSnapshot) : Prop where
  nodup : (disk'.visibleRows published.toTableManifest).Nodup
  rows : ∀ row, row ∈ shown disk' published ↔
    (row ∈ shown disk current ∧
      ¬ (row ∈ shown disk base ∧ row ∉ shown disk transaction)) ∨
    (row ∈ shown disk transaction ∧ row.segmentId ∉ segmentIds base)
  contents : ∀ row ∈ shown disk' published,
    disk'.rowAt published.tableId row = disk.rowAt base.tableId row

/-- A merge seen on a disk that has less data. -/
theorem ShowsMerge.of_keepsData {published : TableSnapshot} {disk'' : Disk}
    (h : ShowsMerge disk' base current transaction disk'' published)
    (hbase : Intact disk base) (hcurrent : Intact disk current)
    (htransaction : Intact disk transaction)
    (hsame : sameTable base current transaction = true)
    (hkeep : ∀ key, KeepsData disk disk' key) :
    ShowsMerge disk base current transaction disk'' published := by
  obtain ⟨hidc, hidt⟩ := sameTable_tableId hsame
  have hrows := h.rows
  rw [hbase.shown_congr hkeep, hcurrent.shown_congr hkeep, htransaction.shown_congr hkeep] at hrows
  refine ⟨h.nodup, hrows, fun row hrow => ?_⟩
  rw [h.contents row hrow]
  rcases (hrows row).mp hrow with ⟨hc, -⟩ | ⟨ht, -⟩
  · exact hidc ▸ hcurrent.rowAt_congr hkeep hc
  · exact hidt ▸ htransaction.rowAt_congr hkeep ht

theorem ShowsMerge.perm {first second : TableSnapshot} {disk₁ disk₂ : Disk}
    (h₁ : ShowsMerge disk base current transaction disk₁ first)
    (h₂ : ShowsMerge disk base transaction current disk₂ second)
    (hcurrent : KeepsDeletions disk base current)
    (htransaction : KeepsDeletions disk base transaction) :
    (disk₁.visibleRows first.toTableManifest).Perm
        (disk₂.visibleRows second.toTableManifest) ∧
      (disk₁.scan first.toTableManifest).Perm (disk₂.scan second.toTableManifest) := by
  have hold : shown disk base ⊆ oldRows base := by
    intro row hrow
    obtain ⟨segment, hmem, offset, rfl, -⟩ := mem_visibleRows.mp hrow
    exact mem_map.mpr ⟨segment, hmem, rfl⟩
  have hrows : ∀ row, row ∈ disk₁.visibleRows first.toTableManifest ↔
      row ∈ disk₂.visibleRows second.toTableManifest := by
    intro row
    refine (h₁.rows row).trans (Iff.trans ?_ (h₂.rows row).symm)
    exact Set.ext_iff.mp (merge_comm hold hcurrent htransaction) row
  have hperm := (perm_ext_iff_of_nodup h₁.nodup h₂.nodup).mpr hrows
  refine ⟨hperm, ?_⟩
  have hscan : disk₁.scan first.toTableManifest =
      (disk₁.visibleRows first.toTableManifest).filterMap (disk₂.rowAt second.tableId) := by
    refine filterMap_congr fun row hrow => ?_
    rw [h₁.contents row hrow, h₂.contents row ((hrows row).mp hrow)]
  rw [hscan]
  exact hperm.filterMap _

variable [Digests] {s₀ s : Database} {name : String} {merge : Merge} {delta : Nat}
  {plan : NativeWritePlan} {published : NativePublishedSnapshot}

theorem Stores.showsMerge
    (h : Stores s₀ name base current transaction merge delta plan published s)
    (hmerges : Merges s₀.disk base current transaction merge)
    (hkeeps : KeepsDeletions s₀.disk base current) :
    ShowsMerge s₀.disk base current transaction s.disk published.snapshot := by
  obtain ⟨hidc, hidt⟩ := sameTable_tableId hmerges.mergeable.same
  have hread : ∀ segment ∈ merge.segments,
      ∃ vector, s₀.disk.vectorOf current.tableId segment = .ok vector := by
    intro segment hmem
    rw [hmerges.merged.segments_eq, mem_append, mem_filter] at hmem
    rcases hmem with hmem | ⟨hmem, -⟩
    · exact hmerges.current.vectorOf hmem
    · rw [hidc, ← hidt]
      exact hmerges.transaction.vectorOf hmem
  have hrows : ∀ row, row ∈ shown s.disk published.snapshot ↔ row ∈ ThreeWay.merge
      (oldRows base) (shown s₀.disk base) (shown s₀.disk current)
      (shown s₀.disk transaction) := by
    intro row
    rw [← hmerges.mergedRows_eq hkeeps, ← hidc]
    exact h.mem_visibleRows hmerges.merged.nodup hread
  have htable : published.snapshot.tableId = base.tableId := by
    rw [h.rebased.manifest_eq, ← hidc]
    exact h.plannedOn.tableId_eq
  refine ⟨?_, hrows, fun row hrow => ?_⟩
  · rw [h.rebased.manifest_eq]
    exact nodup_visibleRows h.rebased.stored.accepted.valid.nodup
  · rw [htable]
    rcases (hrows row).mp hrow with ⟨hc, -⟩ | ⟨ht, -⟩
    · exact hidc ▸ hmerges.current.rowAt_congr h.keepsData hc
    · exact hidt ▸ hmerges.transaction.rowAt_congr h.keepsData ht

section Runs

variable (hbase : Intact s₀.disk base) (hcurrent : Intact s₀.disk current)
  (htransaction : Intact s₀.disk transaction) {script : List Outcome}
  {w : Scripted Database}

include hbase hcurrent htransaction

/-- A rebase that publishes a snapshot has found no conflict. -/
theorem merges_of_write
    (hrun : (write name base current transaction).run s₀ script =
      (.ok (some published), w)) :
    ∃ merge delta plan, Merges s₀.disk base current transaction merge ∧
      Stores s₀ name base current transaction merge delta plan published w.state := by
  obtain ⟨merge, hmerge, delta, plan, hstores⟩ := write_spec.of_run hrun
  have hfound := mergeOf_found hbase.readable hcurrent.readable htransaction.readable
  rw [hmerge] at hfound
  exact ⟨merge, delta, plan, ⟨hfound.1, hfound.2, hcurrent, htransaction⟩, hstores⟩

theorem not_mergeable_of_write
    (hrun : (write name base current transaction).run s₀ script = (.ok none, w)) :
    ¬ Mergeable s₀.disk base current transaction := by
  obtain ⟨-, hmerge⟩ := write_spec.of_run hrun
  have hfound := mergeOf_found hbase.readable hcurrent.readable htransaction.readable
  rw [hmerge] at hfound
  exact hfound

omit [Digests] in
/-- With vectors that fit, the merge is computed. -/
theorem mergeOf_eq_ok (hfits : ∀ segment ∈ base.segments, VectorFits segment) :
    mergeOf s₀.disk base current transaction = .ok none ∨
      ∃ merge, mergeOf s₀.disk base current transaction = .ok (some merge) ∧
        Merges s₀.disk base current transaction merge := by
  have hfound := mergeOf_found hbase.readable hcurrent.readable htransaction.readable
  generalize mergeOf s₀.disk base current transaction = result at hfound ⊢
  rcases result with e | _ | merge
  · obtain ⟨segment, hmem, hnot⟩ := hfound
    exact absurd (hfits segment hmem) hnot
  · exact .inl rfl
  · exact .inr ⟨merge, rfl, hfound.1, hfound.2, hcurrent, htransaction⟩

/-- A segment that was dropped or replaced is noticed before any call. -/
theorem write_of_dropped (hdrop : ¬ KeepsSegments base current ∨ ¬ KeepsSegments base transaction)
    (script : List Outcome) :
    (write name base current transaction).run s₀ script = (.ok none, ⟨s₀, script⟩) := by
  have hnot : comparable base current transaction = false := by
    rw [← Bool.not_eq_true, comparable_iff hbase.readable hcurrent.readable htransaction.readable]
    rintro ⟨-, hck, htk⟩
    exact hdrop.elim (· hck) (· htk)
  have hread : readMerge base current transaction = pure none := if_pos hnot
  unfold write
  rw [hread]
  rfl

/-- Without faults a conflict is found. -/
theorem write_eq_none (hconflict : Conflict s₀.disk base current transaction)
    (hfits : ∀ segment ∈ base.segments, VectorFits segment) :
    (write name base current transaction).run s₀ [] = (.ok none, ⟨s₀, []⟩) := by
  have hmerge : mergeOf s₀.disk base current transaction = .ok none := by
    rcases mergeOf_eq_ok hbase hcurrent htransaction hfits with hnone | ⟨_, -, hmerges⟩
    · exact hnone
    · exact absurd hmerges.mergeable (hconflict.not_mergeable hcurrent htransaction)
  have hnofail : ¬ Fails s₀ name base current transaction := by
    rintro (⟨e, he⟩ | ⟨merge, hm, -⟩)
    · cases hmerge.symm.trans he
    · cases hmerge.symm.trans hm
  obtain ⟨r, s', hrun, hwrote⟩ := write_spec.run_nil_ok rfl fun _ _ h => h.2.elim id hnofail
  cases r with
  | none =>
    obtain ⟨rfl, -⟩ := hwrote
    exact hrun
  | some published =>
    obtain ⟨merge, hm, -⟩ := hwrote
    cases hmerge.symm.trans hm

theorem showsMerge_of_write (hkeeps : KeepsDeletions s₀.disk base current)
    (hrun : (write name base current transaction).run s₀ script =
      (.ok (some published), w)) :
    ShowsMerge s₀.disk base current transaction w.state.disk published.snapshot := by
  obtain ⟨merge, delta, plan, hmerges, hstores⟩ :=
    merges_of_write hbase hcurrent htransaction hrun
  exact hstores.showsMerge hmerges hkeeps

end Runs

theorem rebase_is_three_way_merge (name : String) (hbase : Intact s₀.disk base)
    (hcurrent : Intact s₀.disk current) (htransaction : Intact s₀.disk transaction) :
    (KeepsDeletions s₀.disk base current → ∀ script published w,
      (write name base current transaction).run s₀ script = (.ok (some published), w) →
      ShowsMerge s₀.disk base current transaction w.state.disk published.snapshot) ∧
    (¬ KeepsSegments base current ∨ ¬ KeepsSegments base transaction →
      ∀ script, (write name base current transaction).run s₀ script =
        (.ok none, ⟨s₀, script⟩)) ∧
    (Conflict s₀.disk base current transaction →
      ((∀ segment ∈ base.segments, VectorFits segment) →
        (write name base current transaction).run s₀ [] = (.ok none, ⟨s₀, []⟩)) ∧
      ∀ script published w,
        (write name base current transaction).run s₀ script ≠
          (.ok (some published), w)) ∧
    (Compatible s₀.disk base current transaction →
      KeepsDeletions s₀.disk base current → KeepsDeletions s₀.disk base transaction →
      ∀ s₁, s₁.disk.databaseId = s₀.disk.databaseId →
      (∀ key, KeepsData s₀.disk s₁.disk key) → ∀ script script' r r' w w',
      (write name base current transaction).run s₀ script = (.ok r, w) →
      (write name base transaction current).run s₁ script' = (.ok r', w') →
      ∃ first second, r = some first ∧ r' = some second ∧
        (w.state.disk.visibleRows first.snapshot.toTableManifest).Perm
          (w'.state.disk.visibleRows second.snapshot.toTableManifest) ∧
        (w.state.disk.scan first.snapshot.toTableManifest).Perm
          (w'.state.disk.scan second.snapshot.toTableManifest)) := by
  refine ⟨fun hkeeps script published w hrun =>
    showsMerge_of_write hbase hcurrent htransaction hkeeps hrun, fun hdrop script =>
    write_of_dropped hbase hcurrent htransaction hdrop script, fun hconflict =>
    ⟨write_eq_none hbase hcurrent htransaction hconflict, ?_⟩, ?_⟩
  · intro script published w hrun
    obtain ⟨_, -, -, hmerges, -⟩ := merges_of_write hbase hcurrent htransaction hrun
    exact hconflict.not_mergeable hcurrent htransaction hmerges.mergeable
  · intro hcompatible hkeepsC hkeepsT s₁ hdatabase hkeep script script' r r' w w' hrun hrun'
    have hbase₁ := hbase.congr hdatabase hkeep
    have hcurrent₁ := hcurrent.congr hdatabase hkeep
    have htransaction₁ := htransaction.congr hdatabase hkeep
    have hmergeable := hcompatible.mergeable hbase hcurrent htransaction
    have hmergeable₁ := (hcompatible.symm.congr hbase htransaction hcurrent
      hkeep).mergeable hbase₁ htransaction₁ hcurrent₁
    cases r with
    | none =>
      exact absurd hmergeable (not_mergeable_of_write hbase hcurrent htransaction hrun)
    | some first =>
    cases r' with
    | none =>
      exact absurd hmergeable₁ (not_mergeable_of_write hbase₁ htransaction₁ hcurrent₁ hrun')
    | some second =>
    have hkeepsT₁ : KeepsDeletions s₁.disk base transaction := by
      unfold KeepsDeletions
      rw [hbase.shown_congr hkeep, htransaction.shown_congr hkeep]
      exact hkeepsT
    have hfirst := showsMerge_of_write hbase hcurrent htransaction hkeepsC hrun
    have hsecond := (showsMerge_of_write hbase₁ htransaction₁ hcurrent₁ hkeepsT₁
      hrun').of_keepsData hbase htransaction hcurrent hcompatible.symm.same hkeep
    exact ⟨first, second, rfl, rfl, hfirst.perm hsecond hkeepsC hkeepsT⟩

end Merges

/-! ### A table with two rows -/

/-- Digests that tell the vectors and the manifests of the samples apart. -/
@[reducible] def sampleDigests : Digests where
  vector vector := vector.bits.foldl (fun digest byte => digest * 256 + byte.toNat) vector.rowCount
  manifest manifest := manifest.snapshotId

attribute [local instance] sampleDigests

/-- The table of the examples. -/
def sampleSchema : Schema := [{ name := "x", dataType := .int 64, nullable := true }]

/-- The calls of a statement of a transaction that writes delete vectors and segments
with the given rows to the table `t`, up to the publication. -/
def prepareSample (mode : NativeWriteMode) (existing : Option TableSnapshot)
    (vectors : List (Uuid × DeleteVector)) (segments : List (List Row)) :
    Program PreparedSnapshot := do
  let database ← get
  let plan ← planTransactionWrite "t" mode database.state.catalog.generation existing
    database.state.catalog.schemas sampleSchema 0
  let writer ← NativeTableWriter.begin plan
  let writer ← writer.writeDeleteVectors vectors
  let writer ← writer.writeSegments (segments.map fun rows =>
    { file := { rows, rowGroups := 1, bytes := 64, sha256 := 0 }, inputBytes := 64 })
  writer.finish

/-- The same statement, published. -/
def stageSample (mode : NativeWriteMode) (existing : Option TableSnapshot)
    (vectors : List (Uuid × DeleteVector)) (segments : List (List Row)) :
    Program NativePublishedSnapshot := do
  let prepared ← prepareSample mode existing vectors segments
  publishTransactionWrite prepared

/-- A delete vector for two rows. -/
def deleting (offsets : List Nat) : Except Error DeleteVector := do
  let vector ← DeleteVector.empty 2
  offsets.foldlM DeleteVector.markDeleted vector

/-- `UPDATE` of the first segment of a snapshot, with all the rows deleted there. -/
def updateSample (snapshot : TableSnapshot) (offsets : List Nat)
    (segments : List (List Row)) : Program TableSnapshot := do
  let vector ← lift (deleting offsets)
  let segmentId := (segmentIds snapshot).headD 0
  let published ← stageSample .update (some snapshot) [(segmentId, vector)] segments
  pure published.snapshot

/-- Two transactions that update different rows of one table. -/
def disjointUpdates : Program (TableSnapshot × TableSnapshot × TableSnapshot) := do
  let base ← stageSample .create none [] [["a", "b"]]
  let first ← updateSample base.snapshot [0] [["c"]]
  let second ← updateSample base.snapshot [1] [["d"]]
  pure (base.snapshot, first, second)

/-- The disk has the snapshot as it is in memory. -/
def readsBack (disk : Disk) (snapshot : TableSnapshot) : Bool :=
  match disk.readSnapshot disk.databaseId snapshot.tableReference with
  | .ok found => found.toTableManifest = snapshot.toTableManifest ∧
      found.physicalRowCount = snapshot.physicalRowCount
  | .error _ => false

theorem stored_of_readsBack {disk : Disk} (h : readsBack disk snapshot = true) :
    Stored disk disk.databaseId snapshot.tableReference snapshot.toTableManifest := by
  unfold readsBack at h
  split at h
  · rename_i found hfound
    obtain ⟨manifest, hstored, rfl⟩ := readSnapshot_eq_ok.mp hfound
    have hmanifest : manifest = snapshot.toTableManifest := (of_decide_eq_true h).1
    exact hmanifest ▸ hstored
  · cases h

theorem Intact.of_readsBack {disk : Disk} (h : readsBack disk snapshot = true) :
    Intact disk snapshot := by
  have hfiles := (stored_of_readsBack h).files
  unfold readsBack at h
  split at h
  · rename_i found hfound
    obtain ⟨manifest, hstored, rfl⟩ := readSnapshot_eq_ok.mp hfound
    have ⟨hmanifest, hrows⟩ := of_decide_eq_true h
    exact ⟨hstored.accepted.valid.of_manifest_eq hmanifest.symm hrows.symm, hfiles⟩
  · cases h

theorem disjoint_updates_merge_either_way :
    ∃ s base first second published published' w w',
      disjointUpdates.value? (.created 0) = some ((base, first, second), s) ∧
      (write "t" base first second).run s [] = (.ok (some published), w) ∧
      (write "t" base second first).run s [] = (.ok (some published'), w') ∧
      ShowsMerge s.disk base first second w.state.disk published.snapshot ∧
      (w.state.disk.scan published.snapshot.toTableManifest).Perm
        (w'.state.disk.scan published'.snapshot.toTableManifest) := by
  have hsample : (disjointUpdates.value? (.created 0)).any (fun x =>
      readsBack x.2.disk x.1.1 && readsBack x.2.disk x.1.2.1 &&
      readsBack x.2.disk x.1.2.2 &&
      decide (Compatible x.2.disk x.1.1 x.1.2.1 x.1.2.2) &&
      decide (KeepsDeletions x.2.disk x.1.1 x.1.2.1) &&
      decide (KeepsDeletions x.2.disk x.1.1 x.1.2.2) &&
      ((write "t" x.1.1 x.1.2.1 x.1.2.2).value? x.2).isSome &&
      ((write "t" x.1.1 x.1.2.2 x.1.2.1).value? x.2).isSome) = true := by
    decide +kernel
  obtain ⟨⟨⟨base, first, second⟩, s⟩, hrun, hsample⟩ := (Option.any_eq_true ..).mp hsample
  simp only [Bool.and_eq_true, decide_eq_true_eq, Option.isSome_iff_exists] at hsample
  obtain ⟨⟨⟨⟨⟨⟨⟨hb, hf⟩, hs⟩, hcompatible⟩, hkf⟩, hks⟩, ⟨r, s₁⟩, hr⟩, ⟨r', s₂⟩, hr'⟩ :=
    hsample
  obtain ⟨script, hr⟩ := exists_run_of_value? hr
  obtain ⟨script', hr'⟩ := exists_run_of_value? hr'
  obtain ⟨hmerge, -, -, hcomm⟩ := rebase_is_three_way_merge "t"
    (.of_readsBack hb) (.of_readsBack hf) (.of_readsBack hs)
  obtain ⟨published, published', rfl, rfl, -, hperm⟩ := hcomm hcompatible hkf hks s rfl
    (fun key => .refl key) [] [] r r' _ _ hr hr'
  exact ⟨s, base, first, second, published, published', _, _, hrun, hr, hr',
    hmerge hkf [] published _ hr, hperm⟩

/-- A snapshot, one from before its deletion and one that deletes more. -/
def resurrection : Program (TableSnapshot × TableSnapshot × TableSnapshot) := do
  let older ← stageSample .create none [] [["a", "b"]]
  let base ← updateSample older.snapshot [0] []
  let transaction ← updateSample base [0, 1] []
  pure (base, older.snapshot, transaction)

theorem row_deleted_in_base_is_lost :
    ∃ s base current transaction published w row,
      resurrection.value? (.created 0) = some ((base, current, transaction), s) ∧
      Intact s.disk base ∧ Intact s.disk current ∧ Intact s.disk transaction ∧
      sameTable base current transaction = true ∧
      (write "t" base current transaction).run s [] = (.ok (some published), w) ∧
      row ∈ shown s.disk current ∧ row ∉ shown s.disk base ∧
      row ∉ shown w.state.disk published.snapshot := by
  have hsample : (resurrection.value? (.created 0)).any (fun x =>
      readsBack x.2.disk x.1.1 && readsBack x.2.disk x.1.2.1 &&
      readsBack x.2.disk x.1.2.2 && sameTable x.1.1 x.1.2.1 x.1.2.2 &&
      ((write "t" x.1.1 x.1.2.1 x.1.2.2).value? x.2).any fun y => y.1.any fun published =>
        (x.2.disk.visibleRows x.1.2.1.toTableManifest).any fun row =>
          decide (row ∉ x.2.disk.visibleRows x.1.1.toTableManifest) &&
          decide (row ∉ y.2.disk.visibleRows published.snapshot.toTableManifest)) =
      true := by
    decide +kernel
  obtain ⟨⟨⟨base, current, transaction⟩, s⟩, hrun, hsample⟩ :=
    (Option.any_eq_true ..).mp hsample
  simp only [Bool.and_eq_true, Option.any_eq_true, any_eq_true, decide_eq_true_eq] at hsample
  obtain ⟨⟨⟨⟨hb, hc⟩, ht⟩, hsame⟩, ⟨r, s₁⟩, hr, published, rfl, row, hrow⟩ := hsample
  obtain ⟨script, hr⟩ := exists_run_of_value? hr
  exact ⟨s, base, current, transaction, published, _, row, hrun, .of_readsBack hb,
    .of_readsBack hc, .of_readsBack ht, hsame, hr, hrow⟩

end Rebase

end RustDb.Native
