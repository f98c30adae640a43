import RustDb.Lib.ThreeWay
import RustDb.Native.Publish
import RustDb.Native.Rows

/-!
# Rebasing a write on a newer snapshot

A transaction that wrote to a table which another commit has changed since is
rebased: its deletions and its new segments are merged into the current snapshot.

* `readMerge` is the first half of `rebase::write`, which only reads: it finds a
  conflict or the merged delete vectors and segments.  `writeMerged` is the second
  half, which writes a new snapshot and publishes it.
* `Mergeable` says when there is no conflict, and `MergedVector` what a rewritten
  delete vector has.
-/

namespace RustDb.Native

open Std RustDb.Lib Faulty List DeleteVector Bool

namespace Rebase

/-- The segments of a snapshot by their ids. -/
abbrev SegmentMap := ExtTreeMap Uuid NativeSegment compare

/-- The delete vectors of a snapshot by the ids of their segments. -/
abbrev VectorMap := ExtTreeMap Uuid (Option DeleteVector) compare

/-- The segments of a snapshot by their identity. -/
def segmentsById (snapshot : TableSnapshot) : SegmentMap :=
  ExtTreeMap.ofList
    (snapshot.segments.map fun segment => (segment.segmentId, segment)) compare

/-- The map that `vectors_by_id` collects. -/
def collectVectors (snapshot : TableSnapshot) (vectors : List (Option DeleteVector)) :
    VectorMap :=
  ExtTreeMap.ofList ((snapshot.segments.map NativeSegment.segmentId).zip vectors) compare

/-- The delete vectors of a snapshot by the identity of their segments. -/
def vectorsById (snapshot : TableSnapshot) : Program VectorMap := do
  let vectors ← Table.loadDeleteVectors snapshot
  pure (collectVectors snapshot vectors)

/-- Two descriptions of one data file. -/
def sameDataFile (left right : NativeSegment) : Bool :=
  left.segmentId = right.segmentId ∧ left.ownerVersion = right.ownerVersion ∧
    left.ownerSnapshotId = right.ownerSnapshotId ∧
    left.formatVersion = right.formatVersion ∧
    left.schemaFingerprint = right.schemaFingerprint ∧ left.rows = right.rows ∧
    left.bytes = right.bytes ∧ left.sha256 = right.sha256 ∧
    left.predicateSidecar = right.predicateSidecar

/-- The snapshots are of one table and have one schema. -/
def sameTable (base current transaction : TableSnapshot) : Bool :=
  base.tableId = current.tableId ∧ base.tableId = transaction.tableId ∧
    base.schema = current.schema ∧ base.schema = transaction.schema

/-- Every segment of `base` is still in `other`, with the same data file. -/
def preserves (base other : SegmentMap) : Bool :=
  base.toList.all fun (id, segment) => (other[id]?).any (sameDataFile segment ·)

/-- `vector.is_some_and(|vector| vector.contains(offset))`. -/
def deletes (vector : Option DeleteVector) (offset : Nat) : Bool :=
  vector.any (·.contains offset)

/-- The loop over the rows of one segment, with the merged vector so far and whether
the transaction deleted a row.  The result is `none` for a conflict. -/
def mergeOffsets (base current transaction : Option DeleteVector)
    (merged : DeleteVector) (changed : Bool) :
    List Nat → Except Error (Option (DeleteVector × Bool))
  | [] => .ok (some (merged, changed))
  | offset :: rest =>
    if deletes base offset = false ∧ deletes current offset = true ∧
        deletes transaction offset = true then .ok none
    else
      let changed := changed || (!deletes base offset && deletes transaction offset)
      if deletes current offset || deletes transaction offset then do
        let merged ← merged.markDeleted offset
        mergeOffsets base current transaction merged changed rest
      else mergeOffsets base current transaction merged changed rest

/-- The loop over the segments of `base`: the vectors to be rewritten, or `none` for
a conflict. -/
def mergeVectors (base current transaction : VectorMap) :
    List (Uuid × NativeSegment) → Except Error (Option (List (Uuid × DeleteVector)))
  | [] => .ok (some [])
  | (id, segment) :: rest => do
    let empty ← empty segment.rows
    let result ← mergeOffsets (base[id]?.join) (current[id]?.join)
      (transaction[id]?.join) empty false (List.range segment.rows)
    match result with
    | none => .ok none
    | some (merged, changed) => do
      let vectors ← mergeVectors base current transaction rest
      .ok (vectors.map fun vectors =>
        if changed then (id, merged) :: vectors else vectors)

/-- The loop over the segments of the transaction: those that are new go to the end,
and one that `current` has as well is a conflict. -/
def mergeSegments (base current : SegmentMap) (merged : List NativeSegment) :
    List NativeSegment → Option (List NativeSegment)
  | [] => some merged
  | segment :: rest =>
    if segment.segmentId ∈ base then mergeSegments base current merged rest
    else if segment.segmentId ∈ current then none
    else mergeSegments base current (merged ++ [segment]) rest

/-- What a merge without a conflict produces. -/
structure Merge where
  vectors : List (Uuid × DeleteVector)
  segments : List NativeSegment
deriving DecidableEq

/-- The merge of three snapshots whose vectors have been read. -/
def mergeWith (base current transaction : TableSnapshot)
    (baseVectors currentVectors transactionVectors : VectorMap) :
    Except Error (Option Merge) := do
  let vectors ← mergeVectors baseVectors currentVectors transactionVectors
    (segmentsById base).toList
  match vectors with
  | none => .ok none
  | some vectors =>
    .ok ((mergeSegments (segmentsById base) (segmentsById current) current.segments
      transaction.segments).map fun segments => { vectors, segments })

/-- Whether the merge looks at the delete vectors at all. -/
def comparable (base current transaction : TableSnapshot) : Bool :=
  sameTable base current transaction &&
    preserves (segmentsById base) (segmentsById current) &&
    preserves (segmentsById base) (segmentsById transaction)

/-- The part of `rebase::write` that only reads. -/
def readMerge (base current transaction : TableSnapshot) : Program (Option Merge) :=
  if comparable base current transaction = false then pure none
  else do
    let baseVectors ← vectorsById base
    let currentVectors ← vectorsById current
    let transactionVectors ← vectorsById transaction
    lift (mergeWith base current transaction baseVectors currentVectors
      transactionVectors)

/-- The source bytes that the transaction added. -/
def deltaSourceBytes (base transaction : TableSnapshot) : Except Error Nat :=
  match checkedSub transaction.sourceBytes base.sourceBytes with
  | none => .error (.internal "transaction source bytes regressed")
  | some delta => .ok delta

/-- The mode of the write that stores a merge. -/
def Merge.mode (merge : Merge) : NativeWriteMode :=
  if merge.vectors.isEmpty then .append else .update

/-- The storage that a rebased snapshot inherits. -/
def rebasedStorageBytes (plan : NativeWritePlan) (base transaction : TableSnapshot) :
    Except Error Nat :=
  orExhausted "rebased storage byte count overflow" (checkedAdd plan.inheritedStorageBytes
    (transaction.storageBytes - base.storageBytes))

/-- The plan of a write on top of the merged segments. -/
def rebasedPlan (plan : NativeWritePlan) (merge : Merge) (inheritedStorageBytes : Nat)
    (snapshotId : Uuid) : NativeWritePlan :=
  { plan with
    inheritedSegments := merge.segments
    inheritedStorageBytes
    snapshotId }

/-- Writes the merged snapshot and publishes it. -/
def storeMerged [Digests] (plan : NativeWritePlan) (merge : Merge) :
    Program NativePublishedSnapshot := do
  let writer ← NativeTableWriter.begin plan
  let writer ← Program.orClean (writer.writeDeleteVectors merge.vectors) writer.abort
    (.nativeStorage .root "rebased write cleanup failed")
  let prepared ← writer.finish
  publishTransactionWrite prepared

/-- The part of `rebase::write` that plans and stores the merged snapshot. -/
def writeMerged [Digests] (name : String) (base current transaction : TableSnapshot)
    (merge : Merge) : Program NativePublishedSnapshot := do
  let delta ← lift (deltaSourceBytes base transaction)
  let database ← get
  let catalog := database.state.catalog
  let plan ← planTransactionWrite name merge.mode catalog.generation (some current)
    catalog.schemas transaction.schema delta
  let inheritedStorageBytes ← lift (rebasedStorageBytes plan base transaction)
  let snapshotId ← Program.newUuid
  storeMerged (rebasedPlan plan merge inheritedStorageBytes snapshotId) merge

/-- `rebase::write`. -/
def write [Digests] (name : String) (base current transaction : TableSnapshot) :
    Program (Option NativePublishedSnapshot) := do
  let merge ← readMerge base current transaction
  match merge with
  | none => pure none
  | some merge => do
    let published ← writeMerged name base current transaction merge
    pure (some published)

/-! ## Merging delete vectors -/

section Vectors

variable {base current transaction : Option DeleteVector}

/-- A row that `base` shows and that both sides deleted. -/
def Clash (base current transaction : Option DeleteVector) (offset : Nat) : Prop :=
  deletes base offset = false ∧ deletes current offset = true ∧
    deletes transaction offset = true

/-- The transaction deleted the row. -/
def removes (base transaction : Option DeleteVector) (offset : Nat) : Bool :=
  !deletes base offset && deletes transaction offset

/-- The outcome of the loop over the rows of a segment. -/
def OffsetsMerged (base current transaction : Option DeleteVector)
    (merged : DeleteVector) (changed : Bool) (offsets : List Nat) :
    Except Error (Option (DeleteVector × Bool)) → Prop
  | .error _ => False
  | .ok none => ∃ x ∈ offsets, Clash base current transaction x
  | .ok (some (vector, changed')) =>
    (∀ x ∈ offsets, ¬ Clash base current transaction x) ∧
      vector.rowCount = merged.rowCount ∧ vector.Sound ∧
      (∀ x, vector.contains x = (merged.contains x || (decide (x ∈ offsets) &&
        (deletes current x || deletes transaction x)))) ∧
      changed' = (changed || offsets.any (removes base transaction))

/-- One more row at the front of the loop. -/
theorem OffsetsMerged.cons {merged merged' : DeleteVector} {changed : Bool} {offset : Nat}
    {rest : List Nat}
    {result : Except Error (Option (DeleteVector × Bool))}
    (h : OffsetsMerged base current transaction merged'
      (changed || removes base transaction offset) rest result)
    (hno : ¬ Clash base current transaction offset) (hrows : merged'.rowCount = merged.rowCount)
    (hcontains : ∀ x, merged'.contains x = (merged.contains x ||
      (decide (x = offset) && (deletes current x || deletes transaction x)))) :
    OffsetsMerged base current transaction merged changed (offset :: rest) result := by
  rcases result with e | _ | ⟨vector, changed'⟩
  · exact h
  · obtain ⟨x, hx, hclash⟩ := h
    exact ⟨x, mem_cons_of_mem _ hx, hclash⟩
  · obtain ⟨hclash, hrows', hsound, hcontains', hchanged⟩ := h
    refine ⟨forall_mem_cons.mpr ⟨hno, hclash⟩, hrows'.trans hrows, hsound, fun x => ?_, ?_⟩
    · rw [hcontains', hcontains, Bool.or_assoc, ← Bool.and_or_distrib_right, ← Bool.decide_or]
      simp only [mem_cons]
    · rw [hchanged, any_cons, Bool.or_assoc]

variable (base current transaction) in
theorem mergeOffsets_merged (offsets : List Nat) (merged : DeleteVector) (changed : Bool)
    (hsound : merged.Sound) (hsmall : merged.rowCount < u64Limit)
    (hlt : ∀ x ∈ offsets, x < merged.rowCount) :
    OffsetsMerged base current transaction merged changed offsets
      (mergeOffsets base current transaction merged changed offsets) := by
  induction offsets generalizing merged changed with
  | nil => exact ⟨by simp, rfl, hsound, by simp, by simp⟩
  | cons offset rest ih =>
    have hrest : ∀ x ∈ rest, x < merged.rowCount :=
      fun x hx => hlt x (mem_cons_of_mem _ hx)
    unfold mergeOffsets
    split
    · rename_i hclash
      exact ⟨offset, mem_cons_self .., hclash⟩
    rename_i hno
    dsimp only
    split
    · rename_i hmark
      obtain ⟨merged', hok, hsound', hrows, hcontains⟩ :=
        hsound.markDeleted hsmall (hlt offset (mem_cons_self ..))
      rw [hok]
      refine (ih merged' _ hsound' (hrows ▸ hsmall)
        (hrows ▸ hrest)).cons hno hrows fun x => ?_
      rw [hcontains]
      by_cases hx : x = offset
      · subst hx
        rw [hmark, Bool.and_true]
      · simp [hx]
    · rename_i hkeep
      rw [not_eq_true] at hkeep
      refine (ih merged _ hsound hsmall hrest).cons hno rfl fun x => ?_
      by_cases hx : x = offset
      · subst hx
        rw [hkeep, Bool.and_false, Bool.or_false]
      · simp [hx]

/-- A rewritten delete vector: what `current` or the transaction deleted, in a segment
in which the transaction deleted something. -/
structure MergedVector (base current transaction : Option DeleteVector) (rows : Nat)
    (vector : DeleteVector) : Prop where
  rowCount_eq : vector.rowCount = rows
  sound : vector.Sound
  contains_eq : ∀ x < rows,
    vector.contains x = (deletes current x || deletes transaction x)
  changed : ∃ x < rows, removes base transaction x = true

/-- A rewritten vector deletes something. -/
theorem MergedVector.deletedRows_pos {rows : Nat}
    (h : MergedVector base current transaction rows vector) : vector.deletedRows ≠ 0 := by
  obtain ⟨x, hx, hremoves⟩ := h.changed
  rw [h.sound.count, h.rowCount_eq]
  intro hzero
  refine countP_eq_zero.mp hzero x (mem_range.mpr hx) ?_
  rw [h.contains_eq x hx]
  simp only [removes, Bool.and_eq_true] at hremoves
  rw [hremoves.2, Bool.or_true]

end Vectors

section AllVectors

variable {base current transaction : VectorMap}

/-- `DeleteVector::empty` accepts the size of the segment. -/
def VectorFits (segment : NativeSegment) : Prop :=
  ∃ vector, empty segment.rows = .ok vector

/-- The outcome of the loop over the segments of `base`. -/
def VectorsMerged (base current transaction : VectorMap)
    (entries : List (Uuid × NativeSegment)) :
    Except Error (Option (List (Uuid × DeleteVector))) → Prop
  | .error _ => ∃ entry ∈ entries, ¬ VectorFits entry.2
  | .ok none => ∃ entry ∈ entries, ∃ x < entry.2.rows,
      Clash base[entry.1]?.join current[entry.1]?.join transaction[entry.1]?.join x
  | .ok (some vectors) =>
    (∀ entry ∈ entries, ∀ x < entry.2.rows, ¬ Clash base[entry.1]?.join
      current[entry.1]?.join transaction[entry.1]?.join x) ∧
    (vectors.map Prod.fst).Sublist (entries.map Prod.fst) ∧
    (∀ rewritten ∈ vectors, ∃ segment, (rewritten.1, segment) ∈ entries ∧
      MergedVector base[rewritten.1]?.join current[rewritten.1]?.join
        transaction[rewritten.1]?.join segment.rows rewritten.2) ∧
    ∀ entry ∈ entries, (∃ x < entry.2.rows, removes base[entry.1]?.join
      transaction[entry.1]?.join x = true) → entry.1 ∈ vectors.map Prod.fst

theorem empty_rowCount_lt {rows : Nat} {vector : DeleteVector}
    (h : empty rows = .ok vector) : rows < u64Limit := by
  unfold empty bitBytes at h
  obtain ⟨bytes, hbytes, -⟩ := bind_eq_ok.mp h
  split at hbytes
  · rename_i hadd
    obtain ⟨hlt, -⟩ := checkedAdd_eq_some.mp hadd
    omega
  · cases hbytes

variable (base current transaction) in
theorem mergeVectors_merged (entries : List (Uuid × NativeSegment)) :
    VectorsMerged base current transaction entries
      (mergeVectors base current transaction entries) := by
  induction entries with
  | nil => exact ⟨by simp, by simp, by simp, by simp⟩
  | cons entry rest ih =>
    obtain ⟨id, segment⟩ := entry
    unfold mergeVectors
    cases hempty : empty segment.rows with
    | error e =>
      refine ⟨(id, segment), mem_cons_self .., ?_⟩
      rintro ⟨vector, hvector⟩
      cases hvector.symm.trans hempty
    | ok empty =>
    obtain ⟨hrows, -, hnone⟩ := empty_spec hempty
    have hmerged := mergeOffsets_merged base[id]?.join current[id]?.join
      transaction[id]?.join (range segment.rows) empty false
      (empty_sound hempty) (hrows ▸ empty_rowCount_lt hempty)
      (fun x hx => hrows ▸ mem_range.mp hx)
    simp only [bind, Except.bind]
    generalize mergeOffsets base[id]?.join current[id]?.join transaction[id]?.join empty
      false (range segment.rows) = result at hmerged ⊢
    rcases result with e | _ | ⟨merged, changed⟩
    · exact hmerged.elim
    · obtain ⟨x, hx, hclash⟩ := hmerged
      exact ⟨(id, segment), mem_cons_self .., x, mem_range.mp hx, hclash⟩
    obtain ⟨hclash, hmrows, hsound, hcontains, hchanged⟩ := hmerged
    dsimp only
    generalize mergeVectors base current transaction rest = result at ih ⊢
    rcases result with e | _ | vectors
    · obtain ⟨entry, hentry, hfits⟩ := ih
      exact ⟨entry, mem_cons_of_mem _ hentry, hfits⟩
    · obtain ⟨entry, hentry, h⟩ := ih
      exact ⟨entry, mem_cons_of_mem _ hentry, h⟩
    obtain ⟨hclashes, hsub, hvectors, hall⟩ := ih
    have hclash' : ∀ x < segment.rows, ¬ Clash base[id]?.join current[id]?.join
        transaction[id]?.join x := fun x hx => hclash x (mem_range.mpr hx)
    have hold : ∀ rewritten ∈ vectors, ∃ segment', (rewritten.1, segment') ∈ (id, segment) :: rest ∧
        MergedVector base[rewritten.1]?.join current[rewritten.1]?.join
          transaction[rewritten.1]?.join segment'.rows rewritten.2 := by
      intro rewritten hmem
      obtain ⟨segment', hsegment, h⟩ := hvectors rewritten hmem
      exact ⟨segment', mem_cons_of_mem _ hsegment, h⟩
    rw [Bool.false_or] at hchanged
    show VectorsMerged _ _ _ _ (.ok (some (if changed = true then _ else _)))
    cases changed with
    | false =>
      refine ⟨forall_mem_cons.mpr ⟨hclash', hclashes⟩, hsub.cons _, hold, ?_⟩
      refine forall_mem_cons.mpr ⟨?_, hall⟩
      rintro ⟨x, hx, hremoves⟩
      have hno := any_eq_false.mp hchanged.symm x (mem_range.mpr hx)
      exact absurd hremoves hno
    | true =>
      obtain ⟨x, hx, hremoves⟩ := any_eq_true.mp hchanged.symm
      refine ⟨forall_mem_cons.mpr ⟨hclash', hclashes⟩, hsub.cons_cons _, ?_, ?_⟩
      · refine forall_mem_cons.mpr ⟨⟨segment, mem_cons_self .., ?_⟩, hold⟩
        refine ⟨hmrows.trans hrows, hsound, fun y hy => ?_, x, mem_range.mp hx, hremoves⟩
        rw [hcontains, hnone, Bool.false_or, decide_eq_true (mem_range.mpr hy), Bool.true_and]
      · refine forall_mem_cons.mpr ⟨fun _ => mem_cons_self .., ?_⟩
        exact fun entry hentry h => mem_cons_of_mem _ (hall entry hentry h)

end AllVectors

/-! ## The merge of three snapshots -/

section Merging

variable {disk : Disk} {snapshot base current transaction : TableSnapshot}

/-- The identities of the segments of a snapshot. -/
def segmentIds (snapshot : TableSnapshot) : List Uuid :=
  snapshot.segments.map NativeSegment.segmentId

variable {id : Uuid}

theorem mem_segmentsById : id ∈ segmentsById snapshot ↔ id ∈ segmentIds snapshot := by
  unfold segmentsById segmentIds
  rw [ExtTreeMap.mem_ofList, map_map, contains_iff_mem]
  rfl

theorem distinct_of_nodup {α : Type} {l : List (Uuid × α)}
    (h : (l.map Prod.fst).Nodup) :
    l.Pairwise fun a b => ¬ compare a.1 b.1 = .eq := by
  rw [List.Nodup, pairwise_map] at h
  exact h.imp fun hne heq => hne (Std.compare_eq_iff_eq.mp heq)

variable {segment : NativeSegment}

theorem getElem?_segmentsById (hnodup : (segmentIds snapshot).Nodup)
    (hmem : segment ∈ snapshot.segments) :
    (segmentsById snapshot)[segment.segmentId]? = some segment := by
  unfold segmentsById
  refine ExtTreeMap.getElem?_ofList_of_mem (Std.compare_eq_iff_eq.mpr rfl)
    (distinct_of_nodup ?_) (mem_map.mpr ⟨segment, hmem, rfl⟩)
  rw [map_map]
  exact hnodup

theorem segmentsById_eq_some (hnodup : (segmentIds snapshot).Nodup) :
    (segmentsById snapshot)[id]? = some segment ↔
      segment ∈ snapshot.segments ∧ segment.segmentId = id := by
  constructor
  · intro h
    have hmem : id ∈ segmentIds snapshot :=
      mem_segmentsById.mp (mem_iff_exists_getElem?.mpr ⟨segment, h⟩)
    obtain ⟨found, hfound, rfl⟩ := mem_map.mp hmem
    rw [getElem?_segmentsById hnodup hfound] at h
    cases h
    exact ⟨hfound, rfl⟩
  · rintro ⟨hmem, rfl⟩
    exact getElem?_segmentsById hnodup hmem

/-- A snapshot whose delete vectors can be read. -/
structure Readable (disk : Disk) (snapshot : TableSnapshot) : Prop where
  nodup : (segmentIds snapshot).Nodup
  vectors : ∀ segment ∈ snapshot.segments,
    ∃ vector, disk.vectorOf snapshot.tableId segment = .ok vector

/-- What `vectors_by_id` finds in the files. -/
def diskVectors (disk : Disk) (snapshot : TableSnapshot) : Except Error VectorMap := do
  let vectors ← snapshot.segments.mapM (disk.vectorOf snapshot.tableId)
  pure (collectVectors snapshot vectors)

/-- The map that `vectors_by_id` returns has the delete vector of every segment. -/
def HasVectors (disk : Disk) (snapshot : TableSnapshot) (vectors : VectorMap) : Prop :=
  ∀ segment ∈ snapshot.segments, ∀ offset, deletes vectors[segment.segmentId]?.join offset =
    disk.isDeleted snapshot.tableId segment offset

theorem Readable.diskVectors (h : Readable disk snapshot) :
    ∃ vectors, diskVectors disk snapshot = .ok vectors ∧
      HasVectors disk snapshot vectors := by
  obtain ⟨vectors, hvectors⟩ := exists_mapM_eq_ok h.vectors
  refine ⟨collectVectors snapshot vectors, by rw [Rebase.diskVectors, hvectors]; rfl, ?_⟩
  intro segment hmem offset
  have hforall := mapM_eq_ok.mp hvectors
  obtain ⟨vector, hzip, hv⟩ := exists_mem_zip_of_forall₂ hforall hmem
  have hget : (collectVectors snapshot vectors)[segment.segmentId]? = some vector := by
    unfold collectVectors
    refine ExtTreeMap.getElem?_ofList_of_mem (Std.compare_eq_iff_eq.mpr rfl)
      (distinct_of_nodup ?_) ?_
    · rw [map_fst_zip]
      · exact h.nodup
      · rw [length_map, hforall.length_eq]
    · rw [zip_map_left, mem_map]
      exact ⟨(segment, vector), hzip, rfl⟩
  rw [hget, Disk.isDeleted_of_vectorOf hv]
  rfl

/-- No segment of `base` was dropped or replaced in `other`. -/
def KeepsSegments (base other : TableSnapshot) : Prop :=
  ∀ segment ∈ base.segments, ∃ kept ∈ other.segments, sameDataFile segment kept = true

/-- There is no conflict between what was committed and what the transaction did. -/
structure Mergeable (disk : Disk) (base current transaction : TableSnapshot) : Prop where
  same : sameTable base current transaction = true
  current_keeps : KeepsSegments base current
  transaction_keeps : KeepsSegments base transaction
  disjoint : ∀ segment ∈ base.segments, ∀ kept ∈ current.segments,
    ∀ kept' ∈ transaction.segments, kept.segmentId = segment.segmentId →
    kept'.segmentId = segment.segmentId → ∀ offset < segment.rows,
    disk.isDeleted base.tableId segment offset = false →
    disk.isDeleted base.tableId kept offset = true →
    disk.isDeleted base.tableId kept' offset = false
  added : ∀ segment ∈ transaction.segments, segment.segmentId ∉ segmentIds base →
    segment.segmentId ∉ segmentIds current

/-- What a merge consists of. -/
structure MergedAs (disk : Disk) (base current transaction : TableSnapshot)
    (merge : Merge) : Prop where
  segments_eq : merge.segments = current.segments ++ transaction.segments.filter
    fun segment => segment.segmentId ∉ segmentIds base
  nodup : (merge.vectors.map Prod.fst).Nodup
  vector : ∀ rewritten ∈ merge.vectors, ∃ segment ∈ base.segments,
    segment.segmentId = rewritten.1 ∧ rewritten.2.rowCount = segment.rows ∧
    rewritten.2.Sound ∧ rewritten.2.deletedRows ≠ 0 ∧
    ∀ kept ∈ current.segments, ∀ kept' ∈ transaction.segments,
      kept.segmentId = rewritten.1 → kept'.segmentId = rewritten.1 →
      ∀ offset < segment.rows, rewritten.2.contains offset =
        (disk.isDeleted base.tableId kept offset ||
          disk.isDeleted base.tableId kept' offset)
  untouched : ∀ segment ∈ base.segments, ∀ kept ∈ transaction.segments,
    kept.segmentId = segment.segmentId →
    segment.segmentId ∉ merge.vectors.map Prod.fst → ∀ offset < segment.rows,
    disk.isDeleted base.tableId kept offset = true →
    disk.isDeleted base.tableId segment offset = true

/-- What the first half of `rebase::write` finds in the files. -/
def mergeOf (disk : Disk) (base current transaction : TableSnapshot) :
    Except Error (Option Merge) :=
  if comparable base current transaction = false then .ok none
  else do
    let baseVectors ← diskVectors disk base
    let currentVectors ← diskVectors disk current
    let transactionVectors ← diskVectors disk transaction
    mergeWith base current transaction baseVectors currentVectors transactionVectors

theorem reads_vectorsById (snapshot : TableSnapshot) :
    Program.Reads (vectorsById snapshot) (diskVectors · snapshot) := by
  refine Program.Reads.bind ?_ fun vectors => Program.Reads.pure _
  refine Program.Reads.mapM fun segment => ?_
  unfold Disk.vectorOf
  cases segment.deleteVector with
  | none => exact Program.Reads.pure _
  | some descriptor =>
    exact Program.Reads.bind (Program.Reads.inspect _ _) fun _ => Program.Reads.pure _

theorem reads_readMerge (base current transaction : TableSnapshot) :
    Program.Reads (readMerge base current transaction)
      (mergeOf · base current transaction) := by
  unfold readMerge mergeOf
  split
  · exact Program.Reads.pure _
  · refine Program.Reads.bind (reads_vectorsById base) fun _ => ?_
    refine Program.Reads.bind (reads_vectorsById current) fun _ => ?_
    refine Program.Reads.bind (reads_vectorsById transaction) fun _ => ?_
    exact Program.Reads.lift _

theorem sameDataFile_segmentId {left right : NativeSegment}
    (h : sameDataFile left right = true) : right.segmentId = left.segmentId := by
  unfold sameDataFile at h
  rw [decide_eq_true_iff] at h
  exact h.1.symm

theorem preserves_iff (hbase : (segmentIds base).Nodup)
    (hother : (segmentIds snapshot).Nodup) :
    preserves (segmentsById base) (segmentsById snapshot) = true ↔
      KeepsSegments base snapshot := by
  unfold preserves KeepsSegments
  simp only [all_eq_true, Prod.forall, ExtTreeMap.mem_toList_iff_getElem?_eq_some,
    segmentsById_eq_some hbase, Option.any_eq_true]
  constructor
  · intro h segment hmem
    obtain ⟨kept, hkept, hsame⟩ := h segment.segmentId segment ⟨hmem, rfl⟩
    exact ⟨kept, ((segmentsById_eq_some hother).mp hkept).1, hsame⟩
  · rintro h _ segment ⟨hmem, rfl⟩
    obtain ⟨kept, hkept, hsame⟩ := h segment hmem
    exact ⟨kept, (segmentsById_eq_some hother).mpr ⟨hkept, sameDataFile_segmentId hsame⟩, hsame⟩

theorem mergeSegments_eq {baseMap currentMap : SegmentMap} (merged : List NativeSegment)
    (segments : List NativeSegment) :
    mergeSegments baseMap currentMap merged segments =
      if ∀ segment ∈ segments, segment.segmentId ∉ baseMap →
          segment.segmentId ∉ currentMap
      then some (merged ++ segments.filter fun segment => segment.segmentId ∉ baseMap)
      else none := by
  induction segments generalizing merged with
  | nil => simp [mergeSegments]
  | cons segment rest ih =>
    unfold mergeSegments
    by_cases hbase : segment.segmentId ∈ baseMap
    · rw [if_pos hbase, ih]
      simp [hbase]
    · rw [if_neg hbase]
      by_cases hcurrent : segment.segmentId ∈ currentMap
      · rw [if_pos hcurrent, if_neg]
        exact fun h => h segment (mem_cons_self ..) hbase hcurrent
      · rw [if_neg hcurrent, ih]
        simp [hbase, hcurrent]

/-- What the first half of a rebase finds in readable snapshots. -/
def MergeFound (disk : Disk) (base current transaction : TableSnapshot) :
    Except Error (Option Merge) → Prop
  | .error _ => ∃ segment ∈ base.segments, ¬ VectorFits segment
  | .ok none => ¬ Mergeable disk base current transaction
  | .ok (some merge) => Mergeable disk base current transaction ∧
      MergedAs disk base current transaction merge

section

variable (hbase : Readable disk base) (hcurrent : Readable disk current)
  (htransaction : Readable disk transaction)

include hbase hcurrent htransaction

theorem comparable_iff : comparable base current transaction = true ↔
    sameTable base current transaction = true ∧ KeepsSegments base current ∧
      KeepsSegments base transaction := by
  unfold comparable
  rw [and_eq_true, and_eq_true, preserves_iff hbase.nodup hcurrent.nodup,
    preserves_iff hbase.nodup htransaction.nodup]
  tauto

theorem mergeOf_found :
    MergeFound disk base current transaction
      (mergeOf disk base current transaction) := by
  unfold mergeOf
  split
  · rename_i hcomparable
    intro h
    have hyes := (comparable_iff hbase hcurrent htransaction).mpr
      ⟨h.same, h.current_keeps, h.transaction_keeps⟩
    rw [hcomparable] at hyes
    cases hyes
  rename_i hcomparable
  rw [not_eq_false, comparable_iff hbase hcurrent htransaction] at hcomparable
  obtain ⟨hsame, hck, htk⟩ := hcomparable
  have hids := hsame
  unfold sameTable at hids
  rw [decide_eq_true_iff] at hids
  obtain ⟨hidc, hidt, -⟩ := hids
  obtain ⟨bv, hbv, hbd⟩ := hbase.diskVectors
  obtain ⟨cv, hcv, hcd⟩ := hcurrent.diskVectors
  obtain ⟨tv, htv, htd⟩ := htransaction.diskVectors
  unfold HasVectors at hbd hcd htd
  rw [← hidc] at hcd
  rw [← hidt] at htd
  rw [hbv, hcv, htv]
  show MergeFound disk base current transaction (mergeWith _ _ _ _ _ _)
  have hentry : ∀ entry ∈ (segmentsById base).toList,
      entry.2 ∈ base.segments ∧ entry.2.segmentId = entry.1 := fun entry hmem =>
    (segmentsById_eq_some hbase.nodup).mp (ExtTreeMap.mem_toList_iff_getElem?_eq_some.mp hmem)
  have hmem : ∀ segment ∈ base.segments,
      (segment.segmentId, segment) ∈ (segmentsById base).toList := fun segment h =>
    ExtTreeMap.mem_toList_iff_getElem?_eq_some.mpr (getElem?_segmentsById hbase.nodup h)
  have hmerged := mergeVectors_merged bv cv tv (segmentsById base).toList
  unfold mergeWith
  generalize mergeVectors bv cv tv (segmentsById base).toList = result at hmerged ⊢
  simp only [bind, Except.bind]
  rcases result with e | _ | vectors
  · obtain ⟨entry, hin, hfits⟩ := hmerged
    exact ⟨entry.2, (hentry entry hin).1, hfits⟩
  · intro h
    obtain ⟨entry, hin, x, hx, hb, hc, ht⟩ := hmerged
    obtain ⟨hseg, hid⟩ := hentry entry hin
    obtain ⟨kept, hkept, hkeptsame⟩ := hck _ hseg
    obtain ⟨kept', hkept', hkeptsame'⟩ := htk _ hseg
    have hkid := sameDataFile_segmentId hkeptsame
    have hkid' := sameDataFile_segmentId hkeptsame'
    rw [← hid, hbd _ hseg] at hb
    rw [← hid, ← hkid, hcd _ hkept] at hc
    rw [← hid, ← hkid', htd _ hkept'] at ht
    rw [h.disjoint _ hseg kept hkept kept' hkept' hkid hkid' x hx hb hc] at ht
    cases ht
  obtain ⟨hclash, hsub, hvectors, hall⟩ := hmerged
  dsimp only
  rw [mergeSegments_eq]
  split
  swap
  · rename_i hadded
    refine fun h => hadded fun segment hseg hnot => ?_
    rw [mem_segmentsById] at hnot ⊢
    exact h.added segment hseg hnot
  rename_i hadded
  refine ⟨⟨hsame, hck, htk, ?_, ?_⟩, ?_, ?_, ?_, ?_⟩
  · intro segment hseg kept hkept kept' hkept' hid hid' x hx hb hc
    by_contra ht
    rw [not_eq_false] at ht
    refine hclash _ (hmem segment hseg) x hx ⟨?_, ?_, ?_⟩
    · rw [hbd _ hseg, hb]
    · rw [← hid, hcd _ hkept, hc]
    · rw [← hid', htd _ hkept', ht]
  · intro segment hseg hnot
    have h := hadded segment hseg
    rw [mem_segmentsById, mem_segmentsById] at h
    exact h hnot
  · simp only [mem_segmentsById]
  · refine hsub.nodup ?_
    have hdistinct := ExtTreeMap.distinct_keys_toList (t := segmentsById base)
    rw [List.Nodup, pairwise_map]
    exact hdistinct.imp fun h heq => h (Std.compare_eq_iff_eq.mpr heq)
  · intro rewritten hin
    obtain ⟨segment, hsegment, hvector⟩ := hvectors rewritten hin
    obtain ⟨hseg, hid⟩ := hentry _ hsegment
    refine ⟨segment, hseg, hid, hvector.rowCount_eq, hvector.sound, hvector.deletedRows_pos, ?_⟩
    intro kept hkept kept' hkept' hkid hkid' x hx
    rw [hvector.contains_eq x hx, ← hcd _ hkept, ← htd _ hkept', hkid, hkid']
  · intro segment hseg kept hkept hid hnot x hx ht
    by_contra hb
    rw [not_eq_true] at hb
    refine hnot (hall _ (hmem segment hseg) ⟨x, hx, ?_⟩)
    unfold removes
    rw [hbd _ hseg, hb, ← hid, htd _ hkept, ht]
    rfl

end

end Merging

end Rebase

end RustDb.Native
