import RustDb.Native.RebasedRows

/-!
# When a rebase succeeds

* `Plannable` and `Sizes` are what the plan of a rebase needs: a valid catalog, and
  byte counters within their limits.
* `OwnersFit` is the condition on versions: the rebased snapshot has the version after
  the current one, and none of its files may have a later one.
-/

namespace RustDb.Native

open Std RustDb.Lib Faulty List ExtTreeMap DeleteVector SnapshotDirectory

namespace Rebase

variable {s₀ s : Database} {name : String} {base current transaction : TableSnapshot}
  {merge : Merge} {limit : Nat}

/-! ## Planning -/

/-- What planning a write to an existing table needs, apart from sizes. -/
@[mk_iff] structure Plannable (s₀ : Database) (name : String) (current : TableSnapshot) :
    Prop where
  internal : name ∉ s₀.state.externalSources
  columns : validateSchema [] current.schema = .ok ()
  catalog : CatalogValid s₀.state.catalog.schemas s₀.state.catalog.tables
    s₀.state.catalog.views
  present : name ∈ s₀.state.catalog.tables
  generation : s₀.state.catalog.generation + 1 < u64Limit
  version : current.version + 1 < u64Limit

/-- The source bytes of the retired versions of a table. -/
def retiredSource (s₀ : Database) (tableId : Uuid) : Nat :=
  ((s₀.state.retired.filter (·.tableId = tableId)).map RetiredSnapshot.sourceBytes).sum

/-- The storage of the retired versions of a table. -/
def retiredStorage (s₀ : Database) (tableId : Uuid) : Nat :=
  s₀.disk.storageBytes (s₀.state.retiredKeys tableId)

/-- The source bytes that the transaction added. -/
def addedSource (base transaction : TableSnapshot) : Nat :=
  transaction.sourceBytes - base.sourceBytes

/-- The storage that the rebased snapshot inherits. -/
def inheritedStorage (base current transaction : TableSnapshot) : Nat :=
  current.storageBytes + (transaction.storageBytes - base.storageBytes)

/-- The plan of the rebased snapshot, as it comes out. -/
def expectedPlan (s₀ : Database) (name : String)
    (base current transaction : TableSnapshot) (merge : Merge) (limit : Nat) :
    NativeWritePlan where
  name
  expectedGeneration := s₀.state.catalog.generation
  tableId := current.tableId
  version := current.version + 1
  snapshotId := s₀.nextUuid + 1
  parent := some current.tableReference
  operation := if merge.vectors.isEmpty then .append else .update
  schema := current.schema
  inheritedSourceBytes := current.sourceBytes
  newSourceBytes := addedSource base transaction
  retainedOldSourceBytes := retiredSource s₀ current.tableId
  retainedOldStorageBytes := retiredStorage s₀ current.tableId
  inheritedStorageBytes := inheritedStorage base current transaction
  newSnapshotLimit := limit
  inheritedSegments := merge.segments

/-- No byte counter of a rebase overflows, and no limit on storage is exceeded. -/
structure Sizes [Digests] (s₀ : Database) (name : String)
    (base current transaction : TableSnapshot) (merge : Merge) (limit : Nat) :
    Prop where
  retired : retiredSource s₀ current.tableId < u64Limit
  retained : retiredStorage s₀ current.tableId < u64Limit
  limit_eq : newSnapshotLimit current.sourceBytes (addedSource base transaction)
    current.storageBytes (retiredSource s₀ current.tableId)
    (retiredStorage s₀ current.tableId) = .ok limit
  inherited : inheritedStorage base current transaction < u64Limit
  vectors : vectorBytes merge.vectors ≤ limit
  final : checkLimits (expectedPlan s₀ name base current transaction merge limit)
    (addedSource base transaction) (vectorBytes merge.vectors)
    (current.sourceBytes + addedSource base transaction) = .ok ()
  totals : TotalsFit (snapshotOf s₀.disk.databaseId
    (expectedPlan s₀ name base current transaction merge limit) merge
    (addedSource base transaction))

theorem toAsciiLowercase_of_valid (h : nameIsInvalid name = false) :
    toAsciiLowercase name = name := by
  unfold nameIsInvalid at h
  simp only [Bool.or_eq_false_iff, any_eq_false, bne_iff_ne, ne_eq, Decidable.not_not] at h
  unfold toAsciiLowercase
  rw [map_congr_left h.1.2, map_id', String.ofList_toList]

namespace Plannable

variable (h : Plannable s₀ name current)

include h

theorem valid : nameIsInvalid name = false := by
  obtain ⟨reference, hreference⟩ := mem_iff_exists_getElem?.mp h.present
  exact (h.catalog.table_valid name reference hreference).1

/-- The catalog stays valid with a new version of the table. -/
theorem validatePlan_eq_ok (reference : TableReference) (hversion : reference.version ≠ 0) :
    validatePlan s₀.state (some s₀.state.catalog.schemas) name reference = .ok () := by
  unfold validatePlan validatePlannedUpdate
  refine bind_eq_ok.mpr ⟨s₀.state.catalog.generation + 1, ?_, ?_⟩
  · exact orExhausted_eq_ok.mpr (checkedAdd_eq_some.mpr ⟨h.generation, rfl⟩)
  refine validateCatalog_eq_ok.mpr ⟨h.catalog.defaultSchema_mem, h.catalog.schema_name, ?_, ?_, ?_⟩
  · intro other found hfound
    rw [ExtTreeMap.getElem?_insert] at hfound
    split at hfound
    · rename_i heq
      cases hfound
      exact ⟨Std.compare_eq_iff_eq.mp heq ▸ h.valid, hversion⟩
    · exact h.catalog.table_valid other found hfound
  · intro other hmem
    rw [mem_insert] at hmem
    rcases hmem with heq | hmem
    · exact Std.compare_eq_iff_eq.mp heq ▸ h.catalog.table_schema name h.present
    · exact h.catalog.table_schema other hmem
  · intro other view hview
    rw [getElem?_erase] at hview
    split at hview
    · cases hview
    · rename_i hne
      obtain ⟨hname, hschema, hnot, hvalid⟩ := h.catalog.view_valid other view hview
      refine ⟨hname, hschema, ?_, hvalid⟩
      rw [mem_insert]
      exact fun hmem => hmem.elim hne hnot

theorem startPlan_eq_ok (merge : Merge)
    (hsame : sameTable base current transaction = true) :
    startPlan s₀.state name merge.mode (some current) transaction.schema
      (some s₀.state.catalog.schemas) = .ok {
        tableId := some current.tableId
        version := current.version + 1
        parent := some current.tableReference
        operation := if merge.vectors.isEmpty then .append else .update
        schema := current.schema
        inheritedSourceBytes := current.sourceBytes
        retainedOldSourceBytes := 0
        retainedOldStorageBytes := 0
        inheritedStorageBytes := current.storageBytes
        inheritedSegments := current.segments } := by
  have hschema : transaction.schema = current.schema := by
    unfold sameTable at hsame
    rw [decide_eq_true_iff] at hsame
    exact hsame.2.2.2.symm.trans hsame.2.2.1
  have hvalid := h.valid
  unfold nameIsInvalid at hvalid
  simp only [Bool.or_eq_false_iff, decide_eq_false_iff_not] at hvalid
  have hinheriting : ∀ operation, PlanParts.inheriting current operation current.schema = .ok {
        tableId := some current.tableId
        version := current.version + 1
        parent := some current.tableReference
        operation
        schema := current.schema
        inheritedSourceBytes := current.sourceBytes
        retainedOldSourceBytes := 0
        retainedOldStorageBytes := 0
        inheritedStorageBytes := current.storageBytes
        inheritedSegments := current.segments } := by
    intro operation
    refine check_bind_eq_ok.mpr ⟨rejectIf_eq_ok.mpr (not_not.mpr rfl), ?_⟩
    exact bind_eq_ok.mpr ⟨_, nextVersion_eq_ok.mpr ⟨h.version, rfl⟩, rfl⟩
  rw [hschema]
  unfold startPlan
  refine check_bind_eq_ok.mpr ⟨rejectIf_eq_ok.mpr ?_, check_bind_eq_ok.mpr
    ⟨h.columns, check_bind_eq_ok.mpr ⟨rejectIf_eq_ok.mpr fun hno => ?_, ?_⟩⟩⟩
  · rw [toAsciiLowercase_of_valid h.valid]
    rintro (hempty | hne | hlong)
    · rw [hvalid.1.1.1] at hempty
      cases hempty
    · exact hne rfl
    · exact hvalid.1.1.2 hlong
  · cases hno.1
  · unfold Merge.mode
    split
    · exact hinheriting .append
    · exact hinheriting .update

/-- Planning a rebase succeeds. -/
theorem planOf_eq_ok [Digests] (hsame : sameTable base current transaction = true)
    (hsizes : Sizes s₀ name base current transaction merge limit) :
    planOf s₀ name base current transaction merge (addedSource base transaction) =
      .ok (expectedPlan s₀ name base current transaction merge limit) := by
  have hlower := toAsciiLowercase_of_valid h.valid
  unfold planOf
  refine bind_eq_ok.mpr ⟨{ expectedPlan s₀ name base current transaction merge limit with
    snapshotId := s₀.nextUuid
    inheritedStorageBytes := current.storageBytes
    inheritedSegments := current.segments }, ?_, ?_⟩
  · unfold transactionPlanFor
    refine check_bind_eq_ok.mpr ⟨rejectIf_eq_ok.mpr ?_, check_bind_eq_ok.mpr
      ⟨rejectIf_eq_ok.mpr (lt_irrefl _), ?_⟩⟩
    · rw [hlower]
      exact h.internal
    unfold planFor
    refine bind_eq_ok.mpr ⟨_, h.startPlan_eq_ok merge hsame, ?_⟩
    rw [hlower]
    refine check_bind_eq_ok.mpr ⟨h.validatePlan_eq_ok _ (Nat.succ_ne_zero _), ?_⟩
    refine bind_eq_ok.mpr ⟨retiredSource s₀ current.tableId, ?_, ?_⟩
    · refine bind_eq_ok.mpr ⟨_, checkedSum_eq_ok.mpr ⟨hsizes.retired, rfl⟩, ?_⟩
      refine orExhausted_eq_ok.mpr (checkedAdd_eq_some.mpr ⟨?_, ?_⟩)
      · rw [zero_add]
        exact hsizes.retired
      · exact (zero_add _).symm
    · refine bind_eq_ok.mpr ⟨retiredStorage s₀ current.tableId, ?_, ?_⟩
      · refine orExhausted_eq_ok.mpr (checkedAdd_eq_some.mpr ⟨?_, ?_⟩)
        · rw [zero_add]
          exact hsizes.retained
        · exact (zero_add _).symm
      · exact bind_eq_ok.mpr ⟨limit, hsizes.limit_eq, rfl⟩
  · refine bind_eq_ok.mpr ⟨inheritedStorage base current transaction, ?_, rfl⟩
    exact orExhausted_eq_ok.mpr (checkedAdd_eq_some.mpr ⟨hsizes.inherited, rfl⟩)

end Plannable

/-! ## The rebased snapshot is valid -/

/-- The files that the transaction added have no later version than the rebased
snapshot. -/
def OwnersFit (base current transaction : TableSnapshot) : Prop :=
  ∀ segment ∈ transaction.segments, segment.segmentId ∉ segmentIds base →
    segment.ownerVersion ≤ current.version + 1 ∧
      ∀ vector ∈ segment.deleteVector, vector.ownerVersion ≤ current.version + 1

instance : Decidable (OwnersFit base current transaction) :=
  inferInstanceAs (Decidable (∀ segment ∈ transaction.segments, _ → _ ∧ _))

theorem encodedBytes_le_of_vectorFits {segment : NativeSegment} {vector : DeleteVector}
    (h : VectorFits segment) (hrows : vector.rowCount = segment.rows) :
    vector.encodedBytes ≤ maxFileBytes := by
  obtain ⟨empty, hempty⟩ := h
  unfold DeleteVector.empty DeleteVector.bitBytes at hempty
  obtain ⟨bytes, hbytes, hempty⟩ := bind_eq_ok.mp hempty
  obtain ⟨hle, -⟩ := check_bind_eq_ok.mp hempty
  rw [rejectIf_eq_ok, Nat.not_lt] at hle
  split at hbytes
  · rename_i hadd
    obtain ⟨-, rfl⟩ := checkedAdd_eq_some.mp hadd
    cases hbytes
    unfold encodedBytes
    rw [vector.bits_length, hrows]
    exact hle
  · cases hbytes

section Valid

variable {plan : NativeWritePlan} {snapshotId delta : Nat} {databaseId : Uuid}
  (h : Merges s₀.disk base current transaction merge)
  (hplanned : PlannedOn plan current merge snapshotId delta)

include h

variable {vector : DeleteVector}

/-- Each rewritten vector has its segment in the merge. -/
theorem Merges.exists_target {id : Uuid} (hmem : (id, vector) ∈ merge.vectors) :
    ∃ segment ∈ merge.segments, segment.segmentId = id ∧
      segment.rows = vector.rowCount := by
  obtain ⟨old, hold, hid, hrows, -⟩ := h.merged.vector _ hmem
  obtain ⟨kept, hkept, hsame⟩ := h.mergeable.current_keeps old hold
  refine ⟨kept, ?_, (sameDataFile_segmentId hsame).trans hid, ?_⟩
  · rw [h.merged.segments_eq]
    exact mem_append_left _ hkept
  · exact (sameDataFile_row hsame 0).2.trans hrows.symm

theorem Merges.nodup_mergedSegments : (merge.segments.map NativeSegment.segmentId).Nodup := by
  rw [h.merged.segments_eq, map_append, nodup_append]
  refine ⟨h.current.valid.nodup, ?_, ?_⟩
  · exact (filter_sublist.map _).nodup h.transaction.valid.nodup
  · intro id hid id' hid' heq
    subst heq
    obtain ⟨segment, hmem, rfl⟩ := mem_map.mp hid'
    rw [mem_filter, decide_eq_true_iff] at hmem
    exact h.mergeable.added segment hmem.1 hmem.2 hid

variable {segment : NativeSegment}

/-- Each rewritten vector belongs to the only segment with its id. -/
theorem Merges.rowCount_eq_of_lookup (hsegment : segment ∈ merge.segments)
    (hlookup : merge.vectors.lookup segment.segmentId = some vector) :
    vector.rowCount = segment.rows ∧ vector.Sound ∧ vector.deletedRows ≠ 0 := by
  have hmem := (lookup_eq_some h.merged.nodup).mp hlookup
  obtain ⟨target, htarget, hid, hrows⟩ := h.exists_target hmem
  obtain rfl := inj_on_of_nodup_map (h.nodup_mergedSegments) htarget hsegment hid
  obtain ⟨_, -, -, -, hsound, hpos, -⟩ := h.merged.vector _ hmem
  exact ⟨hrows.symm, hsound, hpos⟩

variable [Digests]

include hplanned

section

variable (howners : OwnersFit base current transaction) (hmem : segment ∈ merge.segments)
include howners hmem

theorem Merges.segmentValid_of_mem :
    SegmentValid (snapshotOf databaseId plan merge delta) segment := by
  have hversion : (snapshotOf databaseId plan merge delta).version =
      current.version + 1 := hplanned.version_eq
  have hschema : (snapshotOf databaseId plan merge delta).schema = current.schema :=
    hplanned.schema_eq
  rw [h.merged.segments_eq, mem_append, mem_filter, decide_eq_true_iff] at hmem
  rcases hmem with hmem | ⟨hmem, hnew⟩
  · have hvalid := h.current.valid.segments segment hmem
    refine hvalid.of_version hschema ?_ fun vector hvector => ?_
    · rw [hversion]
      exact Nat.le_succ_of_le hvalid.owner_le
    · rw [hversion]
      exact Nat.le_succ_of_le (hvalid.vector vector hvector).2.2.1
  · have hvalid := h.transaction.valid.segments segment hmem
    obtain ⟨howner, hvector⟩ := howners segment hmem hnew
    have hsame := h.mergeable.same
    unfold sameTable at hsame
    rw [decide_eq_true_iff] at hsame
    refine hvalid.of_version ?_ (hversion ▸ howner) (hversion ▸ hvector)
    exact hschema.trans (hsame.2.2.1.symm.trans hsame.2.2.2)

theorem Merges.segmentValid_rewritten : SegmentValid (snapshotOf databaseId plan merge delta)
      (rewritten plan merge.vectors segment) := by
  have hvalid : SegmentValid (snapshotOf databaseId plan merge delta) segment :=
    h.segmentValid_of_mem hplanned howners hmem
  cases hlookup : merge.vectors.lookup segment.segmentId with
  | none =>
    rw [rewritten_of_lookup_eq_none hlookup]
    exact hvalid
  | some vector =>
    rw [rewritten_of_lookup_eq_some hlookup]
    obtain ⟨hrows, hsound, hpos⟩ :=
      h.rowCount_eq_of_lookup hmem hlookup
    refine ⟨hvalid.owner_pos, hvalid.owner_le, hvalid.schema_eq, hvalid.format_eq,
      hvalid.sidecar, fun descriptor hdescriptor => ?_⟩
    cases hdescriptor
    refine ⟨rfl, ?_, Nat.le_refl _, hrows, hpos, hsound.deletedRows_le, Nat.le_add_right _ _⟩
    show plan.version ≠ 0
    rw [hplanned.version_eq]
    exact Nat.succ_ne_zero _

end

omit h in
/-- The rebased snapshot is a child of the current one. -/
theorem operationIsConsistent_snapshotOf :
    operationIsConsistent (snapshotOf databaseId plan merge delta).toTableManifest =
      true := by
  have hchild : current.tableReference.tableId = plan.tableId ∧
      checkedAdd current.tableReference.version 1 = some plan.version :=
    ⟨hplanned.tableId_eq.symm, checkedAdd_eq_some.mpr ⟨hplanned.version_lt, hplanned.version_eq⟩⟩
  exact operationIsConsistent_of_parent hplanned.operation_ne hplanned.parent_eq hchild

theorem Merges.snapshotOf_valid (howners : OwnersFit base current transaction)
    (htotals : TotalsFit (snapshotOf databaseId plan merge delta)) :
    SnapshotValid (snapshotOf databaseId plan merge delta) := by
  have hnodup := h.nodup_mergedSegments
  have hsegments : (snapshotOf databaseId plan merge delta).segments =
      merge.segments.map (rewritten plan merge.vectors) := by
    show applyVectors plan merge.vectors plan.inheritedSegments = _
    rw [hplanned.inheritedSegments_eq]
    exact applyVectors_eq_map hnodup h.merged.nodup
  have hvalid : ∀ segment ∈ (snapshotOf databaseId plan merge delta).segments,
      SegmentValid (snapshotOf databaseId plan merge delta) segment := by
    rw [hsegments]
    intro segment hmem
    obtain ⟨original, horiginal, rfl⟩ := mem_map.mp hmem
    exact h.segmentValid_rewritten hplanned howners horiginal
  refine ⟨?_, ?_, ?_, ⟨htotals, deletedRows_sum_le hvalid, rfl, rfl, rfl, rfl, rfl⟩, hvalid, ?_⟩
  · show plan.version ≠ 0
    rw [hplanned.version_eq]
    exact Nat.succ_ne_zero _
  · exact operationIsConsistent_snapshotOf hplanned
  · intro parent hparent
    change parent ∈ plan.parent at hparent
    rw [hplanned.parent_eq] at hparent
    cases hparent
    exact h.current.valid.version_pos
  · show ((applyVectors plan merge.vectors plan.inheritedSegments).map _).Nodup
    rw [applyVectors_segmentId, hplanned.inheritedSegments_eq]
    exact hnodup

/-! ## Its files are in place -/

omit [Digests] hplanned in
/-- A segment of the merge has its files, in directories with their markers. -/
theorem Merges.segmentStored_of_mem (hmem : segment ∈ merge.segments) :
    (∀ location ∈ segment.owners, s₀.disk.markerOf ⟨current.tableId, location⟩ =
      some (SnapshotKey.marker ⟨current.tableId, location⟩ s₀.disk.databaseId)) ∧
    ∃ file, SegmentStored s₀.disk current.tableId segment file := by
  obtain ⟨hidc, hidt⟩ := sameTable_tableId h.mergeable.same
  rw [h.merged.segments_eq, mem_append, mem_filter] at hmem
  rcases hmem with hmem | ⟨hmem, -⟩
  · exact ⟨h.current.files.owners segment hmem, h.current.files.segments segment hmem⟩
  · rw [hidc, ← hidt]
    exact ⟨h.transaction.files.owners segment hmem, h.transaction.files.segments segment hmem⟩

theorem Merges.filesOk_diskWith
    (hfits : ∀ segment ∈ base.segments, VectorFits segment)
    (hfree : (manifestOf s₀.disk.databaseId plan merge delta).key ∉ s₀.disk.snapshots) :
    FilesOk (diskWith s₀.disk merge (manifestOf s₀.disk.databaseId plan merge delta))
      s₀.disk.databaseId (manifestOf s₀.disk.databaseId plan merge delta) := by
  have hnodup := h.nodup_mergedSegments
  have hkeep := keepsData_diskWith merge hfree
  have hdirectory : (diskWith s₀.disk merge (manifestOf s₀.disk.databaseId plan merge
      delta)).snapshots[(manifestOf s₀.disk.databaseId plan merge delta).key]? =
      some (directoryOf merge (manifestOf s₀.disk.databaseId plan merge delta)) :=
    getElem?_insert_self
  have hsegments : (manifestOf s₀.disk.databaseId plan merge delta).segments =
      merge.segments.map (rewritten plan merge.vectors) := by
    show applyVectors plan merge.vectors plan.inheritedSegments = _
    rw [hplanned.inheritedSegments_eq]
    exact applyVectors_eq_map hnodup h.merged.nodup
  have htable : (manifestOf s₀.disk.databaseId plan merge delta).tableId =
      current.tableId := hplanned.tableId_eq
  refine ⟨fun segment hmem location hlocation => ?_, fun segment hmem => ?_⟩
  · rw [hsegments] at hmem
    obtain ⟨original, horiginal, rfl⟩ := mem_map.mp hmem
    obtain ⟨hmarkers, -⟩ :=
      h.segmentStored_of_mem horiginal
    -- Either the directory is an old one, or it is the new one.
    have hcases : location ∈ original.owners ∨
        location = (manifestOf s₀.disk.databaseId plan merge delta).ownLocation := by
      cases hlookup : merge.vectors.lookup original.segmentId with
      | none =>
        rw [rewritten_of_lookup_eq_none hlookup] at hlocation
        exact .inl hlocation
      | some vector =>
        rw [rewritten_of_lookup_eq_some hlookup] at hlocation
        rcases mem_cons.mp hlocation with rfl | hlocation
        · exact .inl original.owner_mem
        · exact .inr (mem_singleton.mp hlocation)
    rcases hcases with hold | rfl
    · refine (hkeep _).markerOf ?_
      unfold TableManifest.keyOf
      rw [htable]
      exact hmarkers location hold
    · show Option.bind _ marker = _
      change (diskWith _ _ _).snapshots[(manifestOf s₀.disk.databaseId plan merge
        delta).key]?.bind marker = _
      rw [hdirectory]
      rfl
  · rw [hsegments] at hmem
    obtain ⟨original, horiginal, rfl⟩ := mem_map.mp hmem
    obtain ⟨-, file, hfile⟩ :=
      h.segmentStored_of_mem horiginal
    have hstored := hfile.congr fun location _ => hkeep ⟨current.tableId, location⟩
    rw [htable]
    refine ⟨file, ?_⟩
    cases hlookup : merge.vectors.lookup original.segmentId with
    | none =>
      rw [rewritten_of_lookup_eq_none hlookup]
      exact hstored
    | some vector =>
      rw [rewritten_of_lookup_eq_some hlookup]
      refine ⟨hstored.data, hstored.bytes_eq, hstored.sha_eq, hstored.rows_eq,
        hstored.rowGroups_eq, fun descriptor hdescriptor => ⟨vector, ?_⟩⟩
      cases hdescriptor
      obtain ⟨old, hold, -, hrows, hsound, -⟩ :=
        h.merged.vector _ ((lookup_eq_some h.merged.nodup).mp hlookup)
      refine ⟨encodedBytes_le_of_vectorFits (hfits old hold) hrows,
        ⟨directoryOf merge (manifestOf s₀.disk.databaseId plan merge delta), ?_, ?_⟩,
        rfl, hsound.decodes, rfl, rfl⟩
      · rw [← htable]
        exact hdirectory
      · show (empty.addVectors merge.vectors).deleteVectors[_]? = _
        rw [getElem?_addVectors h.merged.nodup]
        show ((merge.vectors.lookup original.segmentId).map _).or _ = _
        rw [hlookup]
        rfl

theorem Merges.stored_diskWith (howners : OwnersFit base current transaction)
    (htotals : TotalsFit (snapshotOf s₀.disk.databaseId plan merge delta))
    (hfits : ∀ segment ∈ base.segments, VectorFits segment)
    (hfree : (manifestOf s₀.disk.databaseId plan merge delta).key ∉ s₀.disk.snapshots) :
    Stored (diskWith s₀.disk merge (manifestOf s₀.disk.databaseId plan merge delta))
      s₀.disk.databaseId (referenceOf (manifestOf s₀.disk.databaseId plan merge delta))
      (manifestOf s₀.disk.databaseId plan merge delta) := by
  have hvalid := h.snapshotOf_valid hplanned howners htotals
  refine ⟨?_, diskWith_manifestOf _ _ _, ⟨rfl, rfl, rfl, ?_, ?_, ?_⟩,
    h.filesOk_diskWith hplanned hfits hfree⟩
  · show (s₀.disk.snapshots.insert (manifestOf s₀.disk.databaseId plan merge delta).key
      _)[(manifestOf s₀.disk.databaseId plan merge delta).key]?.bind _ = _
    rw [getElem?_insert_self]
    rfl
  · intro hno
    cases hno
  · intro hno
    cases hno
  · refine hvalid.of_manifest_eq rfl ?_
    exact Nat.sub_add_cancel hvalid.totals.deleted_le

end Valid

/-! ## Rebases that succeed -/

section Success

variable [Digests]

/-- What a rebase needs of the state, apart from the snapshots and the sizes. -/
@[mk_iff] structure Prepared (s₀ : Database) (name : String) (current : TableSnapshot) :
    Prop where
  plannable : Plannable s₀ name current
  ready : s₀.Ready
  room : s₀.wal.nextLsn + 1 < u64Limit
  fresh : ∀ key ∈ s₀.disk.snapshots, key.location.snapshotId < s₀.nextUuid

/-- A segment that the transaction added keeps its files in the rebased snapshot. -/
theorem Stores.ownersFit {delta : Nat} {plan : NativeWritePlan}
    {published : NativePublishedSnapshot}
    (h : Stores s₀ name base current transaction merge delta plan published s)
    (hmerged : MergedAs s₀.disk base current transaction merge) :
    OwnersFit base current transaction := by
  intro segment hmem hnew
  have hmerge : segment ∈ merge.segments := by
    rw [hmerged.segments_eq]
    exact mem_append_right _ (mem_filter.mpr ⟨hmem, decide_eq_true hnew⟩)
  have hlookup := hmerged.lookup_eq_none hnew
  have hin : segment ∈ (manifestOf s₀.disk.databaseId plan merge delta).segments := by
    rw [h.segments_eq hmerged.nodup, ← rewritten_of_lookup_eq_none hlookup]
    exact mem_map_of_mem hmerge
  have hvalid := h.computes.built.valid.segments segment hin
  have hversion : (snapshotOf s₀.disk.databaseId plan merge delta).version =
      current.version + 1 := h.plannedOn.version_eq
  rw [← hversion]
  exact ⟨hvalid.owner_le, fun vector hvector => (hvalid.vector vector hvector).2.2.1⟩

/-- A merge within the limits can be stored. -/
theorem feasible_of_ownersFit (h : Merges s₀.disk base current transaction merge)
    (hprepared : Prepared s₀ name current)
    (hfits : ∀ segment ∈ base.segments, VectorFits segment)
    (hsizes : Sizes s₀ name base current transaction merge limit)
    (howners : OwnersFit base current transaction)
    (hsource : base.sourceBytes ≤ transaction.sourceBytes) :
    ¬ Infeasible s₀ name base current transaction merge := by
  intro hno
  have hplan := hprepared.plannable.planOf_eq_ok h.mergeable.same hsizes
  have hplanned := planOf_plannedOn hplan
  have hlimit : current.sourceBytes + addedSource base transaction < u64Limit := by
    have h := hsizes.limit_eq
    unfold newSnapshotLimit at h
    obtain ⟨_, hadd, -⟩ := bind_eq_ok.mp h
    exact (checkedAdd_eq_some.mp (orExhausted_eq_ok.mp hadd)).1
  have hbytes : vectorBytes merge.vectors < u64Limit := by
    have h := hsizes.final
    unfold checkLimits at h
    obtain ⟨_, hadd, -⟩ := bind_eq_ok.mp h
    exact Nat.lt_of_le_of_lt (Nat.le_add_left _ _)
      (checkedAdd_eq_some.mp (orExhausted_eq_ok.mp hadd)).1
  have hfree : (manifestOf s₀.disk.databaseId (expectedPlan s₀ name base current
      transaction merge limit) merge (addedSource base transaction)).key ∉
      s₀.disk.snapshots := by
    intro hmem
    have hlt : s₀.nextUuid + 1 < s₀.nextUuid := hprepared.fresh _ hmem
    exact Nat.not_succ_lt_self hlt
  refine hno (addedSource base transaction) _ ⟨?_, hplan, hlimit, ?_, hsizes.final⟩ ?_
  · show transaction.sourceBytes = base.sourceBytes + (transaction.sourceBytes - base.sourceBytes)
    omega
  · exact h.snapshotOf_valid hplanned howners hsizes.totals
  · refine ⟨hprepared.ready, hprepared.room, ?_, ?_, h.merged.nodup, h.nodup_mergedSegments,
      hfree, h.stored_diskWith hplanned howners hsizes.totals hfits hfree⟩
    · unfold DiskBudget.Fits budgetOf
      rw [zero_add]
      exact ⟨hbytes, hsizes.vectors⟩
    · exact fun id vector hmem => h.exists_target hmem

theorem rebase_succeeds_iff_versions_fit (name : String) (hbase : Intact s₀.disk base)
    (hcurrent : Intact s₀.disk current) (htransaction : Intact s₀.disk transaction)
    (hcompatible : Compatible s₀.disk base current transaction)
    (hprepared : Prepared s₀ name current)
    (hfits : ∀ segment ∈ base.segments, VectorFits segment)
    (hsizes : ∀ merge, mergeOf s₀.disk base current transaction = .ok (some merge) →
      ∃ limit, Sizes s₀ name base current transaction merge limit) :
    (∃ published w, (write name base current transaction).run s₀ [] =
      (.ok (some published), w)) ↔
      OwnersFit base current transaction ∧
        base.sourceBytes ≤ transaction.sourceBytes := by
  have hmergeable := hcompatible.mergeable hbase hcurrent htransaction
  constructor
  · rintro ⟨published, w, hrun⟩
    obtain ⟨merge, delta, plan, hmerges, hstores⟩ :=
      merges_of_write hbase hcurrent htransaction hrun
    refine ⟨hstores.ownersFit hmerges.merged, ?_⟩
    rw [hstores.computes.delta_eq]
    exact Nat.le_add_right _ _
  · rintro ⟨howners, hsource⟩
    obtain ⟨merge, hmerge, hmerges⟩ := (mergeOf_eq_ok hbase hcurrent htransaction
      hfits).resolve_left fun hnone => by
        have hfound := mergeOf_found hbase.readable hcurrent.readable htransaction.readable
        rw [hnone] at hfound
        exact hfound hmergeable
    obtain ⟨limit, hsizes⟩ := hsizes merge hmerge
    have hnofail : ¬ Fails s₀ name base current transaction := by
      rintro (⟨e, he⟩ | ⟨merge', hmerge', hno⟩)
      · cases hmerge.symm.trans he
      · cases hmerge.symm.trans hmerge'
        exact feasible_of_ownersFit hmerges hprepared hfits hsizes howners hsource hno
    obtain ⟨r, s', hrun, hwrote⟩ := write_spec.run_nil_ok rfl fun _ _ h => h.2.elim id hnofail
    cases r with
    | none => cases hmerge.symm.trans hwrote.2
    | some published => exact ⟨published, _, hrun⟩

end Success

/-! ### Inserts of two transactions -/

section Sample

attribute [local instance] sampleDigests

instance {α : Type} (x : Except Error α) : Decidable (∃ a, x = .ok a) :=
  match x with
  | .ok a => isTrue ⟨a, rfl⟩
  | .error _ => isFalse fun ⟨_, h⟩ => nomatch h

instance (segment : NativeSegment) : Decidable (VectorFits segment) :=
  inferInstanceAs (Decidable (∃ vector, empty segment.rows = .ok vector))

instance (schemas : NameSet) (tables : NameMap TableReference)
    (views : NameMap ViewReference) : Decidable (CatalogValid schemas tables views) :=
  decidable_of_iff (∃ u, validateCatalog (.generation 0) schemas tables views = .ok u)
    ⟨fun ⟨_, h⟩ => validateCatalog_eq_ok.mp h,
      fun h => ⟨(), validateCatalog_eq_ok.mpr h⟩⟩

instance (snapshot : TableSnapshot) : Decidable (TotalsFit snapshot) :=
  decidable_of_iff' _ (totalsFit_iff snapshot)

/-- The checks of `Sizes` without its first line on the limit. -/
def sizesFit (s₀ : Database) (name : String) (base current transaction : TableSnapshot)
    (merge : Merge) : Bool :=
  match newSnapshotLimit current.sourceBytes (addedSource base transaction)
      current.storageBytes (retiredSource s₀ current.tableId)
      (retiredStorage s₀ current.tableId) with
  | .error _ => false
  | .ok limit => retiredSource s₀ current.tableId < u64Limit ∧
      retiredStorage s₀ current.tableId < u64Limit ∧
      inheritedStorage base current transaction < u64Limit ∧
      vectorBytes merge.vectors ≤ limit ∧
      (∃ u, checkLimits (expectedPlan s₀ name base current transaction merge limit)
        (addedSource base transaction) (vectorBytes merge.vectors)
        (current.sourceBytes + addedSource base transaction) = .ok u) ∧
      TotalsFit (snapshotOf s₀.disk.databaseId
        (expectedPlan s₀ name base current transaction merge limit) merge
        (addedSource base transaction))

theorem Sizes.of_sizesFit (h : sizesFit s₀ name base current transaction merge = true) :
    ∃ limit, Sizes s₀ name base current transaction merge limit := by
  unfold sizesFit at h
  split at h
  · cases h
  · rename_i limit hlimit
    rw [decide_eq_true_iff] at h
    obtain ⟨hretired, hretained, hinherited, hvectors, ⟨_, hfinal⟩, htotals⟩ := h
    exact ⟨limit, hretired, hretained, hlimit, hinherited, hvectors, hfinal, htotals⟩

instance decidableForallMem {κ α : Type} {cmp : κ → κ → Ordering} [TransCmp cmp] [LawfulEqCmp cmp]
    (m : ExtTreeMap κ α cmp) (p : κ → Prop) [DecidablePred p] : Decidable (∀ key ∈ m, p key) :=
  decidable_of_iff (∀ key ∈ m.keys, p key) (by simp only [ExtTreeMap.mem_keys])

instance (x : Except Error Unit) : Decidable (x = .ok ()) :=
  decidable_of_iff (∃ u, x = .ok u) ⟨fun ⟨_, h⟩ => h, fun h => ⟨_, h⟩⟩

instance : Decidable (Plannable s₀ name current) :=
  decidable_of_iff' _ (plannable_iff s₀ name current)

instance : Decidable (Prepared s₀ name current) :=
  have := decidable_of_iff' _ (Database.ready_iff s₀)
  decidable_of_iff' _ (prepared_iff s₀ name current)

/-- The memory after a commit of the table `t`. -/
def installSample (snapshot : TableSnapshot) : Program Unit :=
  Faulty.modify fun database => { database with
    state := { database.state with
      catalog := { database.state.catalog with
        tables := database.state.catalog.tables.insert "t" snapshot.tableReference }
      tables := database.state.tables.insert "t" snapshot } }

/-- `INSERT` of one row, `statements` times. -/
def insertSample (snapshot : TableSnapshot) : Nat → Program TableSnapshot
  | 0 => pure snapshot
  | statements + 1 => do
    let published ← stageSample .append (some snapshot) [] [["c"]]
    insertSample published.snapshot statements

/-- A transaction with some `INSERT` statements, and one `INSERT` committed after its
start. -/
def concurrentInserts (statements : Nat) :
    Program (TableSnapshot × TableSnapshot × TableSnapshot) := do
  let base ← stageSample .create none [] [["a", "b"]]
  installSample base.snapshot
  let transaction ← insertSample base.snapshot statements
  let current ← insertSample base.snapshot 1
  installSample current
  pure (base.snapshot, current, transaction)

/-- The hypotheses of `rebase_succeeds_iff_versions_fit`, checked. -/
def rebaseable (s₀ : Database) (base current transaction : TableSnapshot) : Bool :=
  readsBack s₀.disk base && readsBack s₀.disk current && readsBack s₀.disk transaction &&
    decide (Compatible s₀.disk base current transaction) &&
    decide (Prepared s₀ "t" current) &&
    decide (∀ segment ∈ base.segments, VectorFits segment) &&
    match mergeOf s₀.disk base current transaction with
    | .ok (some merge) => sizesFit s₀ "t" base current transaction merge
    | _ => false

theorem insert_rebases_on_insert :
    ∃ s base current transaction published w,
      (concurrentInserts 1).value? (.created 0) = some ((base, current, transaction), s) ∧
      (write "t" base current transaction).run s [] = (.ok (some published), w) := by
  have hsample : ((concurrentInserts 1).value? (.created 0)).any (fun x =>
      rebaseable x.2 x.1.1 x.1.2.1 x.1.2.2 &&
      decide (OwnersFit x.1.1 x.1.2.1 x.1.2.2) &&
      decide (x.1.1.sourceBytes ≤ x.1.2.2.sourceBytes)) = true := by
    decide +kernel
  obtain ⟨⟨⟨base, current, transaction⟩, s⟩, hrun, hsample⟩ :=
    (Option.any_eq_true ..).mp hsample
  unfold rebaseable at hsample
  simp only [Bool.and_eq_true, decide_eq_true_eq] at hsample
  obtain ⟨⟨⟨⟨⟨⟨⟨⟨hb, hc⟩, ht⟩, hcompatible⟩, hprepared⟩, hfits⟩, hsizes⟩, howners⟩,
    hsource⟩ := hsample
  obtain ⟨published, w, hwrite⟩ := (rebase_succeeds_iff_versions_fit "t"
    (.of_readsBack hb) (.of_readsBack hc) (.of_readsBack ht) hcompatible hprepared hfits
    fun merge hmerge => Sizes.of_sizesFit (by rw [hmerge] at hsizes; exact hsizes)).mpr
      ⟨howners, hsource⟩
  exact ⟨s, base, current, transaction, published, w, hrun, hwrite⟩

/-- Three inserts of a transaction have the versions 2, 3 and 4; after one concurrent
commit the rebased snapshot has version 3. -/
theorem three_inserts_fail_to_rebase_on_one :
    ∃ s base current transaction path w,
      (concurrentInserts 3).value? (.created 0) = some ((base, current, transaction), s) ∧
      rebaseable s base current transaction = true ∧
      (write "t" base current transaction).run s [] =
        (.error (.nativeStorage path "invalid native segment descriptor"), w) := by
  have hsample : ((concurrentInserts 3).value? (.created 0)).any (fun x =>
      rebaseable x.2 x.1.1 x.1.2.1 x.1.2.2 &&
      match ((write "t" x.1.1 x.1.2.1 x.1.2.2).run x.2 []).1 with
      | .error (.nativeStorage _ message) =>
        message == "invalid native segment descriptor"
      | _ => false) = true := by
    decide +kernel
  obtain ⟨⟨⟨base, current, transaction⟩, s⟩, hrun, hsample⟩ :=
    (Option.any_eq_true ..).mp hsample
  rw [Bool.and_eq_true] at hsample
  obtain ⟨hrebaseable, herror⟩ := hsample
  dsimp only at herror
  split at herror
  · rename_i path message hresult
    rw [beq_iff_eq] at herror
    subst herror
    exact ⟨s, base, current, transaction, path, _, hrun, hrebaseable, Prod.ext hresult rfl⟩
  · cases herror

end Sample

end Rebase

end RustDb.Native
