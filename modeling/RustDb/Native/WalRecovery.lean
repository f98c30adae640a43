import RustDb.Native.Wal

/-!
# Replay of the write-ahead log

`Replays` is the meaning of the record files: the states that replay passes
through, one record at a time.  `Wal.Consistent` says that the files replay to
the state the process has in memory, up to transactions that a checkpoint has
already forgotten and up to one record that an append wrote without knowing.

* `openWal_spec`: `Wal::open` succeeds on consistent files, and what it returns.
-/

namespace RustDb.Native

open Std RustDb.Lib Faulty List ExtTreeMap WalState Spec Program

/-- The records of a log by LSN. -/
abbrev Records := ExtTreeMap Nat Record compare

/-- The LSN at which replay starts. -/
def WalFiles.start (files : WalFiles) : Nat :=
  match files.checkpoint with
  | none => 1
  | some checkpoint => checkpoint.nextLsn

/-- The WAL files with a new CHECKPOINT. -/
def WalFiles.putCheckpoint (files : WalFiles) (checkpoint : Checkpoint) :
    WalFiles :=
  { files with checkpoint := some checkpoint }

/-- Replay leads from one state to another, record by record. -/
inductive Replays (records : Records) : WalState → WalState → Prop where
  | refl (state : WalState) : Replays records state state
  | step {state final : WalState} {record : Record}
      (hread : records[state.nextLsn]? = some record)
      (hallow : state.Allows record)
      (rest : Replays records (state.push record) final) :
      Replays records state final

namespace Replays

variable {records records' : Records} {state final : WalState} {record : Record}

section

variable (h : Replays records state final)
include h

theorem nextLsn_le : state.nextLsn ≤ final.nextLsn := by
  induction h with
  | refl => exact Nat.le_refl _
  | step _ _ _ ih => exact Nat.le_of_succ_le ih

/-- One more record at the end. -/
theorem snoc (hread : records[final.nextLsn]? = some record) (hallow : final.Allows record) :
    Replays records state (final.push record) := by
  induction h with
  | refl => exact step hread hallow (refl _)
  | step hread' hallow' _ ih => exact step hread' hallow' (ih hread hallow)

/-- Replay reads only the records between its two states. -/
theorem congr (heq : ∀ lsn, state.nextLsn ≤ lsn → lsn < final.nextLsn →
      records'[lsn]? = records[lsn]?) : Replays records' state final := by
  induction h with
  | refl => exact refl _
  | step hread hallow rest ih =>
    have hlt := rest.nextLsn_le
    refine step ?_ hallow (ih fun lsn hle hlt => heq lsn (Nat.le_of_succ_le hle) hlt)
    rw [heq _ (Nat.le_refl _) hlt, hread]

end

end Replays

/-! ## The life of a transaction -/

/-- The kinds of the records of one transaction, in the order of their LSNs. -/
def kindsOf (records : Records) (transactionId : Uuid) (start count : Nat) :
    List RecordKind :=
  (List.range' start count).filterMap fun lsn =>
    records[lsn]?.bind fun record =>
      if record.transactionId = transactionId then some record.kind else none

/-- What may follow in the log of a transaction: a begin, then one commit or one
abort, and nothing after that. -/
def Lifecycle : Option TransactionState → List RecordKind → Prop
  | none, [] => True
  | none, .begin _ _ :: rest => Lifecycle (some .active) rest
  | some .active, [] => True
  | some .active, [.catalogCommit _ _] => True
  | some .active, [.abort] => True
  | some (.catalogCommitted _), [] => True
  | some .aborted, [] => True
  | _, _ => False

theorem Lifecycle.nil (state : Option TransactionState) : Lifecycle state [] := by
  rcases state with _ | _ | _ | _ <;> trivial

variable {state : WalState} {record : Record}

theorem WalState.allows_iff :
    state.Allows record ↔
      (state.transactions[record.transactionId]? = none ∧
        ∃ generation mode, record.kind = .begin generation mode) ∨
      (state.transactions[record.transactionId]? = some .active ∧
        (record.kind = .abort ∨
          ∃ expected generation, record.kind = .catalogCommit expected generation)) := by
  unfold Allows validateTransition
  rcases state.transactions[record.transactionId]? with _ | _ | _ | _ <;>
    rcases record.kind with _ | _ | _ <;> simp

/-- An allowed record continues the life of its transaction. -/
theorem Lifecycle.cons (hallow : state.Allows record) {rest : List RecordKind}
    (hrest : Lifecycle (some record.transactionState) rest) :
    Lifecycle state.transactions[record.transactionId]? (record.kind :: rest) := by
  unfold Record.transactionState at hrest
  rcases allows_iff.mp hallow with ⟨h, _, _, hk⟩ | ⟨h, hk | ⟨_, _, hk⟩⟩
  · rw [h, hk]
    rw [hk] at hrest
    exact hrest
  · rw [h, hk]
    rw [hk] at hrest
    cases rest with
    | nil => trivial
    | cons => exact hrest.elim
  · rw [h, hk]
    rw [hk] at hrest
    cases rest with
    | nil => trivial
    | cons => exact hrest.elim

/-- In a log that replays, every transaction goes through its life once. -/
theorem Replays.lifecycle {records : Records} {final : WalState} (h : Replays records state final)
    (transactionId : Uuid) :
    Lifecycle state.transactions[transactionId]?
      (kindsOf records transactionId state.nextLsn
        (final.nextLsn - state.nextLsn)) := by
  induction h with
  | refl => simpa [kindsOf] using Lifecycle.nil _
  | @step state final record hread hallow rest ih =>
    have hle : state.nextLsn + 1 ≤ final.nextLsn := rest.nextLsn_le
    have hcount : final.nextLsn - state.nextLsn =
        (final.nextLsn - (state.nextLsn + 1)) + 1 := by omega
    rw [hcount, kindsOf, range'_succ, filterMap_cons, hread]
    by_cases hid : record.transactionId = transactionId
    · subst hid
      simp only [Option.bind_some, if_true]
      refine Lifecycle.cons hallow ?_
      have hstate : (state.push record).transactions[record.transactionId]? =
          some record.transactionState := getElem?_insert_self
      rw [hstate] at ih
      exact ih
    · simp only [Option.bind_some, hid, if_false]
      have hstate : (state.push record).transactions[transactionId]? =
          state.transactions[transactionId]? := by
        rw [push, ExtTreeMap.getElem?_insert, if_neg]
        rwa [Std.compare_eq_iff_eq]
      rw [hstate] at ih
      exact ih

/-! ## Files and memory agree -/

/-- The transaction has begun and not ended. -/
def WalState.Active (state : WalState) (transactionId : Uuid) : Prop :=
  state.transactions[transactionId]? = some .active

/-- `live` knows what replay knows, and replay knows all that is active. -/
structure Covers (replayed live : WalState) : Prop where
  nextLsn_eq : replayed.nextLsn = live.nextLsn
  ofReplayed : ∀ (id : Uuid) state, replayed.transactions[id]? = some state →
    live.transactions[id]? = some state
  ofActive : ∀ id, live.Active id → replayed.Active id

namespace Covers

variable {replayed live : WalState}

theorem refl (state : WalState) : Covers state state :=
  ⟨rfl, fun _ _ h => h, fun _ h => h⟩

theorem active_iff (h : Covers replayed live) (id : Uuid) :
    replayed.Active id ↔ live.Active id :=
  ⟨h.ofReplayed id _, h.ofActive id⟩

/-- Replay accepts what the live log accepts. -/
theorem allows (h : Covers replayed live)
    (hallow : live.Allows record) : replayed.Allows record := by
  rw [allows_iff] at hallow ⊢
  refine hallow.imp (fun ⟨hnone, hkind⟩ => ⟨?_, hkind⟩)
    fun ⟨hactive, hkind⟩ => ⟨h.ofActive _ hactive, hkind⟩
  cases hr : replayed.transactions[record.transactionId]? with
  | none => rfl
  | some state =>
    rw [h.ofReplayed _ _ hr] at hnone
    cases hnone

theorem push (h : Covers replayed live) (record : Record) :
    Covers (replayed.push record) (live.push record) := by
  refine ⟨congrArg (· + 1) h.nextLsn_eq, fun id state => ?_, fun id => ?_⟩
  · simp only [WalState.push, ExtTreeMap.getElem?_insert]
    split
    · exact fun h => h
    · exact h.ofReplayed id state
  · simp only [WalState.Active, WalState.push, ExtTreeMap.getElem?_insert]
    split
    · exact fun h => h
    · exact h.ofActive id

end Covers

namespace Wal

/-- The files replay to the state in memory.  At most one record lies beyond it,
at the LSN that the next append will use, and that record could be appended. -/
structure Consistent (databaseId : Uuid) (files : WalFiles) (wal : WalState) :
    Prop where
  checkpointValid : ∀ checkpoint, files.checkpoint = some checkpoint →
    validateCheckpoint checkpoint databaseId = .ok ()
  recordsValid : ∀ (lsn : Nat) record, files.records[lsn]? = some record →
    record.Valid databaseId lsn
  bounded : ∀ lsn, lsn ∈ files.records → lsn ≤ wal.nextLsn
  replays : ∃ replayed,
    Replays files.records ⟨files.start, ∅⟩ replayed ∧ Covers replayed wal
  pending : ∀ record, files.records[wal.nextLsn]? = some record →
    wal.Allows record ∧ wal.nextLsn + 1 < u64Limit
  available : wal.nextLsn < u64Limit

/-- The state in memory with the record that lies beyond it, if there is one. -/
def settled (files : WalFiles) (wal : WalState) : WalState :=
  match files.records[wal.nextLsn]? with
  | none => wal
  | some record => wal.push record

/-- Records below `start` may be missing. -/
def Trimmed (start : Nat) (records records' : Records) : Prop :=
  ∀ lsn, records'[lsn]? = records[lsn]? ∨ (records'[lsn]? = none ∧ lsn < start)

namespace Trimmed

variable {start start' : Nat} {records records' records'' : Records}

theorem refl : Trimmed start records records :=
  fun _ => .inl rfl

theorem trans (h : Trimmed start records records')
    (h' : Trimmed start records' records'') : Trimmed start records records'' := by
  intro lsn
  rcases h' lsn with h₂ | h₂
  · rw [h₂]
    exact h lsn
  · exact .inr h₂

variable {lsn : Nat}

theorem erase (h : lsn < start) : Trimmed start records (records.erase lsn) := by
  intro k
  rw [getElem?_erase]
  split
  · rename_i hk
    exact .inr ⟨rfl, Std.compare_eq_iff_eq.mp hk ▸ h⟩
  · exact .inl rfl

section

variable (h : Trimmed start records records')
include h

theorem getElem? (hle : start ≤ lsn) : records'[lsn]? = records[lsn]? :=
  (h lsn).resolve_right fun h => Nat.not_lt.mpr hle h.2

theorem some_of (hread : records'[lsn]? = some record) :
    records[lsn]? = some record := by
  rcases h lsn with heq | ⟨hnone, -⟩
  · rw [← heq, hread]
  · rw [hread] at hnone
    cases hnone

theorem mem_of (hmem : lsn ∈ records') : lsn ∈ records := by
  rw [mem_iff_exists_getElem?] at hmem ⊢
  exact hmem.imp fun _ => h.some_of

end

end Trimmed

namespace Consistent

variable {databaseId : Uuid} {files : WalFiles} {wal : WalState} {record : Record}

theorem start_le (h : Consistent databaseId files wal) :
    files.start ≤ wal.nextLsn := by
  obtain ⟨replayed, hreplays, hcovers⟩ := h.replays
  exact hcovers.nextLsn_eq ▸ hreplays.nextLsn_le

/-- The first state of a new log. -/
theorem init (databaseId : Uuid) :
    Consistent databaseId ⟨none, ∅⟩ ⟨1, ∅⟩ where
  checkpointValid := by simp
  recordsValid := by simp
  bounded := by simp
  replays := ⟨⟨1, ∅⟩, .refl _, .refl _⟩
  pending := by simp
  available := by decide

section

variable (h : Consistent databaseId files wal)
include h

/-- Records that replay does not read may be removed. -/
theorem trim {records : Records} (htrim : Trimmed files.start files.records records) :
    Consistent databaseId { files with records } wal where
  checkpointValid := h.checkpointValid
  recordsValid lsn record hread := h.recordsValid lsn record (htrim.some_of hread)
  bounded lsn hmem := h.bounded lsn (htrim.mem_of hmem)
  replays := by
    obtain ⟨replayed, hreplays, hcovers⟩ := h.replays
    exact ⟨replayed, hreplays.congr fun lsn hle _ => htrim.getElem? hle, hcovers⟩
  pending record hread := h.pending record (htrim.some_of hread)
  available := h.available

theorem records_insert_lsn (hvalid : record.Valid databaseId wal.nextLsn) (lsn : Nat) (r : Record)
    (hread : (files.records.insert wal.nextLsn record)[lsn]? = some r) :
    r.Valid databaseId lsn := by
  rw [ExtTreeMap.getElem?_insert] at hread
  split at hread
  · rename_i hk
    cases hread
    exact Std.compare_eq_iff_eq.mp hk ▸ hvalid
  · exact h.recordsValid lsn r hread

theorem bounded_insert (lsn : Nat) (hmem : lsn ∈ files.records.insert wal.nextLsn record) :
    lsn ≤ wal.nextLsn := by
  rw [mem_insert, Std.compare_eq_iff_eq] at hmem
  rcases hmem with rfl | hmem
  · exact Nat.le_refl _
  · exact h.bounded lsn hmem

/-- A new record beyond the state in memory does not disturb replay up to it. -/
theorem replays_insert (record : Record) :
    ∃ replayed, Replays (files.records.insert wal.nextLsn record)
      ⟨files.start, ∅⟩ replayed ∧ Covers replayed wal := by
  obtain ⟨replayed, hreplays, hcovers⟩ := h.replays
  refine ⟨replayed, hreplays.congr fun lsn _ hlt => ?_, hcovers⟩
  rw [ExtTreeMap.getElem?_insert, if_neg]
  rw [Std.compare_eq_iff_eq]
  rw [hcovers.nextLsn_eq] at hlt
  omega

section

variable (hvalid : record.Valid databaseId wal.nextLsn)
  (hallow : wal.Allows record)
  (hlsn : wal.nextLsn + 1 < u64Limit)
include hvalid hallow hlsn

/-- A record that was published while the memory did not follow. -/
theorem pend : Consistent databaseId
      { files with records := files.records.insert wal.nextLsn record } wal where
  checkpointValid := h.checkpointValid
  recordsValid := h.records_insert_lsn hvalid
  bounded := h.bounded_insert
  replays := h.replays_insert record
  pending r hread := by
    rw [getElem?_insert_self] at hread
    cases hread
    exact ⟨hallow, hlsn⟩
  available := h.available

/-- A record that was published and applied. -/
theorem push : Consistent databaseId
      { files with records := files.records.insert wal.nextLsn record }
      (wal.push record) where
  checkpointValid := h.checkpointValid
  recordsValid := h.records_insert_lsn hvalid
  bounded lsn hmem := Nat.le_succ_of_le (h.bounded_insert lsn hmem)
  replays := by
    obtain ⟨replayed, hreplays, hcovers⟩ := h.replays_insert record
    refine ⟨replayed.push record, hreplays.snoc ?_ (hcovers.allows hallow), hcovers.push record⟩
    rw [hcovers.nextLsn_eq, getElem?_insert_self]
  pending r hread := by
    have hmem : wal.nextLsn + 1 ∈ files.records.insert wal.nextLsn record :=
      mem_iff_exists_getElem?.mpr ⟨r, hread⟩
    have hle := h.bounded_insert _ hmem
    omega
  available := hlsn

end

/-- No active transaction is known to either side. -/
theorem checkpointed (hidle : ∀ id, ¬ wal.Active id) {checkpoint : Checkpoint}
    (hvalid : validateCheckpoint checkpoint databaseId = .ok ())
    (hlsn : checkpoint.nextLsn = wal.nextLsn) :
    Consistent databaseId { files with checkpoint := some checkpoint } wal where
  checkpointValid c hc := by
    cases hc
    exact hvalid
  recordsValid := h.recordsValid
  bounded := h.bounded
  replays := by
    refine ⟨_, .refl _, hlsn, fun id state hstate => ?_, fun id hactive => ?_⟩
    · simp at hstate
    · exact absurd hactive (hidle id)
  pending := h.pending
  available := h.available

/-- The memory may forget finished transactions once the checkpoint is there. -/
theorem forget (hidle : ∀ id, ¬ wal.Active id) (hstart : files.start = wal.nextLsn) :
    Consistent databaseId files { wal with transactions := ∅ } where
  checkpointValid := h.checkpointValid
  recordsValid := h.recordsValid
  bounded := h.bounded
  replays := ⟨_, .refl _, hstart, fun id state h => h, fun id h => h⟩
  pending record hread := by
    obtain ⟨hallow, hlsn⟩ := h.pending record hread
    refine ⟨?_, hlsn⟩
    rw [allows_iff] at hallow ⊢
    rcases hallow with ⟨-, hkind⟩ | ⟨hactive, -⟩
    · exact .inl ⟨by simp, hkind⟩
    · exact absurd hactive (hidle _)
  available := h.available

/-- Replay of all records leads to the settled state. -/
theorem replays_settled : ∃ final, Replays files.records ⟨files.start, ∅⟩ final ∧
      Covers final (settled files wal) ∧ final.nextLsn < u64Limit ∧
      ∀ lsn, lsn ∈ files.records → lsn < final.nextLsn := by
  obtain ⟨replayed, hreplays, hcovers⟩ := h.replays
  unfold settled
  cases hpend : files.records[wal.nextLsn]? with
  | none =>
    refine ⟨replayed, hreplays, hcovers, ?_, fun lsn hmem => ?_⟩
    · rw [hcovers.nextLsn_eq]
      exact h.available
    · have hne : lsn ≠ wal.nextLsn := by
        rintro rfl
        exact notMem_iff_getElem?.mpr hpend hmem
      have hle := h.bounded lsn hmem
      rw [hcovers.nextLsn_eq]
      omega
  | some record =>
    obtain ⟨hallow, hlsn⟩ := h.pending record hpend
    refine ⟨replayed.push record, hreplays.snoc ?_ (hcovers.allows hallow),
      hcovers.push record, ?_, fun lsn hmem => ?_⟩
    · rw [hcovers.nextLsn_eq, hpend]
    · show replayed.nextLsn + 1 < _
      rw [hcovers.nextLsn_eq]
      exact hlsn
    · have hle := h.bounded lsn hmem
      show lsn < replayed.nextLsn + 1
      rw [hcovers.nextLsn_eq]
      omega

end

end Consistent

/-! ## Checkpoint -/

section Checkpoint

variable {faults : Prop} {s₀ : Database}

/-- `s` is `s₀` with other WAL files; UUIDs may have been drawn. -/
def WithWal (s₀ : Database) (files : WalFiles) (s : Database) : Prop :=
  ∃ temporaries nextUuid, s₀.nextUuid ≤ nextUuid ∧ s = { s₀ with
    disk := { s₀.disk with wal := files, temporaries }
    nextUuid }

theorem WithWal.refl (s : Database) : WithWal s s.disk.wal s :=
  ⟨_, _, Nat.le_refl _, rfl⟩

/-- The CHECKPOINT file that `Wal::checkpoint` writes. -/
def checkpointOf (database : Database) (catalogGeneration : Nat) : Checkpoint :=
  { formatVersion := checkpointFormatVersion
    databaseId := database.disk.databaseId
    nextLsn := database.wal.nextLsn
    catalogGeneration }

theorem validateCheckpoint_checkpointOf (hlsn : s₀.wal.nextLsn ≠ 0)
    (generation : Nat) : validateCheckpoint (checkpointOf s₀ generation)
      s₀.disk.databaseId = .ok () := by
  simp [validateCheckpoint, checkpointOf, rejectIf, hlsn]

theorem writeCheckpoint_spec (generation : Nat) (hlsn : s₀.wal.nextLsn ≠ 0) :
    Spec faults (· = s₀) (writeCheckpoint s₀.wal.nextLsn generation)
      (outcome
        (fun _ => WithWal s₀
          (s₀.disk.wal.putCheckpoint (checkpointOf s₀ generation)))
        fun s => faults ∧ (WithWal s₀ s₀.disk.wal s ∨ WithWal s₀
          (s₀.disk.wal.putCheckpoint (checkpointOf s₀ generation)) s)) := by
  unfold writeCheckpoint
  refine get_self (lift_bind (fun _ _ => ?_) fun e s h => ?_)
  · have hkeeps : KeepsTemporaries fun disk => { disk with
        wal := disk.wal.putCheckpoint (checkpointOf s₀ generation) } :=
      fun _ _ => rfl
    split_ifs with hsome
    · refine newUuid_bind (weakenOutcome (atomicReplace_spec hkeeps) ?_ ?_)
      · rintro _ s ⟨temporaries, rfl⟩
        exact ⟨temporaries, _, Nat.le_succ _, rfl⟩
      · rintro _ s ⟨hf, disk, hdisk, temporaries, rfl⟩
        refine ⟨hf, hdisk.imp ?_ ?_⟩
        · rintro rfl
          exact ⟨temporaries, _, Nat.le_succ _, rfl⟩
        · rintro rfl
          exact ⟨temporaries, _, Nat.le_succ _, rfl⟩
    · refine weakenOutcome (atomicCreate_spec hkeeps
        (.inr (Bool.not_eq_true _ ▸ hsome))) ?_ ?_
      · rintro _ s ⟨-, temporaries, rfl⟩
        exact ⟨temporaries, _, Nat.le_refl _, rfl⟩
      · rintro _ s ⟨hf, disk, hdisk, temporaries, rfl⟩
        refine ⟨hf, hdisk.imp ?_ ?_⟩
        · rintro rfl
          exact ⟨temporaries, _, Nat.le_refl _, rfl⟩
        · rintro ⟨-, rfl⟩
          exact ⟨temporaries, _, Nat.le_refl _, rfl⟩
  · cases (validateCheckpoint_checkpointOf hlsn generation).symm.trans h

/-- `s` is `s₀` with the WAL files `files`, of which records below `start` may be
missing. -/
def TrimmedWal (s₀ : Database) (files : WalFiles) (start : Nat) (s : Database) :
    Prop :=
  ∃ records, Trimmed start files.records records ∧
    WithWal s₀ { files with records } s

variable {files : WalFiles} {start : Nat}

theorem TrimmedWal.of_withWal {s : Database} (h : WithWal s₀ files s) :
    TrimmedWal s₀ files start s :=
  ⟨_, .refl, h⟩

/-- Removing a record that replay does not read. -/
theorem removeRecord_spec {lsn : Nat} (hlsn : lsn < start) :
    Spec faults (TrimmedWal s₀ files start) (removeRecord lsn)
      (outcome (fun _ => TrimmedWal s₀ files start)
        fun s => faults ∧ TrimmedWal s₀ files start s) := by
  have h : ∀ s, TrimmedWal s₀ files start s →
      TrimmedWal s₀ files start { s with disk := { s.disk with
        wal := { s.disk.wal with records := s.disk.wal.records.erase lsn } } } := by
    rintro s ⟨records, htrim, temporaries, nextUuid, hle, rfl⟩
    exact ⟨_, htrim.trans (.erase hlsn), temporaries, nextUuid, hle, rfl⟩
  exact callOutcome h fun hf s hs => ⟨⟨hf, hs⟩, hf, h s hs⟩

variable {state : WalState}

theorem mem_activeTransactions {id : Uuid} : id ∈ activeTransactions state ↔ state.Active id := by
  simp [activeTransactions, WalState.Active, mem_toList_iff_getElem?_eq_some]

theorem activeTransactions_eq_nil : activeTransactions state = [] ↔ ∀ id, ¬ state.Active id := by
  rw [eq_nil_iff_forall_not_mem]
  exact forall_congr' fun id => not_congr mem_activeTransactions

/-- The states a successful checkpoint can leave. -/
def Checkpointed (s₀ : Database) (generation : Nat) (s : Database) : Prop :=
  ∃ s₁, TrimmedWal s₀ (s₀.disk.wal.putCheckpoint (checkpointOf s₀ generation))
    s₀.wal.nextLsn s₁ ∧ s = { s₁ with wal := { s₁.wal with transactions := ∅ } }

/-- `checkpoint` succeeds only without active transactions.  Wherever it stops,
the CHECKPOINT file is written before any record is removed, and the memory
forgets the transactions last. -/
theorem checkpoint_spec (generation : Nat) (hlsn : s₀.wal.nextLsn ≠ 0)
    (hgood : faults ∨ ∀ id, ¬ s₀.wal.Active id) :
    Spec faults (· = s₀) (checkpoint generation)
      (outcome
        (fun _ s => (∀ id, ¬ s₀.wal.Active id) ∧ Checkpointed s₀ generation s)
        fun s => faults ∧ (WithWal s₀ s₀.disk.wal s ∨
          ((∀ id, ¬ s₀.wal.Active id) ∧ TrimmedWal s₀
            (s₀.disk.wal.putCheckpoint (checkpointOf s₀ generation))
            s₀.wal.nextLsn s))) := by
  unfold checkpoint
  refine get_self (check (fun hbusy s hs => ?_) fun hnone => ?_)
  · refine ⟨hgood.resolve_right fun hidle => ?_, .inl (hs ▸ .refl s)⟩
    exact hbusy (activeTransactions_eq_nil.mpr hidle)
  · have hidle := activeTransactions_eq_nil.mp (not_not.mp hnone)
    refine seq (weakenOutcome (writeCheckpoint_spec generation hlsn)
      (fun _ _ h => (TrimmedWal.of_withWal h : TrimmedWal _ _ s₀.wal.nextLsn _))
      ?_) fun _ => ?_
    · rintro _ s ⟨hf, h | h⟩
      · exact ⟨hf, .inl h⟩
      · exact ⟨hf, .inr ⟨hidle, .of_withWal h⟩⟩
    · refine idle_bind (fun hf _ _ h => ⟨hf, .inr ⟨hidle, h⟩⟩) ?_
      refine get_bind fun s₃ h₃ => ?_
      refine seq (Q := fun _ => TrimmedWal s₀
        (s₀.disk.wal.putCheckpoint (checkpointOf s₀ generation)) s₀.wal.nextLsn) ?_
        fun _ => ?_
      · refine weaken (weakenOutcome (forM fun lsn hmem =>
          removeRecord_spec ?_) (fun _ _ h => h)
          fun _ _ h => ⟨h.1, .inr ⟨hidle, h.2⟩⟩) (fun s h => h ▸ h₃) fun _ _ h => h
        simpa using (mem_filter.mp hmem).2
      · refine seq (Q := fun _ s => Checkpointed s₀ generation s)
          (modify fun s h => ⟨s, h, rfl⟩) fun _ => ?_
        exact pure fun s h => ⟨hidle, h⟩

end Checkpoint

/-! ## Open -/

section Open

variable {faults : Prop} {s₀ : Database}

theorem removeAtomicTemps_spec :
    Spec faults (· = s₀) removeAtomicTemps
      (outcome (fun _ => WithWal s₀ s₀.disk.wal)
        fun s => faults ∧ WithWal s₀ s₀.disk.wal s) := by
  unfold removeAtomicTemps
  refine weaken (P := WithWal s₀ s₀.disk.wal) ?_ (fun s h => h ▸ .refl s) fun _ _ h => h
  refine seq touch_spec fun _ => get_bind fun s₁ h₁ => ?_
  refine weaken (forM fun path _ => ?_) (fun s h => h ▸ h₁) fun _ _ h => h
  have h : ∀ s, WithWal s₀ s₀.disk.wal s → WithWal s₀ s₀.disk.wal
      { s with disk := s.disk.removeTemporary path } := by
    rintro s ⟨temporaries, nextUuid, hle, rfl⟩
    exact ⟨temporaries.erase path, nextUuid, hle, rfl⟩
  exact callOutcome h fun hf s hs => ⟨⟨hf, hs⟩, hf, h s hs⟩

theorem readCheckpoint_spec {P : Database → Prop} (start : Nat)
    (hstart : ∀ s, P s → s.disk.wal.start = start)
    (hvalid : ∀ s, P s → ∀ checkpoint, s.disk.wal.checkpoint = some checkpoint →
      validateCheckpoint checkpoint s.disk.databaseId = .ok ()) :
    Spec faults P readCheckpoint
      (outcome (fun r s => P s ∧ r.1 = start) fun s => faults ∧ P s) := by
  unfold readCheckpoint
  refine get_bind fun s₁ h₁ => ?_
  have hstart := hstart s₁ h₁
  unfold WalFiles.start at hstart
  cases hc : s₁.disk.wal.checkpoint with
  | none =>
    rw [hc] at hstart
    exact pure fun s hs => ⟨hs ▸ h₁, hstart⟩
  | some checkpoint =>
    rw [hc] at hstart
    refine idle_bind (fun hf _ s hs => ⟨hf, hs ▸ h₁⟩) ?_
    refine lift_bind (fun _ _ => pure fun s hs => ⟨hs ▸ h₁, hstart⟩) fun e s h => ?_
    cases (hvalid s₁ h₁ checkpoint hc).symm.trans h

variable {state : WalState}

/-- The loop of `open`: it removes records below the start, and follows replay
through the others. -/
theorem replayFiles_spec {final : WalState} {start : Nat} {keys : List Nat}
    (hvalid : ∀ (lsn : Nat) record, s₀.disk.wal.records[lsn]? = some record →
      record.Valid s₀.disk.databaseId lsn) (hlimit : final.nextLsn < u64Limit)
    (hbound : ∀ lsn, lsn ∈ s₀.disk.wal.records → lsn < final.nextLsn)
    (hstart : start ≤ state.nextLsn) (hreplays : Replays s₀.disk.wal.records state final)
    (hsorted : keys.Pairwise (· < ·)) (hold : ∀ lsn ∈ keys, lsn ∈ s₀.disk.wal.records ∧
      (start ≤ lsn → state.nextLsn ≤ lsn))
    (hnew : ∀ lsn, state.nextLsn ≤ lsn → lsn ∈ s₀.disk.wal.records → lsn ∈ keys) :
    Spec faults (TrimmedWal s₀ s₀.disk.wal start) (replayFiles state keys)
      (outcome (fun st s => TrimmedWal s₀ s₀.disk.wal start s ∧ st = final)
        fun s => faults ∧ TrimmedWal s₀ s₀.disk.wal start s) := by
  induction keys generalizing state with
  | nil =>
    cases hreplays with
    | refl => exact pure fun s hs => ⟨hs, rfl⟩
    | step hread _ _ =>
      have hmem := hnew _ (Nat.le_refl _) (mem_iff_exists_getElem?.mpr ⟨_, hread⟩)
      cases hmem
  | cons lsn rest ih =>
    rw [pairwise_cons] at hsorted
    have hrest : ∀ l ∈ rest, l ∈ s₀.disk.wal.records ∧ (start ≤ l → state.nextLsn ≤ l) :=
      fun l hl => hold l (mem_cons_of_mem _ hl)
    obtain ⟨hmem, hge⟩ := hold lsn (mem_cons_self ..)
    unfold replayFiles
    split_ifs with hlt
    · have hbelow : lsn < start := by
        by_cases hle : start ≤ lsn
        · exact absurd (hge hle) (Nat.not_le.mpr hlt)
        · exact Nat.not_le.mp hle
      refine seq (removeRecord_spec hbelow) fun _ =>
        ih hstart hreplays hsorted.2 hrest fun l hle hl => ?_
      refine (mem_cons.mp (hnew l hle hl)).resolve_left ?_
      omega
    · cases hreplays with
      | refl => exact absurd (hbound lsn hmem) hlt
      | @step _ _ record hread hallow hrun =>
        -- The list is sorted and has the next LSN, so its head is that LSN.
        have hlsn : lsn = state.nextLsn := by
          have hnext := hnew _ (Nat.le_refl _) (mem_iff_exists_getElem?.mpr ⟨_, hread⟩)
          rcases mem_cons.mp hnext with h | h
          · exact h.symm
          · have := hsorted.1 _ h
            omega
        subst hlsn
        have hle : state.nextLsn + 1 ≤ final.nextLsn := hrun.nextLsn_le
        refine check (fun hne => absurd rfl hne) fun _ => ?_
        have hsame : ∀ s, TrimmedWal s₀ s₀.disk.wal start s →
            s.disk.wal.records[state.nextLsn]? = some record ∧
            s.disk.databaseId = s₀.disk.databaseId := by
          rintro s ⟨records, htrim, temporaries, nextUuid, -, rfl⟩
          exact ⟨(htrim.getElem? hstart).trans hread, rfl⟩
        refine seq (read_spec fun s hs => .inr ⟨record, (hsame s hs).1, ?_⟩) fun record' => ?_
        · rw [(hsame s hs).2]
          exact hvalid _ _ hread
        · apply of_forall
          rintro s₁ ⟨h₁, hr, _⟩
          rw [(hsame s₁ h₁).1] at hr
          cases hr
          have hadvance : state.advance record = .ok (state.push record) :=
            advance_eq_ok.mpr ⟨hallow, by omega, rfl⟩
          rw [hadvance]
          refine lift_bind (fun st hst => ?_) nofun
          cases hst
          refine weaken (ih (Nat.le_succ_of_le hstart) hrun hsorted.2 ?_ ?_)
            (fun s h => h ▸ h₁) fun _ _ h => h
          · exact fun l hl => ⟨(hrest l hl).1, fun _ => hsorted.1 l hl⟩
          · intro l hle hl
            have hge : state.nextLsn + 1 ≤ l := hle
            refine (mem_cons.mp (hnew l (by omega) hl)).resolve_left ?_
            omega

/-- What `open` returns for files that agree with `wal`. -/
structure Reopened (files : WalFiles) (wal state : WalState) : Prop where
  replays : Replays files.records ⟨files.start, ∅⟩ state
  covers : Covers state (settled files wal)
  bounded : ∀ lsn, lsn ∈ files.records → lsn < state.nextLsn
  available : state.nextLsn < u64Limit

variable {wal : WalState}

/-- `open` succeeds on consistent files, and it only removes records that
replay does not read. -/
theorem openWal_spec (hcons : Consistent s₀.disk.databaseId s₀.disk.wal wal) :
    Spec faults (· = s₀) openWal
      (outcome (fun state s => TrimmedWal s₀ s₀.disk.wal s₀.disk.wal.start s ∧
          Reopened s₀.disk.wal wal state)
        fun s => faults ∧ TrimmedWal s₀ s₀.disk.wal s₀.disk.wal.start s) := by
  have hwal : ∀ s, faults ∧ WithWal s₀ s₀.disk.wal s →
      faults ∧ TrimmedWal s₀ s₀.disk.wal s₀.disk.wal.start s :=
    fun s h => ⟨h.1, .of_withWal h.2⟩
  unfold openWal
  refine idle_bind (fun hf _ s h => hwal s ⟨hf, h ▸ .refl s⟩) ?_
  refine seq (weakenOutcome removeAtomicTemps_spec (fun _ _ h => h)
    fun _ => hwal) fun _ => ?_
  refine idle_bind (fun hf _ s h => hwal s ⟨hf, h⟩) ?_
  refine get_bind fun s₁ h₁ => ?_
  obtain ⟨temporaries, nextUuid, hle, hs₁⟩ := id h₁
  refine weaken (P := WithWal s₀ s₀.disk.wal) ?_ (fun s h => h ▸ h₁) fun _ _ h => h
  refine seq (weakenOutcome (readCheckpoint_spec s₀.disk.wal.start ?_ ?_)
    (fun _ _ h => h) fun _ => hwal) fun r => ?_
  · rintro s ⟨_, _, _, rfl⟩
    rfl
  · rintro s ⟨_, _, _, rfl⟩
    exact hcons.checkpointValid
  · apply of_forall
    rintro s₂ ⟨h₂, hr⟩
    obtain ⟨nextLsn, generation⟩ := r
    change nextLsn = _ at hr
    subst hr
    obtain ⟨final, hreplays, hcovers, hlimit, hbound⟩ := hcons.replays_settled
    have hkeys : s₁.disk.wal.records = s₀.disk.wal.records := by rw [hs₁]
    rw [hkeys]
    refine weaken (weakenOutcome (replayFiles_spec
      hcons.recordsValid hlimit hbound (Nat.le_refl s₀.disk.wal.start) hreplays
      ?_ ?_ ?_) (fun st s h => ⟨h.1, ?_⟩) fun _ _ h => h)
      (fun s h => h ▸ .of_withWal h₂) fun _ _ h => h
    · exact ordered_keys.imp fun h => Nat.compare_eq_lt.mp h
    · exact fun lsn hlsn => ⟨mem_keys.mp hlsn, fun h => h⟩
    · exact fun lsn _ hlsn => mem_keys.mpr hlsn
    · obtain ⟨-, rfl⟩ := h
      exact ⟨hreplays, hcovers, hbound, hlimit⟩

/-- The state `open` returns agrees with the files it leaves. -/
theorem Reopened.consistent {databaseId : Uuid} {files : WalFiles} {records : Records}
    (hcons : Consistent databaseId files wal) (h : Reopened files wal state)
    (htrim : Trimmed files.start files.records records) :
    Consistent databaseId { files with records } state where
  checkpointValid := hcons.checkpointValid
  recordsValid := (hcons.trim htrim).recordsValid
  bounded lsn hmem := Nat.le_of_lt (h.bounded lsn (htrim.mem_of hmem))
  replays := ⟨state, h.replays.congr fun lsn hle _ => htrim.getElem? hle, .refl _⟩
  pending record hread := by
    have hlt := h.bounded _ (mem_iff_exists_getElem?.mpr ⟨_, htrim.some_of hread⟩)
    exact absurd hlt (lt_irrefl _)
  available := h.available

end Open

end Wal

end RustDb.Native
