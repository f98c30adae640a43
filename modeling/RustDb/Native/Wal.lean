import RustDb.Native.Database

/-!
# The write-ahead log

The log is a directory with one file per record, named by its LSN, and a
CHECKPOINT file that says where replay starts.

* `Wal.append`, `Wal.checkpoint` and `Wal.openWal` are the programs of the code,
  with the reconciliation of an append that failed after its record appeared.
-/

namespace RustDb.Native

open Std RustDb.Lib Faulty Program ExtTreeMap Record

/-- The version of log records that is read and written. -/
def walFormatVersion : Nat := 1

/-- The version of checkpoints that is read and written. -/
def checkpointFormatVersion : Nat := 1

/-! ## Records -/

/-- A record belongs to this database and to the place where it was found, and a commit advances the
catalog by one generation. -/
def Record.validate (record : Record) (path : Path) (databaseId : Uuid)
    (expectedLsn : Nat) : Except Error Unit := do
  let formatVersion := record.formatVersion
  rejectIf (formatVersion ≠ walFormatVersion) (.nativeStorage path
    s!"unsupported WAL format version {formatVersion}; expected {walFormatVersion}")
  rejectIf (record.databaseId ≠ databaseId)
    (.nativeStorage path "WAL record belongs to another database")
  let lsn := record.lsn
  rejectIf (lsn = 0 ∨ lsn ≠ expectedLsn) (.nativeStorage path
    s!"WAL record LSN mismatch: expected {expectedLsn}, found {lsn}")
  match record.kind with
  | .catalogCommit expectedGeneration generation =>
    rejectIf (checkedAdd expectedGeneration 1 ≠ some generation)
      (.nativeStorage path
        "WAL catalog commit does not advance exactly one generation")
  | _ => pure ()

/-- `record::write`: validation, then an atomic creation. -/
def Record.write (record : Record) : Program Unit := do
  lift
    (record.validate (.walRecord record.lsn) record.databaseId record.lsn)
  atomicCreate (.walRecord record.lsn)
    (fun disk => decide (record.lsn ∈ disk.wal.records))
    (fun disk => { disk with
      wal := { disk.wal with
        records := disk.wal.records.insert record.lsn record } })

/-- A record is read and checked. -/
def Record.read (lsn : Nat) : Program Record := do
  touch (.walRecord lsn)
  let database ← get
  match database.disk.wal.records[lsn]? with
  | none => fail (.io (some (.walRecord lsn)))
  | some record =>
    lift
      (record.validate (.walRecord lsn) database.disk.databaseId lsn)
    pure record

/-! ## Transitions -/

/-- `validate_transition`: the steps of the life of a transaction. -/
def WalState.validateTransition (state : WalState) (transactionId : Uuid)
    (kind : RecordKind) : Except Error Unit :=
  match state.transactions[transactionId]?, kind with
  | none, .begin _ _ => .ok ()
  | some .active, .catalogCommit _ _ => .ok ()
  | some .active, .abort => .ok ()
  | _, _ => .error (.nativeStorage (.label "wal")
      s!"invalid WAL transaction state transition for {transactionId}")

/-- What becomes of the transaction of a record. -/
def Record.transactionState (record : Record) : TransactionState :=
  match record.kind with
  | .begin _ _ => .active
  | .catalogCommit expectedGeneration generation =>
    .catalogCommitted
      { transactionId := record.transactionId, expectedGeneration, generation }
  | .abort => .aborted

/-- A record is replayed if its transaction may take that step. -/
def WalState.applyRecord (state : WalState) (record : Record) :
    Except Error WalState := do
  state.validateTransition record.transactionId record.kind
  pure { state with
    transactions :=
      state.transactions.insert record.transactionId record.transactionState }

/-- `apply_record` and the advance of `next_lsn`. -/
def WalState.advance (state : WalState) (record : Record) :
    Except Error WalState := do
  let state ← state.applyRecord record
  match checkedAdd state.nextLsn 1 with
  | some nextLsn => pure { state with nextLsn }
  | none => throw (.resourceExhausted "WAL LSN counter is exhausted")

namespace Wal

/-- The error of an append whose outcome is not known. -/
def ambiguousAppendError (record : Record) (message : String) : Error :=
  match record.kind with
  | .catalogCommit _ _ =>
    .commitOutcomeUnknown (.walRecord record.lsn) record.transactionId message
  | .begin _ _ | .abort => .nativeStorage (.walRecord record.lsn) message

/-- What `append` does after `record::write` failed: only the absence of the
file proves that the record was not published. -/
def reconcile (record : Record) (writeError : Error) : Program Unit := do
  let lsn := record.lsn
  let inspection ← attempt (touch (.walRecord lsn))
  match inspection with
  | .error _ =>
    fail (ambiguousAppendError record
      s!"WAL append {lsn} failed and its publication could not be inspected; reopen the engine")
  | .ok () =>
    let database ← get
    if lsn ∉ database.disk.wal.records then fail writeError
    else
      let read ← attempt (read lsn)
      match read with
      | .error _ =>
        fail (ambiguousAppendError record
          s!"WAL append {lsn} failed after a record appeared, but publication could not be reconciled; reopen the engine")
      | .ok persisted =>
        if persisted ≠ record then
          fail (ambiguousAppendError record
            s!"WAL append {lsn} failed and the published record did not match the intended record; reopen the engine")
        else
          mapError (fun _ => ambiguousAppendError record
            s!"WAL record {lsn} was published but its directory durability remains unknown; reopen the engine")
            (touch .walRecords)

/-- The part of `append` that makes `record` durable. -/
def publish (record : Record) : Program Unit := do
  let written ← attempt record.write
  match written with
  | .ok () => pure ()
  | .error writeError => reconcile record writeError

/-- The record that an append writes next. -/
def nextRecord (database : Database) (transactionId : Uuid) (kind : RecordKind) :
    Record :=
  { formatVersion := walFormatVersion
    databaseId := database.disk.databaseId
    lsn := database.wal.nextLsn
    transactionId
    kind }

/-- A record is checked, written and only then applied to the state in memory. -/
def append (transactionId : Uuid) (kind : RecordKind) : Program Unit := do
  let database ← get
  lift (database.wal.validateTransition transactionId kind)
  let record := nextRecord database transactionId kind
  publish record
  let applied ← lift (database.wal.applyRecord record)
  modify fun d => { d with wal := applied }
  match checkedAdd applied.nextLsn 1 with
  | some nextLsn => modify fun d => { d with wal := { d.wal with nextLsn } }
  | none => fail (.resourceExhausted "WAL LSN counter is exhausted")

/-- A transaction begins at the generation that it reads. -/
def begin (transactionId : Uuid) (snapshotGeneration : Nat) : Program Unit :=
  append transactionId (.begin snapshotGeneration .readWrite)

/-- A transaction has published its generation of the catalog. -/
def commitCatalog (transactionId : Uuid) (expectedGeneration generation : Nat) :
    Program Unit :=
  append transactionId (.catalogCommit expectedGeneration generation)

/-- A transaction ends without a new generation. -/
def abort (transactionId : Uuid) : Program Unit :=
  append transactionId .abort

/-- The transactions a state has as active, in order. -/
def activeTransactions (state : WalState) : List Uuid :=
  (state.transactions.toList.filter fun (_, s) => s = .active).map Prod.fst

/-- After a restart no transaction can go on. -/
def abortRecoveredTransactions : Program Unit := do
  let database ← get
  forM (activeTransactions database.wal) abort

/-! ## Checkpoints -/

/-- A checkpoint belongs to this database and its numbers can be true. -/
def validateCheckpoint (checkpoint : Checkpoint) (databaseId : Uuid) :
    Except Error Unit := do
  let formatVersion := checkpoint.formatVersion
  rejectIf (formatVersion ≠ checkpointFormatVersion)
    (.nativeStorage .walCheckpoint
      s!"unsupported WAL checkpoint format {formatVersion}; expected {checkpointFormatVersion}")
  rejectIf (checkpoint.databaseId ≠ databaseId)
    (.nativeStorage .walCheckpoint "WAL checkpoint belongs to another database")
  rejectIf (checkpoint.nextLsn = 0)
    (.nativeStorage .walCheckpoint "WAL checkpoint next LSN must be positive")

/-- `checkpoint::read`: where replay starts and the generation it starts from.  The file is
absent only if it is not on the disk: `Path::exists` also says so of a file that cannot be
inspected, a fault that no script has. -/
def readCheckpoint : Program (Nat × Nat) := do
  let database ← get
  match database.disk.wal.checkpoint with
  | none => pure (1, 0)
  | some checkpoint =>
    touch .walCheckpoint
    lift (validateCheckpoint checkpoint database.disk.databaseId)
    pure (checkpoint.nextLsn, checkpoint.catalogGeneration)

/-- The next record number is written down, so that the records before it are not needed. -/
def writeCheckpoint (nextLsn catalogGeneration : Nat) : Program Unit := do
  let database ← get
  let checkpoint : Checkpoint :=
    { formatVersion := checkpointFormatVersion
      databaseId := database.disk.databaseId
      nextLsn
      catalogGeneration }
  lift (validateCheckpoint checkpoint database.disk.databaseId)
  let publish (disk : Disk) : Disk :=
    { disk with wal := { disk.wal with checkpoint := some checkpoint } }
  if database.disk.wal.checkpoint.isSome then
    let id ← newUuid
    atomicReplace .walCheckpoint id publish
  else
    atomicCreate .walCheckpoint
      (fun disk => disk.wal.checkpoint.isSome) publish

/-- `io::remove_file` for the record `lsn`. -/
def removeRecord (lsn : Nat) : Program Unit :=
  write (.walRecord lsn) fun disk =>
    { disk with wal := { disk.wal with records := disk.wal.records.erase lsn } }

/-- `Wal::checkpoint`: the number of removed records. -/
def checkpoint (catalogGeneration : Nat) : Program Nat := do
  let database ← get
  lift (rejectIf (activeTransactions database.wal ≠ [])
    (.invalidArgument "CHECKPOINT cannot run while a native write is active"))
  let nextLsn := database.wal.nextLsn
  writeCheckpoint nextLsn catalogGeneration
  touch .walRecords
  let database ← get
  let old := database.disk.wal.records.keys.filter (· < nextLsn)
  forM old removeRecord
  modify fun d => { d with wal := { d.wal with transactions := ∅ } }
  pure old.length

/-! ## Open -/

/-- Whether a temporary file belongs to the WAL directory. -/
def isWalTemporary : Path → Bool
  | .walRecord _ => true
  | .walCheckpoint => true
  | _ => false

/-- Files of writes that did not end are removed. -/
def removeAtomicTemps : Program Unit := do
  touch .walRecords
  let database ← get
  forM (database.disk.temporaries.filter isWalTemporary) fun path =>
    write path (Disk.removeTemporary path)

/-- The loop of `Wal::open` over the record files, in the order of their LSNs. -/
def replayFiles (state : WalState) : List Nat → Program WalState
  | [] => pure state
  | lsn :: rest =>
    if lsn < state.nextLsn then do
      removeRecord lsn
      replayFiles state rest
    else do
      let expected := state.nextLsn
      lift (rejectIf (lsn ≠ state.nextLsn) (.nativeStorage (.walRecord lsn)
        s!"WAL LSN sequence is not contiguous: expected {expected}, found {lsn}"))
      let record ← read lsn
      let state ← lift (state.advance record)
      replayFiles state rest

/-- The state that the checkpoint and the records behind it give.  Records before the checkpoint are
removed; the others must be numbered without a gap. -/
def openWal : Program WalState := do
  touch .walRecords
  removeAtomicTemps
  touch .walRecords
  let database ← get
  let (nextLsn, _) ← readCheckpoint
  replayFiles { nextLsn, transactions := ∅ } database.disk.wal.records.keys

end Wal

/-! ## What an append can do -/

/-- The disk with one more record. -/
def Disk.putRecord (disk : Disk) (record : Record) : Disk :=
  { disk with
    wal := { disk.wal with
      records := disk.wal.records.insert record.lsn record } }

/-- The state after `apply_record`, before the LSN advances. -/
def WalState.applied (state : WalState) (record : Record) : WalState :=
  { state with
    transactions :=
      state.transactions.insert record.transactionId record.transactionState }

/-- The state after a record has been applied. -/
def WalState.push (state : WalState) (record : Record) : WalState :=
  { nextLsn := state.nextLsn + 1
    transactions :=
      state.transactions.insert record.transactionId record.transactionState }

/-- The records the code writes and accepts. -/
def Record.Valid (record : Record) (databaseId : Uuid) (lsn : Nat) : Prop :=
  record.validate (.walRecord lsn) databaseId lsn = .ok ()

/-- The transitions `validateTransition` accepts. -/
def WalState.Allows (state : WalState) (record : Record) : Prop :=
  state.validateTransition record.transactionId record.kind = .ok ()

variable {record : Record}

theorem Record.Valid.lsn_eq {databaseId : Uuid} {lsn : Nat} (h : record.Valid databaseId lsn) :
    record.lsn = lsn ∧ record.databaseId = databaseId ∧ lsn ≠ 0 := by
  unfold Valid validate at h
  rw [check_bind_eq_ok, check_bind_eq_ok, check_bind_eq_ok] at h
  simp only [rejectIf_eq_ok, not_or, not_not, ne_eq] at h
  obtain ⟨-, hid, ⟨hpos, hlsn⟩, -⟩ := h
  exact ⟨hlsn, hid, hlsn ▸ hpos⟩

theorem WalState.advance_eq_ok {state state' : WalState} :
    state.advance record = .ok state' ↔ state.Allows record ∧
      state.nextLsn + 1 < u64Limit ∧ state' = state.push record := by
  unfold WalState.advance WalState.applyRecord WalState.Allows
  cases h : state.validateTransition record.transactionId record.kind with
  | error e => simp [bind, Except.bind]
  | ok u =>
    by_cases hlsn : state.nextLsn + 1 < u64Limit
    · simp [bind, Except.bind, pure, Except.pure, checkedAdd, hlsn, push, eq_comm]
    · simp [bind, Except.bind, pure, Except.pure, checkedAdd, hlsn, throw,
        throwThe, MonadExceptOf.throw]

theorem Disk.putRecord_of_getElem? {disk : Disk} (h : disk.wal.records[record.lsn]? = some record) :
    disk.putRecord record = disk := by
  have hmap : disk.wal.records.insert record.lsn record = disk.wal.records := by
    refine ext_getElem? fun {k} => ?_
    rw [getElem?_insert]
    split
    · rename_i hk
      rw [← Std.compare_eq_iff_eq.mp hk, h]
    · rfl
  rw [putRecord, hmap]

theorem putRecord_keepsTemporaries (record : Record) :
    KeepsTemporaries (Disk.putRecord · record) :=
  fun _ _ => rfl

namespace Wal

section Append

variable {faults : Prop} {s₀ : Database} {record : Record}

/-- The disks an interrupted append of `record` can leave. -/
def AppendedOrNot (disk : Disk) (record : Record) (disk' : Disk) : Prop :=
  disk' = disk ∨ (record.Valid disk.databaseId record.lsn ∧
    record.lsn ∉ disk.wal.records ∧ disk' = disk.putRecord record)

/-- `record` is on the disk, and no other record was in its place. -/
def Published (s₀ : Database) (record : Record) (s : Database) : Prop :=
  record.Valid s₀.disk.databaseId record.lsn ∧
    (record.lsn ∈ s₀.disk.wal.records →
      s₀.disk.wal.records[record.lsn]? = some record) ∧
    s₀.WithFiles (s₀.disk.putRecord record) s

theorem write_spec (hid : record.databaseId = s₀.disk.databaseId)
    (hgood : faults ∨ (record.Valid s₀.disk.databaseId record.lsn ∧
      record.lsn ∉ s₀.disk.wal.records)) :
    Spec faults (· = s₀) record.write
      (outcome (fun _ => Published s₀ record)
        (Interrupted faults s₀ (AppendedOrNot s₀.disk record))) := by
  unfold Record.write
  rw [hid]
  refine Spec.lift_bind (fun _ hvalid => ?_) fun e s herror hs => ?_
  · refine Spec.weakenOutcome (atomicCreate_spec
      (putRecord_keepsTemporaries record) ?_) ?_ ?_
    · exact hgood.imp_right fun h => decide_eq_false h.2
    · rintro _ s ⟨hfree, h⟩
      exact ⟨hvalid, fun hmem => absurd hmem (of_decide_eq_false hfree), h⟩
    · rintro _ s ⟨hf, disk, rfl | ⟨hfree, rfl⟩, h⟩
      · exact ⟨hf, _, .inl rfl, h⟩
      · exact ⟨hf, _, .inr ⟨hvalid, of_decide_eq_false hfree, rfl⟩, h⟩
  · refine ⟨hgood.resolve_right fun h => ?_, _, .inl rfl, hs ▸ .refl s⟩
    cases h.1.symm.trans herror

theorem read_spec {P : Database → Prop} {lsn : Nat}
    (hgood : ∀ s, P s → faults ∨ ∃ record, s.disk.wal.records[lsn]? = some record ∧
      record.Valid s.disk.databaseId lsn) :
    Spec faults P (read lsn) (outcome
      (fun record s => P s ∧ s.disk.wal.records[lsn]? = some record ∧
        record.Valid s.disk.databaseId lsn)
      fun s => faults ∧ P s) := by
  unfold Record.read
  refine Spec.seq touch_spec fun _ => Spec.get_bind fun s₁ h₁ => ?_
  have hgood := hgood s₁ h₁
  cases hr : s₁.disk.wal.records[lsn]? with
  | none =>
    refine Spec.fail fun s hs => ⟨hgood.resolve_right ?_, hs ▸ h₁⟩
    rintro ⟨record, h, -⟩
    rw [hr] at h
    cases h
  | some record =>
    refine Spec.lift_bind (fun _ hvalid => ?_) fun e s herror hs => ?_
    · exact Spec.pure fun s hs => hs ▸ ⟨h₁, hr, hvalid⟩
    · refine ⟨hgood.resolve_right ?_, hs ▸ h₁⟩
      rintro ⟨record', h', hvalid⟩
      rw [hr] at h'
      cases h'
      cases hvalid.symm.trans herror

/-- The states after an append of `record` that did not succeed.  The record is
on the disk only after a crash or an error that says the outcome is unknown. -/
def NotAppended (faults : Prop) (s₀ : Database) (record : Record)
    (error : Option Error) (s : Database) : Prop :=
  faults ∧ ∃ disk, s₀.WithFiles disk s ∧ (disk = s₀.disk ∨
    (record.Valid s₀.disk.databaseId record.lsn ∧ s₀.wal.Allows record ∧
      record.lsn ∉ s₀.disk.wal.records ∧ disk = s₀.disk.putRecord record ∧
      ∀ e ∈ error, ∃ message, e = ambiguousAppendError record message))

theorem NotAppended.of_interrupted {s : Database} {error : Option Error}
    (hallow : s₀.wal.Allows record)
    (h : Interrupted faults s₀ (AppendedOrNot s₀.disk record) s)
    (he : ∀ e ∈ error, ∃ message, e = ambiguousAppendError record message) :
    NotAppended faults s₀ record error s := by
  obtain ⟨hf, disk, rfl | ⟨hv, hfree, rfl⟩, h⟩ := h
  · exact ⟨hf, _, h, .inl rfl⟩
  · exact ⟨hf, _, h, .inr ⟨hv, hallow, hfree, rfl, he⟩⟩

/-- A reconciliation that succeeds found the record that was to be written. -/
theorem reconcile_spec {writeError : Error} (hallow : s₀.wal.Allows record) :
    Spec faults (Interrupted faults s₀ (AppendedOrNot s₀.disk record))
      (reconcile record writeError)
      (ends (fun _ => Published s₀ record) (NotAppended faults s₀ record)) := by
  have hcrash : ∀ s, Interrupted faults s₀ (AppendedOrNot s₀.disk record)
      s → NotAppended faults s₀ record none s :=
    fun s h => .of_interrupted hallow h (by simp)
  have hambiguous : ∀ message s, Interrupted faults s₀
      (AppendedOrNot s₀.disk record) s → NotAppended faults s₀ record
        (some (ambiguousAppendError record message)) s :=
    fun message s h => .of_interrupted hallow h (by simp)
  unfold reconcile
  refine Spec.attempt_bind (Spec.weakenOutcome touch_spec
    (fun _ _ h => h) fun _ _ h => h.2) hcrash (fun _ => ?_)
    fun _ => Spec.fail (hambiguous _)
  refine Spec.get_bind fun s₁ h₁ => ?_
  split
  · rename_i hfree
    refine Spec.fail fun s hs => ?_
    obtain ⟨hf, disk, hdisk, temporaries, hs₁⟩ := h₁
    refine ⟨hf, disk, ⟨temporaries, hs ▸ hs₁⟩, hdisk.imp_right ?_⟩
    rintro ⟨-, -, rfl⟩
    rw [hs₁] at hfree
    exact absurd mem_insert_self hfree
  · refine Spec.attempt_bind (Q := fun persisted s => s = s₁ ∧
      s₁.disk.wal.records[record.lsn]? = some persisted ∧
      persisted.Valid s₁.disk.databaseId record.lsn) (E := fun _ s => s = s₁)
      ?_ (fun s h => h ▸ hcrash s₁ h₁) (fun persisted => ?_)
      fun _ => Spec.fail fun s h => h ▸ hambiguous _ s₁ h₁
    · refine Spec.weakenOutcome (read_spec fun _ _ => .inl h₁.1) ?_ ?_
      · rintro persisted s ⟨rfl, hread, hvalid⟩
        exact ⟨rfl, hread, hvalid⟩
      · rintro _ s ⟨-, rfl⟩
        rfl
    · apply Spec.of_forall
      rintro s₂ ⟨hs₂, hread, hvalid⟩
      subst hs₂
      by_cases heq : persisted = record
      · subst heq
        simp only [ne_eq, not_true_eq_false, if_false]
        obtain ⟨hf, disk, hdisk, temporaries, hs⟩ := id h₁
        have hput : disk = s₀.disk.putRecord persisted ∧
            persisted.Valid s₀.disk.databaseId persisted.lsn ∧
            (persisted.lsn ∈ s₀.disk.wal.records →
              s₀.disk.wal.records[persisted.lsn]? = some persisted) := by
          subst hs
          rcases hdisk with rfl | ⟨-, hfree, rfl⟩
          · have hread : s₀.disk.wal.records[persisted.lsn]? = some persisted :=
              hread
            exact ⟨(Disk.putRecord_of_getElem? hread).symm, hvalid, fun _ => hread⟩
          · exact ⟨rfl, hvalid, fun h => absurd h hfree⟩
        refine Spec.mapError (touch_spec (P := fun s => s = s₂)) ?_ ?_ ?_
        · rintro _ s rfl
          exact ⟨hput.2.1, hput.2.2, temporaries, hput.1 ▸ hs⟩
        · rintro _ s ⟨-, rfl⟩
          exact hambiguous _ s h₁
        · rintro s ⟨-, rfl⟩
          exact hcrash s h₁
      · simp only [ne_eq, heq, not_false_eq_true, if_true]
        exact Spec.fail fun s hs => hs ▸ hambiguous _ s₂ h₁

theorem publish_spec (hid : record.databaseId = s₀.disk.databaseId)
    (hallow : s₀.wal.Allows record)
    (hgood : faults ∨ (record.Valid s₀.disk.databaseId record.lsn ∧
      record.lsn ∉ s₀.disk.wal.records)) :
    Spec faults (· = s₀) (publish record)
      (ends (fun _ => Published s₀ record) (NotAppended faults s₀ record)) :=
  Spec.attempt_bind (write_spec hid hgood)
    (fun _ h => .of_interrupted hallow h (by simp)) (fun _ => Spec.pure fun _ h => h)
    fun _ => reconcile_spec hallow

/-- The state after `append` wrote `record`. -/
def Appended (s₀ : Database) (record : Record) (s : Database) : Prop :=
  record.Valid s₀.disk.databaseId record.lsn ∧ s₀.wal.Allows record ∧
    (record.lsn ∈ s₀.disk.wal.records →
      s₀.disk.wal.records[record.lsn]? = some record) ∧
    ∃ temporaries, s = { s₀ with
      disk := (s₀.disk.putRecord record).setTemporaries temporaries
      wal := s₀.wal.push record }

/-- The state after an append at the last LSN: the record is published and
applied, and the counter cannot advance. -/
def Exhausted (s₀ : Database) (record : Record) (error : Option Error)
    (s : Database) : Prop :=
  ¬ s₀.wal.nextLsn + 1 < u64Limit ∧ record.Valid s₀.disk.databaseId record.lsn ∧
    s₀.wal.Allows record ∧
    (record.lsn ∈ s₀.disk.wal.records →
      s₀.disk.wal.records[record.lsn]? = some record) ∧
    error = some (.resourceExhausted "WAL LSN counter is exhausted") ∧
    ∃ temporaries, s = { s₀ with
      disk := (s₀.disk.putRecord record).setTemporaries temporaries
      wal := s₀.wal.applied record }

variable {transactionId : Uuid} {kind : RecordKind}

/-- `append` writes the record and applies it, or leaves the memory alone and
the disk with or without the record, unless the LSNs are exhausted. -/
theorem append_spec_any (hrec : record = nextRecord s₀ transactionId kind)
    (hgood : faults ∨ (record.Valid s₀.disk.databaseId record.lsn ∧
      s₀.wal.Allows record ∧ record.lsn ∉ s₀.disk.wal.records)) :
    Spec faults (· = s₀) (append transactionId kind)
      (ends (fun _ s => Appended s₀ record s ∧ s₀.wal.nextLsn + 1 < u64Limit)
        fun e s => NotAppended faults s₀ record e s ∨ Exhausted s₀ record e s) := by
  have hid : record.transactionId = transactionId := by rw [hrec]; rfl
  have hkind : record.kind = kind := by rw [hrec]; rfl
  have hdb : record.databaseId = s₀.disk.databaseId := by rw [hrec]; rfl
  unfold append
  refine Spec.get_self (Spec.lift_bind (fun _ h => ?_) fun e s h hs => ?_)
  · have hallow : s₀.wal.Allows record := by rw [WalState.Allows, hid, hkind, h]
    rw [← hrec]
    refine Spec.andThen (publish_spec hdb hallow ?_) (fun _ _ h => .inl h)
      fun _ s₁ ⟨hvalid, hsame, temporaries, hs₁⟩ => ?_
    · exact hgood.imp_right fun h => ⟨h.1, h.2.2⟩
    · have happly : s₀.wal.applyRecord record = .ok (s₀.wal.applied record) := by
        rw [WalState.applyRecord, hallow]
        rfl
      rw [happly]
      refine Spec.lift_bind (fun applied happlied => ?_) nofun
      cases happlied
      refine Spec.modify_self ?_
      by_cases hlsn : s₀.wal.nextLsn + 1 < u64Limit
      · rw [show checkedAdd (s₀.wal.applied record).nextLsn 1 = _ from if_pos hlsn]
        refine Spec.modify fun s hs =>
          ⟨⟨hvalid, hallow, hsame, temporaries, ?_⟩, hlsn⟩
        rw [hs, hs₁]
        rfl
      · rw [show checkedAdd (s₀.wal.applied record).nextLsn 1 = _ from if_neg hlsn]
        refine Spec.fail fun s hs =>
          .inr ⟨hlsn, hvalid, hallow, hsame, rfl, temporaries, ?_⟩
        rw [hs, hs₁]
  · refine .inl ⟨hgood.resolve_right fun hg => ?_, _, hs ▸ .refl s, .inl rfl⟩
    have hallow := hg.2.1
    rw [WalState.Allows, hid, hkind, h] at hallow
    cases hallow

/-- `append_spec_any` before the last LSN. -/
theorem append_spec (hrec : record = nextRecord s₀ transactionId kind)
    (hlsn : s₀.wal.nextLsn + 1 < u64Limit)
    (hgood : faults ∨ (record.Valid s₀.disk.databaseId record.lsn ∧
      s₀.wal.Allows record ∧ record.lsn ∉ s₀.disk.wal.records)) :
    Spec faults (· = s₀) (append transactionId kind)
      (ends (fun _ => Appended s₀ record) (NotAppended faults s₀ record)) :=
  Spec.weakenOutcome (append_spec_any hrec hgood) (fun _ _ h => h.1)
    fun _ _ h => h.resolve_right fun hex => hex.1 hlsn

end Append

end Wal

end RustDb.Native
