import RustDb.Lib.Run
import RustDb.Native.WalRecovery

/-!
# Runs of the log

A `Log` is a WAL directory with the `Wal` that has it open.  Its events are the
calls of the `Wal`, each with the faults that strike it, a crash between two
calls, and `Wal::open` by a new process.

* `LogOk` is the invariant: the files agree with the last live state, and a
  record beyond it belongs to an append that did not report success.
* `LogExtends` relates the files of two moments of a run: an LSN keeps its record
  until a checkpoint passes it, and is not used again afterwards.
-/

namespace RustDb.Native

open Std RustDb.Lib Faulty Wal ExtTreeMap

/-- The calls of the log. -/
inductive WalCall where
  | begin (transactionId : Uuid) (snapshotGeneration : Nat)
  | commitCatalog (transactionId : Uuid) (expectedGeneration generation : Nat)
  | abort (transactionId : Uuid)
  | checkpoint (catalogGeneration : Nat)
deriving DecidableEq, Repr

namespace WalCall

/-- The program of a call. -/
def program : WalCall → Program Unit
  | .begin transactionId generation => Wal.begin transactionId generation
  | .commitCatalog transactionId expected generation =>
    Wal.commitCatalog transactionId expected generation
  | .abort transactionId => Wal.abort transactionId
  | .checkpoint generation => do
    let _ ← Wal.checkpoint generation
    pure ()

/-- The record a call appends. -/
def record (database : Database) : WalCall → Option Record
  | .begin transactionId generation =>
    some (nextRecord database transactionId (.begin generation .readWrite))
  | .commitCatalog transactionId expected generation =>
    some (nextRecord database transactionId (.catalogCommit expected generation))
  | .abort transactionId => some (nextRecord database transactionId .abort)
  | .checkpoint _ => none

end WalCall

/-- A call or a reopening with what happens to its file accesses, or a crash between two calls. -/
inductive LogEvent where
  | call (call : WalCall) (script : List Outcome)
  | crash
  | reopen (script : List Outcome)
deriving DecidableEq, Repr

/-- A WAL directory.  `database.wal` is the state of the last live `Wal`, and
`unsettled` are the records of its appends that did not succeed, with their
errors; an append that crashed has none. -/
structure Log where
  database : Database
  alive : Bool
  unsettled : List (Record × Option Error)

namespace Log

/-- A new log, beside any other files. -/
def initial (database : Database) : Log where
  database := { database with
    disk := { database.disk with wal := ⟨none, ∅⟩ }
    wal := ⟨1, ∅⟩ }
  alive := true
  unsettled := []

/-- The appends without success after a call that was to append `record`. -/
def note (log : Log) (record : Option Record) (result : Result Error Unit) :
    List (Record × Option Error) :=
  match record, result with
  | some record, .error error => (record, some error) :: log.unsettled
  | some record, .crash => (record, none) :: log.unsettled
  | _, _ => log.unsettled

/-- One event; a process that has crashed does nothing until the log is reopened. -/
def step (log : Log) : LogEvent → Log
  | .call call script =>
    if log.alive then
      let (result, after) := call.program.run log.database script
      { database := after.state
        alive := result ≠ .crash
        unsettled := log.note (call.record log.database) result }
    else log
  | .crash => { log with alive := false }
  | .reopen script =>
    if log.alive then log
    else
      match openWal.run log.database script with
      | (.ok state, after) =>
        { database := { after.state with wal := state }
          alive := true
          unsettled := [] }
      | (_, after) => { log with database := after.state }

/-- An append needs an LSN whose successor fits the counter. -/
def HasRoom (log : Log) : LogEvent → Prop
  | .call call _ => (call.record log.database).isSome →
    log.database.wal.nextLsn + 1 < u64Limit
  | _ => True

/-- The files of the log. -/
abbrev files (log : Log) : WalFiles := log.database.disk.wal

/-- The state of the last live `Wal`. -/
abbrev live (log : Log) : WalState := log.database.wal

end Log

/-! ## The invariant -/

/-- The append of `record` ended with an error that leaves the outcome open, or
with a crash. -/
def Log.InDoubt (log : Log) (record : Record) : Prop :=
  ∃ error, (record, error) ∈ log.unsettled ∧
    ∀ e ∈ error, ∃ message, e = ambiguousAppendError record message

/-- The files and the state in memory agree but for records whose write was reported as failed. -/
structure LogOk (log : Log) : Prop where
  consistent : Consistent log.database.disk.databaseId log.files log.live
  pending : ∀ record, log.files.records[log.live.nextLsn]? = some record →
    log.InDoubt record

/-- From `files` on, an LSN keeps its record or loses it to a checkpoint, and an
LSN below the start of replay gets no record again. -/
structure LogExtends (files files' : WalFiles) : Prop where
  start_le : files.start ≤ files'.start
  kept : ∀ (lsn : Nat) record, files.records[lsn]? = some record →
    files'.records[lsn]? = some record ∨
      (files'.records[lsn]? = none ∧ lsn < files'.start)
  gone : ∀ lsn : Nat, lsn < files.start → files.records[lsn]? = none →
    files'.records[lsn]? = none

namespace LogExtends

variable {files files' files'' : WalFiles}

theorem refl (files : WalFiles) : LogExtends files files :=
  ⟨Nat.le_refl _, fun _ _ h => .inl h, fun _ _ h => h⟩

theorem trans (h : LogExtends files files') (h' : LogExtends files' files'') :
    LogExtends files files'' := by
  refine ⟨Nat.le_trans h.start_le h'.start_le, fun lsn record hread => ?_, fun lsn hlt hnone => ?_⟩
  · rcases h.kept lsn record hread with hsame | ⟨hnone, hlt⟩
    · exact h'.kept lsn record hsame
    · exact .inr ⟨h'.gone lsn hlt hnone, Nat.lt_of_lt_of_le hlt h'.start_le⟩
  · exact h'.gone lsn (Nat.lt_of_lt_of_le hlt h.start_le) (h.gone lsn hlt hnone)

theorem trimmed {records : Records}
    (h : Trimmed files.start files.records records) :
    LogExtends files { files with records } := by
  refine ⟨Nat.le_refl _, fun lsn record hread => ?_, fun lsn _ hnone => ?_⟩
  · rcases h lsn with heq | hgone
    · exact .inl (heq.trans hread)
    · exact .inr hgone
  · rcases h lsn with heq | ⟨hgone, -⟩
    · exact heq.trans hnone
    · exact hgone

theorem putCheckpoint {checkpoint : Checkpoint}
    (h : files.start ≤ checkpoint.nextLsn) :
    LogExtends files (files.putCheckpoint checkpoint) :=
  ⟨h, fun _ _ hread => .inl hread, fun _ _ hnone => hnone⟩

/-- A record at an LSN that is free, or that has this record already. -/
theorem insert {lsn : Nat} {record : Record} (hle : files.start ≤ lsn)
    (hfree : lsn ∈ files.records → files.records[lsn]? = some record) :
    LogExtends files { files with records := files.records.insert lsn record } := by
  refine ⟨Nat.le_refl _, fun k r hread => .inl ?_, fun k hlt hnone => ?_⟩
  · show (files.records.insert lsn record)[k]? = _
    rw [getElem?_insert]
    split
    · rename_i hk
      rw [Std.compare_eq_iff_eq] at hk
      subst hk
      rw [← hfree (mem_iff_exists_getElem?.mpr ⟨r, hread⟩), hread]
    · exact hread
  · show (files.records.insert lsn record)[k]? = _
    rw [getElem?_insert, if_neg]
    · exact hnone
    · rw [Std.compare_eq_iff_eq]
      omega

end LogExtends

/-! ## One step -/

namespace LogOk

variable {log : Log} {record : Record} {transactionId : Uuid} {kind : RecordKind} {s : Database}

section

variable (h : LogOk log)
include h

section

variable (hrec : record = nextRecord log.database transactionId kind)
  (hlsn : log.live.nextLsn + 1 < u64Limit)
include hrec hlsn

theorem appended (hs : Appended log.database record s) (alive : Bool) :
    LogOk ⟨s, alive, log.unsettled⟩ ∧ LogExtends log.files s.disk.wal := by
  obtain ⟨hvalid, hallow, hsame, temporaries, rfl⟩ := hs
  subst hrec
  have hcons := h.consistent.push hvalid hallow hlsn
  refine ⟨⟨hcons, fun r hread => ?_⟩, .insert h.consistent.start_le hsame⟩
  have hle := h.consistent.bounded_insert _ (mem_iff_exists_getElem?.mpr ⟨r, hread⟩)
  exact absurd hle (Nat.not_succ_le_self _)

theorem notAppended {error : Option Error} (hs : NotAppended True log.database record error s)
    (alive : Bool) : LogOk ⟨s, alive, (record, error) :: log.unsettled⟩ ∧
      LogExtends log.files s.disk.wal := by
  obtain ⟨-, disk, ⟨temporaries, rfl⟩, rfl | ⟨hvalid, hallow, hfree, rfl, herror⟩⟩ := hs
  · refine ⟨⟨h.consistent, fun r hread => ?_⟩, .refl _⟩
    obtain ⟨e, hmem, he⟩ := h.pending r hread
    exact ⟨e, List.mem_cons_of_mem _ hmem, he⟩
  · subst hrec
    refine ⟨⟨h.consistent.pend hvalid hallow hlsn, fun r hread => ?_⟩,
      .insert h.consistent.start_le fun hmem => absurd hmem hfree⟩
    have hr : (log.files.records.insert log.live.nextLsn
        (nextRecord log.database transactionId kind))[log.live.nextLsn]? =
        some r := hread
    rw [getElem?_insert_self] at hr
    cases hr
    exact ⟨error, List.mem_cons_self .., herror⟩

/-- An append keeps the invariant, whatever its result. -/
theorem append (script : List Outcome) (alive : Bool) :
    LogOk ⟨((append transactionId kind).run log.database script).2.state, alive,
        log.note (some record)
          ((append transactionId kind).run log.database script).1⟩ ∧
      LogExtends log.files
        ((append transactionId kind).run log.database script).2.state.disk.wal := by
  have hspec := Spec.run (append_spec hrec hlsn (.inl trivial)) script rfl
  unfold run
  revert hspec
  cases (Wal.append transactionId kind ⟨log.database, script⟩).1 with
  | ok => exact fun hs => h.appended hrec hlsn hs alive
  | error | crash => exact fun hs => h.notAppended hrec hlsn hs alive

end

/-- Files that changed only below the start of replay. -/
theorem trimmed (hs : TrimmedWal log.database log.files log.files.start s) (alive : Bool) :
    LogOk { log with database := s, alive } ∧ LogExtends log.files s.disk.wal := by
  obtain ⟨records, htrim, temporaries, nextUuid, -, rfl⟩ := hs
  exact ⟨⟨h.consistent.trim htrim, fun r hread => h.pending r (htrim.some_of hread)⟩,
    .trimmed htrim⟩

/-- The checkpoint file is there, and some records below it are gone. -/
theorem checkpointing (hidle : ∀ id, ¬ log.live.Active id) {generation : Nat}
    (hlsn : log.live.nextLsn ≠ 0) (hs : TrimmedWal log.database (log.files.putCheckpoint
      (checkpointOf log.database generation)) log.live.nextLsn s) :
    LogOk { log with database := s } ∧ LogExtends log.files s.disk.wal ∧
      s.wal = log.live ∧ s.disk.wal.start = log.live.nextLsn := by
  obtain ⟨records, htrim, temporaries, nextUuid, -, rfl⟩ := hs
  have hcons := h.consistent.checkpointed hidle
    (validateCheckpoint_checkpointOf hlsn generation) rfl
  refine ⟨⟨hcons.trim htrim, fun r hread => h.pending r (htrim.some_of hread)⟩, ?_, rfl, rfl⟩
  exact (LogExtends.putCheckpoint h.consistent.start_le).trans (.trimmed htrim)

theorem nextLsn_ne_zero : log.live.nextLsn ≠ 0 := by
  have hle := h.consistent.start_le
  have hpos : log.files.start ≠ 0 := by
    unfold WalFiles.start
    split
    · exact Nat.one_ne_zero
    · rename_i checkpoint hc
      have hvalid := h.consistent.checkpointValid checkpoint hc
      simp only [validateCheckpoint, bind_eq_ok, rejectIf_eq_ok, exists_const] at hvalid
      exact hvalid.2.2
  omega

theorem checkpoint (generation : Nat) (script : List Outcome) (alive : Bool) : LogOk { log with
        database :=
          ((WalCall.checkpoint generation).program.run log.database script).2.state
        alive } ∧
      LogExtends log.files ((WalCall.checkpoint generation).program.run
        log.database script).2.state.disk.wal := by
  have hspec : Spec True (· = log.database) (WalCall.checkpoint generation).program (outcome
        (fun _ s => LogOk { log with database := s, alive } ∧ LogExtends log.files s.disk.wal)
        fun s => LogOk { log with database := s, alive } ∧ LogExtends log.files s.disk.wal) := by
    refine Spec.seq (Spec.weakenOutcome (checkpoint_spec generation
      h.nextLsn_ne_zero (.inl trivial)) ?_ ?_)
      fun _ => Spec.pure fun s hs => hs
    · rintro _ s ⟨hidle, s₁, hs₁, rfl⟩
      obtain ⟨hok, hext, hwal, hstart⟩ := h.checkpointing hidle h.nextLsn_ne_zero hs₁
      refine ⟨⟨hok.consistent.forget ?_ ?_, ?_⟩, hext⟩
      · rwa [Log.live, hwal]
      · show s₁.disk.wal.start = s₁.wal.nextLsn
        rw [hstart, hwal]
      · exact hok.pending
    · rintro _ s ⟨-, hs | ⟨hidle, hs⟩⟩
      · exact h.trimmed (.of_withWal hs) alive
      · have hstep := h.checkpointing hidle h.nextLsn_ne_zero hs
        exact ⟨⟨hstep.1.consistent, hstep.1.pending⟩, hstep.2.1⟩
  have hrun := hspec.run script rfl
  unfold run
  revert hrun
  cases ((WalCall.checkpoint generation).program ⟨log.database, script⟩).1 with
  | ok | error | crash => exact fun hs => hs

theorem reopen (hdead : log.alive = false) (script : List Outcome) :
    LogOk (log.step (.reopen script)) ∧
      LogExtends log.files (log.step (.reopen script)).files := by
  have hspec := Spec.run (openWal_spec h.consistent) script rfl
  unfold Log.step
  rw [hdead]
  simp only [Bool.false_eq_true, if_false, run]
  revert hspec
  rcases openWal ⟨log.database, script⟩ with ⟨_ | _ | _, after⟩
  · rintro ⟨⟨records, htrim, temporaries, nextUuid, -, hs⟩, hre⟩
    simp only at hs ⊢
    rw [hs]
    refine ⟨⟨hre.consistent h.consistent htrim, fun r hread => ?_⟩, .trimmed htrim⟩
    have hlt := hre.bounded _ (mem_iff_exists_getElem?.mpr ⟨r, htrim.some_of hread⟩)
    exact absurd hlt (lt_irrefl _)
  · exact fun hs => h.trimmed hs.2 false
  · exact fun hs => h.trimmed hs.2 false

/-- Every event keeps the invariant and extends the log. -/
theorem step (event : LogEvent) (hroom : log.HasRoom event) :
    LogOk (log.step event) ∧ LogExtends log.files (log.step event).files := by
  cases event with
  | crash => exact ⟨⟨h.consistent, h.pending⟩, .refl _⟩
  | reopen script =>
    cases halive : log.alive with
    | false => exact h.reopen halive script
    | true =>
      simp only [Log.step, halive, if_true]
      exact ⟨h, .refl _⟩
  | call call script =>
    unfold Log.step
    by_cases halive : log.alive
    · simp only [halive, if_true]
      cases call with
      | begin | commitCatalog | abort => exact h.append rfl (hroom rfl) script _
      | checkpoint generation => exact h.checkpoint generation script _
    · simp only [halive, Bool.false_eq_true, if_false]
      exact ⟨h, .refl _⟩

end

theorem initial (database : Database) : LogOk (Log.initial database) where
  consistent := .init _
  pending := by simp [Log.initial]

/-- The invariant after a run of a new log. -/
theorem run {database : Database} {events : List LogEvent}
    (h : Along Log.step Log.HasRoom (Log.initial database) events) :
    LogOk (runFrom Log.step (Log.initial database) events) :=
  h.invariant (initial database) fun _ event hlog hroom => (hlog.step event hroom).1

end LogOk

/-! ## Whole runs -/

/-- A live state with the record of an append in doubt. -/
def WalState.with (state : WalState) (extra : Option Record) : WalState :=
  extra.elim state state.push

/-- What a `Wal::open` that meets no fault finds in a log. -/
structure Log.Recovers (log : Log) (state : WalState) : Prop where
  /-- It is the live state, or that state with one record in doubt. -/
  agrees : ∃ extra : Option Record,
    (∀ record ∈ extra, record.lsn = log.live.nextLsn ∧ log.InDoubt record) ∧
    state.nextLsn = (log.live.with extra).nextLsn ∧
    ∀ id, state.Active id ↔ (log.live.with extra).Active id
  /-- It has seen every record since the last checkpoint. -/
  complete : ∀ lsn, lsn ∈ log.files.records → lsn < state.nextLsn
  /-- Since then, every transaction went through its life at most once. -/
  lifecycle : ∀ id, Lifecycle none (kindsOf log.files.records id log.files.start
    (state.nextLsn - log.files.start))

theorem LogOk.recovers {log : Log} (h : LogOk log) {state : WalState}
    (hre : Reopened log.files log.live state) : log.Recovers state where
  agrees := by
    have hcovers := hre.covers
    refine ⟨log.files.records[log.live.nextLsn]?, fun record hread => ?_, ?_, ?_⟩
    · have hvalid := h.consistent.recordsValid _ record hread
      exact ⟨hvalid.lsn_eq.1, h.pending record hread⟩
    · rw [hcovers.nextLsn_eq, settled, WalState.with]
      cases log.files.records[log.live.nextLsn]? <;> rfl
    · intro id
      rw [hcovers.active_iff, settled, WalState.with]
      cases log.files.records[log.live.nextLsn]? <;> rfl
  complete := hre.bounded
  lifecycle id := by
    have hlife := hre.replays.lifecycle id
    rwa [getElem?_empty] at hlife

/-- In every run of a log, whatever its calls and the faults that strike them,
`Wal::open` succeeds at every point and reconstructs the live state; and an LSN
that has had a record never has another one later. -/
theorem open_reconstructs_live_state (database : Database) (events : List LogEvent)
    (hroom : Along Log.step Log.HasRoom (Log.initial database) events) :
    let log := runFrom Log.step (Log.initial database) events
    (∃ state after, openWal.run log.database [] = (.ok state, ⟨after, []⟩) ∧
      log.Recovers state) ∧
    ∀ later, Along Log.step Log.HasRoom log later →
      ∀ (lsn : Nat) record record', log.files.records[lsn]? = some record →
        (runFrom Log.step log later).files.records[lsn]? = some record' →
        record = record' := by
  intro log
  have hok : LogOk log := LogOk.run hroom
  constructor
  · have hspec : Spec False _ _ _ := openWal_spec hok.consistent
    obtain ⟨result, after, hrun, hend⟩ := hspec.run_nil rfl
    cases result with
    | ok state => exact ⟨state, after, hrun, hok.recovers hend.2⟩
    | error => exact hend.1.elim
    | crash => exact hend.1.elim
  · intro later hlater lsn record record' hread hread'
    have hext := hlater.relation (R := fun l l' => LogExtends l.files l'.files) hok
      (fun _ => .refl _) (fun _ _ _ => .trans)
      fun l event hl hr => hl.step event hr
    rcases hext.kept lsn record hread with hsame | ⟨hnone, -⟩
    · rw [hread'] at hsame
      exact (Option.some.inj hsame).symm
    · rw [hread'] at hnone
      cases hnone

/-- A database without any content. -/
def emptyDatabase : Database where
  disk :=
    { databaseId := 0
      current := 0
      generations := ∅
      wal := ⟨none, ∅⟩
      staging := ∅
      snapshots := ∅
      externalSources := none
      temporaries := [] }
  wal := ⟨1, ∅⟩
  state :=
    { catalog :=
        { formatVersion := catalogFormatVersion
          databaseId := 0
          generation := 0
          transactionId := none
          schemas := ∅
          tables := ∅
          views := ∅ }
      tables := ∅
      views := ∅
      externalSourceGeneration := 0
      externalSources := ∅
      retired := [] }
  nextUuid := 1
  nextAllocation := 1

/-- A commit whose record is published while the append reports an unknown
outcome: the write fails after the hard link, and so does its inspection. -/
theorem open_reconstructs_live_state_after_ambiguous_commit :
    let log := runFrom Log.step (Log.initial emptyDatabase)
      [.call (.begin 7 0) [],
        .call (.commitCatalog 7 0 1) [.done, .failed true, .done, .failed false]]
    log.live.nextLsn = 2 ∧ 2 ∈ log.files.records ∧
      ∃ state after, openWal.run log.database [] = (.ok state, ⟨after, []⟩) ∧
        log.Recovers state := by
  refine ⟨by decide, by decide, (open_reconstructs_live_state emptyDatabase [.call (.begin 7 0) [],
      .call (.commitCatalog 7 0 1) [.done, .failed true, .done, .failed false]]
    ⟨fun _ => ?_, fun _ => ?_, trivial⟩).1⟩
  · decide
  · decide

/-- After a checkpoint the log accepts the id of a finished transaction again. -/
theorem transaction_begins_again_after_checkpoint :
    let before := runFrom Log.step (Log.initial emptyDatabase)
      [.call (.begin 7 0) [], .call (.abort 7) []]
    let after := runFrom Log.step before [.call (.checkpoint 0) [], .call (.begin 7 0) []]
    kindsOf before.files.records 7 1 2 = [.begin 0 .readWrite, .abort] ∧
      kindsOf after.files.records 7 3 1 = [.begin 0 .readWrite] ∧
      after.unsettled = [] ∧ after.alive = true := by
  decide

end RustDb.Native
