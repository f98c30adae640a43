import RustDb.Native.Staging
import RustDb.Native.WalRecovery

/-!
# Work that the catalog does not see

Writers, aborts and publications of private snapshots leave the catalog, CURRENT
and the memory of the database alone.  They append to the log, they use the
staging area, and they touch snapshot directories of their own.

* `LogStep` is what one append can do to the log; `LogRun` is a sequence of such
  steps.
* `Quiet keys s₀ s` says that `s` follows from `s₀` by such work, on the snapshot
  directories in `keys`.
-/

namespace RustDb.Native

open Std RustDb.Lib Faulty Spec

/-! ## Appends -/

/-- The log, on disk and in memory. -/
abbrev LogView := WalFiles × WalState

/-- What the log has on disk and in memory. -/
def Database.log (s : Database) : LogView :=
  (s.disk.wal, s.wal)

/-- The files with one more record. -/
def WalFiles.put (files : WalFiles) (record : Record) : WalFiles :=
  { files with records := files.records.insert record.lsn record }

/-- `record` may be written next. -/
structure Appendable (databaseId : Uuid) (allowed : Record → Prop) (live : WalState)
    (record : Record) : Prop where
  allowed : allowed record
  valid : record.Valid databaseId record.lsn
  next : record.lsn = live.nextLsn
  allows : live.Allows record

/-- What one append of an `allowed` record can do to the log. -/
inductive LogStep (databaseId : Uuid) (allowed : Record → Prop) :
    LogView → LogView → Prop where
  | pended {files : WalFiles} {live : WalState} {record : Record}
      (happ : Appendable databaseId allowed live record)
      (hfree : record.lsn ∉ files.records) :
      LogStep databaseId allowed (files, live) (files.put record, live)
  | appended {files : WalFiles} {live : WalState} {record : Record}
      (happ : Appendable databaseId allowed live record)
      (hsame : record.lsn ∈ files.records →
        files.records[record.lsn]? = some record)
      (hroom : live.nextLsn + 1 < u64Limit) :
      LogStep databaseId allowed (files, live) (files.put record, live.push record)
  | exhausted {files : WalFiles} {live : WalState} {record : Record}
      (happ : Appendable databaseId allowed live record)
      (hsame : record.lsn ∈ files.records →
        files.records[record.lsn]? = some record)
      (hlast : ¬ live.nextLsn + 1 < u64Limit) :
      LogStep databaseId allowed (files, live) (files.put record, live.applied record)

/-- A sequence of appends. -/
abbrev LogRun (databaseId : Uuid) (allowed : Record → Prop) :
    LogView → LogView → Prop :=
  Relation.ReflTransGen (LogStep databaseId allowed)

/-- A record that does not announce a catalog generation. -/
def Record.IsQuiet (record : Record) : Prop :=
  ∀ expectedGeneration generation,
    record.kind ≠ .catalogCommit expectedGeneration generation

/-! ## Quiet work -/

/-- A directory whose snapshot id is drawn after `s₀`. -/
def Database.IsNew (s₀ : Database) (key : SnapshotKey) : Prop :=
  s₀.nextUuid ≤ key.location.snapshotId

/-- The snapshot directories of `s₀` outside `keys` are as they were. -/
def KeepsOld (keys : List SnapshotKey) (s₀ s : Database) : Prop :=
  ∀ key, key ∉ keys → ¬ s₀.IsNew key →
    s.disk.snapshots[key]? = s₀.disk.snapshots[key]?

variable {keys : List SnapshotKey} {s₀ : Database}

theorem KeepsOld.of_onlyAt {keys' : List SnapshotKey} {s : Database}
    (h : OnlyAt keys s₀.disk.snapshots s.disk.snapshots)
    (hsub : ∀ key ∈ keys, key ∈ keys' ∨ s₀.IsNew key) : KeepsOld keys' s₀ s :=
  fun key hkey hold => h key fun hmem => (hsub key hmem).elim hkey hold

/-- `s` follows from `s₀` by work on the log, on the staging area, and on snapshot
directories that are in `keys` or new. -/
structure Quiet (keys : List SnapshotKey) (s₀ s : Database) : Prop where
  state_eq : s.state = s₀.state
  databaseId_eq : s.disk.databaseId = s₀.disk.databaseId
  current_eq : s.disk.current = s₀.disk.current
  generations_eq : s.disk.generations = s₀.disk.generations
  externalSources_eq : s.disk.externalSources = s₀.disk.externalSources
  snapshots : KeepsOld keys s₀ s
  nextUuid_le : s₀.nextUuid ≤ s.nextUuid
  nextAllocation_le : s₀.nextAllocation ≤ s.nextAllocation
  log : LogRun s₀.disk.databaseId Record.IsQuiet s₀.log s.log

namespace Quiet

variable {keys keys' : List SnapshotKey} {s₀ s₁ s₂ s : Database}

theorem refl (keys : List SnapshotKey) (s : Database) : Quiet keys s s where
  state_eq := rfl
  databaseId_eq := rfl
  current_eq := rfl
  generations_eq := rfl
  externalSources_eq := rfl
  snapshots := fun _ _ _ => rfl
  nextUuid_le := Nat.le_refl _
  nextAllocation_le := Nat.le_refl _
  log := .refl

theorem trans (h : Quiet keys s₀ s₁) (h' : Quiet keys s₁ s₂) : Quiet keys s₀ s₂ where
  state_eq := h'.state_eq.trans h.state_eq
  databaseId_eq := h'.databaseId_eq.trans h.databaseId_eq
  current_eq := h'.current_eq.trans h.current_eq
  generations_eq := h'.generations_eq.trans h.generations_eq
  externalSources_eq := h'.externalSources_eq.trans h.externalSources_eq
  snapshots := fun key hkey hold => (h'.snapshots key hkey fun hnew =>
    hold (Nat.le_trans h.nextUuid_le hnew)).trans (h.snapshots key hkey hold)
  nextUuid_le := Nat.le_trans h.nextUuid_le h'.nextUuid_le
  nextAllocation_le := Nat.le_trans h.nextAllocation_le h'.nextAllocation_le
  log := h.log.trans (h.databaseId_eq ▸ h'.log)

theorem mono (h : Quiet keys s₀ s) (hsub : ∀ key ∈ keys, key ∈ keys') :
    Quiet keys' s₀ s :=
  { h with snapshots := fun key hkey => h.snapshots key fun hk => hkey (hsub key hk) }

theorem of_nil (h : Quiet [] s₀ s) : Quiet keys s₀ s :=
  h.mono fun _ hk => by cases hk

/-- New directories need not be listed. -/
theorem of_new (h : Quiet keys s₀ s) (hnew : ∀ key ∈ keys, key ∈ keys' ∨ s₀.IsNew key) :
    Quiet keys' s₀ s :=
  { h with snapshots := fun key hkey hold =>
      h.snapshots key (fun hk => (hnew key hk).elim hkey hold) hold }

theorem of_only (h : Staging.Only s₀ s) : Quiet keys s₀ s := by
  obtain ⟨staging, rfl⟩ := h
  exact { refl keys s₀ with }

variable {key : SnapshotKey}

theorem of_removing (h : Table.Removing s₀ key s) (hkey : key ∈ keys ∨ s₀.IsNew key) :
    Quiet keys s₀ s := by
  obtain ⟨snapshots, honly, rfl⟩ := h
  refine { refl keys s₀ with snapshots := .of_onlyAt honly fun k hk => ?_ }
  rw [List.mem_singleton.mp hk]
  exact hkey

theorem of_publishing (h : Staging.Publishing s₀ key s) (hkey : key ∈ keys ∨ s₀.IsNew key) :
    Quiet keys s₀ s := by
  obtain ⟨staging, snapshots, honly, -, rfl⟩ := h
  refine { refl keys s₀ with snapshots := .of_onlyAt honly fun k hk => ?_ }
  rw [List.mem_singleton.mp hk]
  exact hkey

theorem of_nextUuid (n : Uuid) (h : s₀.nextUuid ≤ n) :
    Quiet keys s₀ { s₀ with nextUuid := n } :=
  { refl keys s₀ with nextUuid_le := h }

theorem of_nextAllocation (n : Nat) (h : s₀.nextAllocation ≤ n) :
    Quiet keys s₀ { s₀ with nextAllocation := n } :=
  { refl keys s₀ with nextAllocation_le := h }

end Quiet

/-! ### Appends are quiet -/

section Appends

variable {faults : Prop} {keys : List SnapshotKey} {s₀ s : Database} {record : Record}
  {transactionId : Uuid} {kind : RecordKind} {allowed : Record → Prop}

section

variable (hrec : record = Wal.nextRecord s₀ transactionId kind)
include hrec

section

variable (hallowed : allowed record)
include hallowed

theorem Appendable.of_nextRecord (hvalid : record.Valid s₀.disk.databaseId record.lsn)
    (hallows : s₀.wal.Allows record) : Appendable s₀.disk.databaseId allowed s₀.wal record :=
  ⟨hallowed, hvalid, by rw [hrec]; rfl, hallows⟩

theorem LogStep.of_appended (h : Wal.Appended s₀ record s) (hroom : s₀.wal.nextLsn + 1 < u64Limit) :
    LogStep s₀.disk.databaseId allowed s₀.log s.log := by
  obtain ⟨hvalid, hallows, hsame, temporaries, rfl⟩ := h
  exact .appended (.of_nextRecord hrec hallowed hvalid hallows) hsame hroom

variable {e : Option Error}

theorem LogRun.of_notAppended (h : Wal.NotAppended faults s₀ record e s) :
    LogRun s₀.disk.databaseId allowed s₀.log s.log := by
  obtain ⟨-, disk, ⟨temporaries, rfl⟩, rfl | ⟨hvalid, hallows, hfree, rfl, -⟩⟩ := h
  · exact .refl
  · exact .single (.pended (.of_nextRecord hrec hallowed hvalid hallows) hfree)

theorem LogStep.of_exhausted (h : Wal.Exhausted s₀ record e s) :
    LogStep s₀.disk.databaseId allowed s₀.log s.log := by
  obtain ⟨hlast, hvalid, hallows, hsame, -, temporaries, rfl⟩ := h
  exact .exhausted (.of_nextRecord hrec hallowed hvalid hallows) hsame hlast

end

theorem Quiet.of_appended (hquiet : record.IsQuiet) (h : Wal.Appended s₀ record s)
    (hroom : s₀.wal.nextLsn + 1 < u64Limit) : Quiet keys s₀ s := by
  have hstep := LogStep.of_appended hrec hquiet h hroom
  obtain ⟨-, -, -, temporaries, rfl⟩ := h
  exact { refl keys s₀ with log := .single hstep }

theorem Quiet.of_notAppended (hquiet : record.IsQuiet)
    (h : Wal.NotAppended faults s₀ record e s ∨ Wal.Exhausted s₀ record e s) :
    Quiet keys s₀ s := by
  rcases h with h | h
  · have hrun := LogRun.of_notAppended hrec hquiet h
    obtain ⟨-, disk, ⟨temporaries, rfl⟩, rfl | ⟨-, -, -, rfl, -⟩⟩ := h
    · exact { refl keys s₀ with log := hrun }
    · exact { refl keys s₀ with log := hrun }
  · have hstep := LogStep.of_exhausted hrec hquiet h
    obtain ⟨-, -, -, -, -, temporaries, rfl⟩ := h
    exact { refl keys s₀ with log := .single hstep }

end

/-- An append of a record that is not a commit is quiet work. -/
theorem Quiet.keeps_append (hkind : ∀ e g, kind ≠ .catalogCommit e g) :
    Keeps (Quiet keys s₀) (Wal.append transactionId kind) := by
  refine of_forall fun s₁ h₁ => ?_
  have hquiet : (Wal.nextRecord s₁ transactionId kind).IsQuiet := hkind
  refine weaken (Wal.append_spec_any rfl (.inl trivial)) (fun _ h => h) fun r s h => ?_
  cases r with
  | ok => exact h₁.trans (.of_appended rfl hquiet h.1 h.2)
  | error e | crash => exact h₁.trans (.of_notAppended rfl hquiet h)

theorem Quiet.keeps_abort : Keeps (Quiet keys s₀) (Wal.abort transactionId) :=
  keeps_append fun _ _ h => by cases h

end Appends

/-! ### The staging area -/

section StagingArea

variable {keys : List SnapshotKey} {s₀ : Database} {transactionId : Uuid}

theorem Quiet.keeps_stagingDrop : Keeps (Quiet keys s₀) (Staging.drop transactionId) := by
  refine of_forall fun s₁ h₁ => ?_
  refine weaken Staging.drop_spec (fun _ h => h) fun r s h => ?_
  cases r with
  | ok => exact h₁.trans (.of_only ⟨_, h⟩)
  | error e | crash => exact h₁.trans (.of_only h.1)

theorem Quiet.keeps_stagingAbort :
    Keeps (Quiet keys s₀) (Staging.abort transactionId) :=
  Program.keeps_orDrop (Keeps.bind keeps_stagingDrop fun _ => Program.keeps_touch) keeps_stagingDrop

end StagingArea

/-! ### Removing a snapshot -/

theorem Quiet.keeps_removeOwnSnapshot {snapshot : TableSnapshot} (hkey : snapshot.key ∈ keys) :
    Keeps (Quiet keys s₀) (Table.removeOwnSnapshot snapshot) := by
  have hkey : ∀ s, snapshot.key ∈ keys ∨ Database.IsNew s snapshot.key :=
    fun _ => .inl hkey
  refine of_forall fun s₁ h₁ => ?_
  refine weaken (Table.removeOwnSnapshot_spec snapshot) (fun _ h => h) fun r s h => ?_
  cases r with
  | ok => exact h₁.trans (.of_removing ⟨_, .erase _ _, h⟩ (hkey _))
  | error e | crash => exact h₁.trans (.of_removing h.1 (hkey _))

end RustDb.Native
