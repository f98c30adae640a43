import RustDb.Lib.Faulty
import RustDb.Native.Snapshot

/-!
# The files of a database and the state of the process that has it open

`Disk` is the durable state: CURRENT, the catalog generations, the WAL, the
staging area, the snapshot directories and the external source catalog.
`Database` is a disk together with the memory of the process that opened it.

The programs of the storage layer are `Program`s: they run over a `Database`,
and every call they make to the file system can fail or be the point of a crash.
After a crash only the disk survives.

New UUIDs come from a counter, so an identity is never given twice; the counter
belongs to the world and survives a crash.
-/

namespace RustDb.Native

open Std RustDb.Lib Faulty Spec Keeps

/-! ## Durable state -/

/-- The marker file of a snapshot directory. -/
structure SnapshotMarker where
  databaseId : Uuid
  tableId : Uuid
  version : Nat
  snapshotId : Uuid
deriving DecidableEq, Repr

/-- A manifest file with the digest of its contents. -/
structure ManifestFile where
  manifest : TableManifest
  sha256 : Sha256
deriving DecidableEq, Repr

/-- One row of a table, in its stored form. -/
abbrev Row := String

/-- A segment data file. -/
structure SegmentFile where
  rows : List Row
  rowGroups : Nat
  bytes : Nat
  sha256 : Sha256
deriving DecidableEq, Repr

/-- A predicate sidecar file. -/
structure SidecarFile where
  bytes : Nat
  sha256 : Sha256
deriving DecidableEq, Repr

/-- A delete vector file with the digest of its contents. -/
structure DeleteVectorFile where
  vector : DeleteVector
  sha256 : Sha256
deriving DecidableEq, Repr

/-- The files of one snapshot directory. -/
structure SnapshotDirectory where
  marker : Option SnapshotMarker
  manifest : Option ManifestFile
  segments : ExtTreeMap Uuid SegmentFile compare
  sidecars : ExtTreeMap Uuid SidecarFile compare
  deleteVectors : ExtTreeMap Uuid DeleteVectorFile compare
deriving DecidableEq

/-- The path `tables/<table id>/snapshots/<version>-<snapshot id>`. -/
structure SnapshotKey where
  tableId : Uuid
  location : SnapshotLocation
deriving DecidableEq, Repr

instance : Ord SnapshotKey :=
  ⟨compareLex (compareOn SnapshotKey.tableId) (compareOn SnapshotKey.location)⟩

instance : TransOrd SnapshotKey :=
  inferInstanceAs (TransCmp (compareLex (compareOn SnapshotKey.tableId)
    (compareOn SnapshotKey.location)))

instance : LawfulEqOrd SnapshotKey where
  eq_of_compare {a b} h := by
    have h := compareLex_eq_eq.mp h
    simp only [compareOn, Std.compare_eq_iff_eq] at h
    cases a
    cases b
    simp_all

/-- Whether a transaction writes. -/
inductive TransactionMode where
  | readOnly
  | readWrite
deriving DecidableEq, Repr

/-- What a log record says about its transaction. -/
inductive RecordKind where
  | begin (snapshotGeneration : Nat) (mode : TransactionMode)
  | catalogCommit (expectedGeneration generation : Nat)
  | abort
deriving DecidableEq, Repr

/-- One WAL record, a file of its own. -/
structure Record where
  formatVersion : Nat
  databaseId : Uuid
  lsn : Nat
  transactionId : Uuid
  kind : RecordKind
deriving DecidableEq, Repr

/-- The CHECKPOINT file of the WAL. -/
structure Checkpoint where
  formatVersion : Nat
  databaseId : Uuid
  nextLsn : Nat
  catalogGeneration : Nat
deriving DecidableEq, Repr

/-- The `wal` directory. -/
structure WalFiles where
  checkpoint : Option Checkpoint
  records : ExtTreeMap Nat Record compare
deriving DecidableEq

/-- A registered external source.  Its options and schemas are one text here. -/
structure StoredExternalSource where
  name : String
  locations : List String
  definition : String
deriving DecidableEq, Repr

/-- The external source catalog. -/
structure ExternalSources where
  databaseId : Uuid
  generation : Nat
  sources : NameMap StoredExternalSource
deriving DecidableEq

/-- A transaction directory of the staging area.  The marker names the
transaction; a directory that is still being initialised has none. -/
structure StagingDirectory where
  marker : Option Uuid
  snapshot : SnapshotDirectory
deriving DecidableEq

/-- The durable state of a database.  `temporaries` are the files that an
atomic write was about to rename, by their final paths. -/
structure Disk where
  databaseId : Uuid
  current : Nat
  generations : ExtTreeMap Nat CatalogState compare
  wal : WalFiles
  staging : ExtTreeMap Uuid StagingDirectory compare
  snapshots : ExtTreeMap SnapshotKey SnapshotDirectory compare
  externalSources : Option ExternalSources
  temporaries : List Path
deriving DecidableEq

/-- The disk with other temporary files. -/
def Disk.setTemporaries (disk : Disk) (temporaries : List Path) : Disk :=
  { disk with temporaries }

/-- A temporary file is created. -/
def Disk.addTemporary (path : Path) (disk : Disk) : Disk :=
  disk.setTemporaries (path :: disk.temporaries)

/-- A temporary file is removed. -/
def Disk.removeTemporary (path : Path) (disk : Disk) : Disk :=
  disk.setTemporaries (disk.temporaries.erase path)

/-! ## Memory -/

/-- The commit a WAL record announces. -/
structure CatalogCommit where
  transactionId : Uuid
  expectedGeneration : Nat
  generation : Nat
deriving DecidableEq, Repr

/-- How far a transaction is, by its last record. -/
inductive TransactionState where
  | active
  | catalogCommitted (commit : CatalogCommit)
  | aborted
deriving DecidableEq, Repr

/-- `wal::State`. -/
structure WalState where
  nextLsn : Nat
  transactions : ExtTreeMap Uuid TransactionState compare
deriving DecidableEq

/-- A directory that waits to be removed.  `lease` is a weak reference: the
allocation number of the `Arc` for `location`. -/
structure RetiredSnapshot where
  name : String
  lease : Nat
  tableId : Uuid
  location : SnapshotLocation
  sourceBytes : Nat
deriving DecidableEq, Repr

/-- `NativeState`.  A `NativeView` has the fields of its reference. -/
structure NativeState where
  catalog : CatalogState
  tables : NameMap TableSnapshot
  views : NameMap ViewReference
  externalSourceGeneration : Nat
  externalSources : NameMap StoredExternalSource
  retired : List RetiredSnapshot
deriving DecidableEq

/-- A disk, the memory of the process that has it open, and the sources of new
UUIDs and of new allocations. -/
structure Database where
  disk : Disk
  wal : WalState
  state : NativeState
  nextUuid : Uuid
  nextAllocation : Nat
deriving DecidableEq

/-- The generation of an empty catalog. -/
def initialGeneration : Nat := 0

/-- The catalog that `ensure_initial` writes. -/
def initialCatalog (databaseId : Uuid) : CatalogState where
  databaseId
  formatVersion := catalogFormatVersion
  generation := initialGeneration
  transactionId := none
  schemas := ExtTreeSet.ofList [defaultSchema] compare
  tables := ∅
  views := ∅

/-- A database that has just been created, open. -/
def Database.created (databaseId : Uuid) : Database where
  disk :=
    { databaseId
      current := initialGeneration
      generations :=
        ExtTreeMap.ofList [(initialGeneration, initialCatalog databaseId)] compare
      wal := { checkpoint := none, records := ∅ }
      staging := ∅
      snapshots := ∅
      externalSources := none
      temporaries := [] }
  wal := { nextLsn := 1, transactions := ∅ }
  state :=
    { catalog := initialCatalog databaseId
      tables := ∅
      views := ∅
      externalSourceGeneration := 0
      externalSources := ∅
      retired := [] }
  nextUuid := databaseId + 1
  nextAllocation := 0

/-- The programs of the storage layer. -/
abbrev Program (α : Type) := Faulty Database Error α

/-- `s` is `s₀` with the files of `disk`, apart from temporary files. -/
def Database.WithFiles (s₀ : Database) (disk : Disk) (s : Database) : Prop :=
  ∃ temporaries, s = { s₀ with disk := disk.setTemporaries temporaries }

theorem Database.WithFiles.refl (s : Database) : s.WithFiles s.disk s :=
  ⟨s.disk.temporaries, rfl⟩

/-- A change of the disk that leaves temporary files alone. -/
def KeepsTemporaries (f : Disk → Disk) : Prop :=
  ∀ disk temporaries, f (disk.setTemporaries temporaries) =
    (f disk).setTemporaries temporaries

namespace Program

/-- `Uuid::new_v4`. -/
def newUuid : Program Uuid := do
  let database ← get
  modify fun d => { d with nextUuid := d.nextUuid + 1 }
  pure database.nextUuid

/-- The number of a new `Arc` allocation. -/
def newAllocation : Program Nat := do
  let database ← get
  modify fun d => { d with nextAllocation := d.nextAllocation + 1 }
  pure database.nextAllocation

/-- A call that only reads: it fails with an I/O error for `path`. -/
def touch (path : Path) : Program Unit :=
  call (.io (some path)) id

/-- A call that changes the disk. -/
def write (path : Path) (f : Disk → Disk) : Program Unit :=
  call (.io (some path)) fun d => { d with disk := f d.disk }

/-- A check of the environment (sizes, quotas) that may fail with `error`. -/
def demand (error : Error) : Program Unit :=
  call error id

/-- A call that reads `path` and computes `f` from the disk. -/
def inspect {α : Type} (path : Path) (f : Disk → Except Error α) : Program α := do
  touch path
  let database ← get
  lift (f database.disk)

/-- Reports `error` after a cleanup, or `failure` if the cleanup fails. -/
def failAfter {α : Type} (cleanup : Program Unit) (error failure : Error) :
    Program α := do
  let result ← attempt cleanup
  match result with
  | .ok () => fail error
  | .error _ => fail failure

/-- Runs `m`; its error is reported after a cleanup. -/
def orClean {α : Type} (m : Program α) (cleanup : Program Unit) (failure : Error) :
    Program α := do
  let result ← attempt m
  match result with
  | .ok a => pure a
  | .error error => failAfter cleanup error failure

/-- Runs `m`; after an error a destructor runs, whose own error is ignored. -/
def orDrop {α : Type} (m : Program α) (drop : Program Unit) : Program α := do
  let result ← attempt m
  match result with
  | .ok a => pure a
  | .error error => do
    let _ ← attempt drop
    fail error

/-- Removes the temporary file of a failed atomic write and reports `error`. -/
def cleanTemporary (path : Path) (error : Error) : Program Unit :=
  failAfter (write path (Disk.removeTemporary path)) error
    (.nativeStorage path "temporary file cleanup failed")

/-- `io::atomic_create`: the file appears under `path` complete or not at all.
`publish` is the effect of the hard link. -/
def atomicCreate (path : Path) (occupied : Disk → Bool) (publish : Disk → Disk) :
    Program Unit := do
  let database ← get
  lift (rejectIf (occupied database.disk = true)
    (.nativeStorage path "file already exists"))
  let result ← attempt do
    write path (Disk.addTemporary path)
    write path publish
    write path (Disk.removeTemporary path)
    touch path
  match result with
  | .ok () => pure ()
  | .error error => cleanTemporary path error

/-- `io::atomic_replace`: the file under `path` is the old or the new one. -/
def atomicReplace (path : Path) (transactionId : Uuid) (publish : Disk → Disk) :
    Program Unit := do
  touch path
  let result ← attempt do
    write path (Disk.addTemporary path)
    write path fun disk => publish (disk.removeTemporary path)
  match result with
  | .ok () =>
    mapError (fun _ => .commitOutcomeUnknown path transactionId
      "CURRENT was replaced but its parent directory was not synced")
      (touch path)
  | .error error => cleanTemporary path error

/-! ## Specifications of the file operations -/

theorem keeps_touch {I : Database → Prop} {path : Path} :
    Keeps I (touch path) :=
  call fun _ h => h

section Cleanup

variable {α : Type} {faults : Prop} {P : Database → Prop} {Q : α → Database → Prop}
  {E F : Option Error → Database → Prop} {m : Program α} {cleanup drop : Program Unit}
  {failure : Error}

theorem failAfter_spec {error : Error}
    (h : Spec faults P cleanup (ends (fun _ => E (some error)) F))
    (hfail : ∀ e s, F (some e) s → E (some failure) s) (hcrash : ∀ s, F none s → E none s) :
    Spec faults P (failAfter cleanup error failure) (ends Q E) := by
  unfold failAfter
  refine attempt_bind h hcrash (fun _ => ?_) fun e => ?_
  · exact fail fun _ h => h
  · exact fail fun s hs => hfail e s hs

section

variable (hm : Spec faults P m (ends Q F)) (hcrash : ∀ s, F none s → E none s)
include hm hcrash

theorem orClean_spec
    (herr : ∀ e, Spec faults (F (some e)) (failAfter cleanup e failure) (ends Q E)) :
    Spec faults P (orClean m cleanup failure) (ends Q E) :=
  attempt_bind hm hcrash (fun _ => pure fun _ h => h) herr

theorem orDrop_spec (hdrop : ∀ e, Spec faults (F (some e)) drop (ends (fun _ => E (some e))
      fun error s => E (error.map fun _ => e) s)) : Spec faults P (orDrop m drop) (ends Q E) := by
  unfold orDrop
  refine attempt_bind hm hcrash (fun _ => pure fun _ h => h) fun e => ?_
  refine attempt_bind (hdrop e) (fun _ h => h) (fun _ => ?_) fun _ => ?_
  · exact fail fun _ h => h
  · exact fail fun _ h => h

end

variable {I : Database → Prop} {C : Prop}

/-- Cleaning up keeps what the cleanup keeps. -/
theorem orClean_keeps (hm : Spec faults P m (outcome Q fun s => I s ∧ C))
    (hclean : Keeps I cleanup) :
    Spec faults P (orClean m cleanup failure) (outcome Q fun s => I s ∧ C) :=
  orClean_spec hm (fun _ h => h) fun _ =>
    failAfter_spec hclean.outcome (fun _ _ h => h) fun _ h => h

theorem orDrop_keeps (hm : Spec faults P m (outcome Q fun s => I s ∧ C)) (hdrop : Keeps I drop) :
    Spec faults P (orDrop m drop) (outcome Q fun s => I s ∧ C) :=
  orDrop_spec hm (fun _ h => h) fun _ => hdrop.outcome

theorem keeps_orDrop (hm : Keeps I m) (hdrop : Keeps I drop) : Keeps I (orDrop m drop) := by
  refine bind (attempt hm) fun r => ?_
  cases r with
  | ok a => exact pure
  | error e => exact bind (attempt hdrop) fun _ => fail

end Cleanup

section Specs

variable {faults : Prop} {P : Database → Prop} {s₀ : Database} {disk : Disk}
  {path : Path}

/-- A call that only reads fails only where faults are allowed. -/
theorem touch_spec :
    Spec faults P (touch path) (outcome (fun _ => P) fun s => faults ∧ P s) :=
  callOutcome (fun _ h => h) fun hf _ h => ⟨⟨hf, h⟩, hf, h⟩

variable {α : Type} {R : Result Error α → Database → Prop}

theorem newUuid_bind {k : Uuid → Program α}
    (h : Spec faults (· = { s₀ with nextUuid := s₀.nextUuid + 1 }) (k s₀.nextUuid) R) :
    Spec faults (· = s₀) (newUuid >>= k) R := by
  rintro s script hf rfl
  exact h _ script hf rfl

theorem newAllocation_bind {k : Nat → Program α}
    (h : Spec faults (· = { s₀ with nextAllocation := s₀.nextAllocation + 1 })
      (k s₀.nextAllocation) R) : Spec faults (· = s₀) (newAllocation >>= k) R := by
  rintro s script hf rfl
  exact h _ script hf rfl

theorem addTemporary_spec :
    Spec faults (s₀.WithFiles disk) (write path (Disk.addTemporary path))
      (outcome (fun _ => s₀.WithFiles disk)
        fun s => faults ∧ s₀.WithFiles disk s) := by
  have h : ∀ s, s₀.WithFiles disk s →
      s₀.WithFiles disk { s with disk := s.disk.addTemporary path } := by
    rintro s ⟨temporaries, rfl⟩
    exact ⟨path :: temporaries, rfl⟩
  exact callOutcome h fun hf s hs => ⟨⟨hf, hs⟩, hf, h s hs⟩

theorem removeTemporary_spec :
    Spec faults (s₀.WithFiles disk) (write path (Disk.removeTemporary path))
      (outcome (fun _ => s₀.WithFiles disk)
        fun s => faults ∧ s₀.WithFiles disk s) := by
  have h : ∀ s, s₀.WithFiles disk s →
      s₀.WithFiles disk { s with disk := s.disk.removeTemporary path } := by
    rintro s ⟨temporaries, rfl⟩
    exact ⟨temporaries.erase path, rfl⟩
  exact callOutcome h fun hf s hs => ⟨⟨hf, hs⟩, hf, h s hs⟩

/-- A write that publishes `f`: the disk is the old or the new one. -/
theorem write_spec {f : Disk → Disk} (hf : KeepsTemporaries f) :
    Spec faults (s₀.WithFiles disk) (write path f)
      (outcome (fun _ => s₀.WithFiles (f disk))
        fun s => faults ∧ (s₀.WithFiles disk s ∨ s₀.WithFiles (f disk) s)) := by
  have h : ∀ s, s₀.WithFiles disk s → s₀.WithFiles (f disk) { s with disk := f s.disk } := by
    rintro s ⟨temporaries, rfl⟩
    exact ⟨temporaries, by rw [hf]⟩
  exact callOutcome h fun hf s hs => ⟨⟨hf, .inl hs⟩, hf, .inr (h s hs)⟩

/-- The states in which a failed atomic write can leave the disk. -/
def Interrupted (faults : Prop) (s₀ : Database) (disks : Disk → Prop)
    (s : Database) : Prop :=
  faults ∧ ∃ disk, disks disk ∧ s₀.WithFiles disk s

theorem cleanTemporary_spec {error : Error} {Q : Unit → Database → Prop}
    {disks : Disk → Prop} :
    Spec faults (Interrupted faults s₀ disks) (cleanTemporary path error)
      (outcome Q (Interrupted faults s₀ disks)) := by
  unfold cleanTemporary
  apply of_forall
  rintro s₁ ⟨hf, disk, hd, hs⟩
  refine weaken (P := s₀.WithFiles disk) ?_ (fun s h => h ▸ hs) fun _ _ h => h
  refine failAfter_spec (weakenOutcome removeTemporary_spec
    (fun _ s h => ⟨hf, disk, hd, h⟩) fun _ _ h => h) ?_ ?_
  · exact fun _ s h => ⟨h.1, disk, hd, h.2⟩
  · exact fun s h => ⟨h.1, disk, hd, h.2⟩

variable {publish : Disk → Disk}

/-- After an atomic creation the file is there, or the disk is as before.  It
fails only when the file exists or where faults are allowed. -/
theorem atomicCreate_spec {occupied : Disk → Bool} (hpub : KeepsTemporaries publish)
    (hocc : faults ∨ occupied s₀.disk = false) :
    Spec faults (· = s₀) (atomicCreate path occupied publish)
      (outcome
        (fun _ s => occupied s₀.disk = false ∧ s₀.WithFiles (publish s₀.disk) s)
        (Interrupted faults s₀ fun disk => disk = s₀.disk ∨
          occupied s₀.disk = false ∧ disk = publish s₀.disk)) := by
  unfold atomicCreate
  refine get_self (weaken (P := s₀.WithFiles s₀.disk) ?_ (fun s h => h ▸ .refl s)
    fun _ _ h => h)
  refine check (fun hexists s hs => ?_) fun hnot => ?_
  · refine ⟨hocc.resolve_right fun hfree => ?_, _, .inl rfl, hs⟩
    simp [hfree] at hexists
  have hfree : occupied s₀.disk = false := Bool.not_eq_true _ ▸ hnot
  have hold : ∀ s, faults ∧ s₀.WithFiles s₀.disk s →
      Interrupted faults s₀ (fun disk => disk = s₀.disk ∨
        occupied s₀.disk = false ∧ disk = publish s₀.disk) s :=
    fun s h => ⟨h.1, _, .inl rfl, h.2⟩
  have hnew : ∀ s, faults ∧ s₀.WithFiles (publish s₀.disk) s →
      Interrupted faults s₀ (fun disk => disk = s₀.disk ∨
        occupied s₀.disk = false ∧ disk = publish s₀.disk) s :=
    fun s h => ⟨h.1, _, .inr ⟨hfree, rfl⟩, h.2⟩
  refine attemptOutcome (Q := fun _ => s₀.WithFiles (publish s₀.disk)) ?_
    (fun _ => pure fun s h => ⟨hfree, h⟩) fun _ => cleanTemporary_spec
  refine seq (weakenOutcome addTemporary_spec (fun _ _ h => h) fun _ => hold) fun _ => ?_
  refine seq (weakenOutcome (write_spec hpub) (fun _ _ h => h) ?_) fun _ => ?_
  · rintro _ s ⟨hf, h | h⟩
    · exact hold s ⟨hf, h⟩
    · exact hnew s ⟨hf, h⟩
  refine seq
    (weakenOutcome removeTemporary_spec (fun _ _ h => h) fun _ => hnew) fun _ => ?_
  exact weakenOutcome touch_spec (fun _ _ h => h) fun _ => hnew

/-- After an atomic replacement the file is the new one, or the disk is as
before. -/
theorem atomicReplace_spec {transactionId : Uuid} (hpub : KeepsTemporaries publish) :
    Spec faults (· = s₀) (atomicReplace path transactionId publish)
      (outcome (fun _ => s₀.WithFiles (publish s₀.disk))
        (Interrupted faults s₀ fun disk =>
          disk = s₀.disk ∨ disk = publish s₀.disk)) := by
  have hold : ∀ s, faults ∧ s₀.WithFiles s₀.disk s → Interrupted faults s₀
      (fun disk => disk = s₀.disk ∨ disk = publish s₀.disk) s :=
    fun s h => ⟨h.1, _, .inl rfl, h.2⟩
  have hnew : ∀ s, faults ∧ s₀.WithFiles (publish s₀.disk) s → Interrupted faults
      s₀ (fun disk => disk = s₀.disk ∨ disk = publish s₀.disk) s :=
    fun s h => ⟨h.1, _, .inr rfl, h.2⟩
  have hrename : ∀ s, s₀.WithFiles s₀.disk s → s₀.WithFiles (publish s₀.disk)
      { s with disk := publish (s.disk.removeTemporary path) } := by
    rintro s ⟨temporaries, rfl⟩
    refine ⟨temporaries.erase path, ?_⟩
    rw [← hpub]
    rfl
  unfold atomicReplace
  refine weaken (P := s₀.WithFiles s₀.disk) ?_ (fun s h => h ▸ .refl s) fun _ _ h => h
  refine idle_bind (fun hf _ s h => hold s ⟨hf, h⟩) ?_
  refine attemptOutcome (Q := fun _ => s₀.WithFiles (publish s₀.disk)) ?_
    (fun _ => ?_) fun _ => cleanTemporary_spec
  · refine seq (weakenOutcome addTemporary_spec (fun _ _ h => h) fun _ => hold)
      fun _ => ?_
    exact callOutcome hrename fun hf s h => ⟨hold s ⟨hf, h⟩, hnew _ ⟨hf, hrename s h⟩⟩
  · exact mapErrorOutcome (weakenOutcome touch_spec (fun _ _ h => h) fun _ => hnew)

end Specs

/-! ## Programs that only read -/

/-- `m` leaves the state alone and computes `f` from the disk, unless a call of
it fails. -/
def Reads {α : Type} (m : Program α) (f : Disk → Except Error α) : Prop :=
  ∀ (faults : Prop) (s₀ : Database),
    Spec faults (· = s₀) m (ends (fun a s => s = s₀ ∧ f s₀.disk = .ok a)
      fun e s => s = s₀ ∧ (faults ∨ ∃ error, e = some error ∧
        f s₀.disk = .error error))

namespace Reads

variable {α β : Type} {m : Program α} {k : α → Program β}
  {f : Disk → Except Error α} {g : α → Disk → Except Error β}

theorem touch (path : Path) : Reads (touch path) fun _ => .ok () :=
  fun _ _ => call (fun _ h => ⟨h, rfl⟩) (fun hf _ h => ⟨⟨h, .inl hf⟩, h, .inl hf⟩)
    fun hf _ h => ⟨⟨h, .inl hf⟩, h, .inl hf⟩

theorem pure (a : α) : Reads (pure a) fun _ => .ok a :=
  fun _ _ => Spec.pure fun _ h => ⟨h, rfl⟩

theorem fail (e : Error) : Reads (fail e : Program α) fun _ => .error e :=
  fun _ _ => Spec.fail fun _ h => ⟨h, .inr ⟨e, rfl, rfl⟩⟩

theorem lift (x : Except Error α) : Reads (lift x) fun _ => x := by
  cases x with
  | ok a => exact pure a
  | error e => exact fail e

theorem bind (hm : Reads m f) (hk : ∀ a, Reads (k a) (g a)) :
    Reads (m >>= k) fun disk => f disk >>= fun a => g a disk := by
  intro faults s₀
  refine andThen (hm faults s₀) ?_ fun a s₁ ⟨hs₁, ha⟩ => ?_
  · rintro e s ⟨hs, hf | ⟨error, rfl, herr⟩⟩
    · exact ⟨hs, .inl hf⟩
    · refine ⟨hs, .inr ⟨error, rfl, ?_⟩⟩
      dsimp only
      rw [herr]
      rfl
  · subst hs₁
    refine weakenOutcome (hk a faults s₁) ?_ ?_
    · rintro b s ⟨hs, hb⟩
      refine ⟨hs, ?_⟩
      dsimp only
      rw [ha]
      exact hb
    · rintro e s ⟨hs, hf | ⟨error, rfl, herr⟩⟩
      · exact ⟨hs, .inl hf⟩
      · refine ⟨hs, .inr ⟨error, rfl, ?_⟩⟩
        dsimp only
        rw [ha]
        exact herr

/-- What the program reads from the disk is a parameter of what follows. -/
theorem get_bind {k : Database → Program β} {g : Disk → Disk → Except Error β}
    (hk : ∀ s, Reads (k s) (g s.disk)) :
    Reads (get >>= k) fun disk => g disk disk := by
  intro faults s₀
  exact get_self (hk s₀ faults s₀)

theorem inspect (path : Path) (f : Disk → Except Error α) :
    Reads (inspect path f) f := by
  have hget : Reads (Faulty.get >>= fun s => Faulty.lift (f s.disk)) f :=
    get_bind (g := fun disk _ => f disk) fun s => lift (f s.disk)
  exact bind (touch path) fun _ => hget

variable {γ : Type}

theorem forM {l : List γ} {k : γ → Program Unit} {g : γ → Disk → Except Error Unit}
    (hk : ∀ a, Reads (k a) (g a)) : Reads (forM l k) fun disk => forM l fun a => g a disk := by
  induction l with
  | nil => exact pure ()
  | cons a l ih => exact bind (hk a) fun _ => ih

theorem mapM {l : List γ} {k : γ → Program β} {g : γ → Disk → Except Error β}
    (hk : ∀ a, Reads (k a) (g a)) : Reads (l.mapM k) fun disk => l.mapM fun a => g a disk := by
  induction l with
  | nil => exact pure []
  | cons a l ih =>
    simp only [List.mapM_cons]
    exact bind (hk a) fun b => bind ih fun bs => pure (b :: bs)

end Reads

end Program

end RustDb.Native
