import RustDb.Lib.Run
import RustDb.Native.RebaseSuccess

/-!
# Storage operations do not damage tables

`NativeDatabase::open` removes staged and orphaned directories and aborts transactions of
the log, a DELETE stages delete vectors, a transaction publishes directories or removes
them again, and a commit prunes inherited manifests.  Each can stop at any call.

* `StaysStored` is the invariant: a table that could be loaded still can.
* `operations_keep_tables` is about every sequence of operations under every script; the
  sample publishes, deletes, aborts and prunes, and crashes while it removes an orphan.
-/

namespace RustDb.Native

open Std RustDb.Lib Faulty List Program

/-- The operations on the tables of a database. -/
inductive Operation where
  | recoverStaging
  | recoverOrphans
  | abortRecovered
  | delete (plan : NativeWritePlan) (vectors : List (Uuid × DeleteVector))
  | publish (prepared : PreparedSnapshot)
  | abort (writes : List NativePublishedSnapshot)
  | prune (snapshot : TableSnapshot)

section Definitions

variable [Digests] (tables : NameMap TableSnapshot)

/-- The program of an operation. -/
def Operation.program : Operation → Program Unit
  | .recoverStaging => Staging.recover
  | .recoverOrphans => Table.recoverOrphans tables
  | .abortRecovered => Wal.abortRecoveredTransactions
  | .delete plan vectors => do
    let writer ← NativeDeleteWriter.begin plan
    let writer ← orClean (writer.writeVectors vectors)
      (abortOwnedTransaction writer.transactionId)
      (.nativeStorage .root "native DELETE cleanup failed")
    let _ ← writer.finish
    pure ()
  | .publish prepared => do
    let _ ← publishTransactionWrite prepared
    pure ()
  | .abort writes => abortWrites writes
  | .prune snapshot => Table.pruneInheritedManifests snapshot

/-- An operation with what happens to its file accesses. -/
def Operation.step (s : Database) (event : Operation × List Outcome) : Database :=
  ((event.1.program tables).run s event.2).2.state

/-- The directories that the tables read. -/
def reachableKeys : List SnapshotKey :=
  tables.toList.flatMap fun entry => entry.2.reachableLocations.map entry.2.keyOf

/-- What the callers ensure: no table reads the directories of a transaction, and the
manifests that a snapshot inherits are not those of the tables. -/
def Operation.Allowed : Operation → Prop
  | .recoverStaging | .recoverOrphans | .abortRecovered | .delete .. => True
  | .publish prepared => prepared.snapshot.key ∉ reachableKeys tables
  | .abort writes => ∀ write ∈ writes, write.snapshot.key ∉ reachableKeys tables
  | .prune snapshot => ∀ entry ∈ tables.toList, entry.2.key ∉ snapshot.inheritedKeys

/-- The tables that could be loaded in `s₀` can be loaded in `s`. -/
structure StaysStored (s₀ s : Database) : Prop where
  databaseId_eq : s.disk.databaseId = s₀.disk.databaseId
  nextUuid_le : s₀.nextUuid ≤ s.nextUuid
  stored : ∀ entry ∈ tables.toList, ∀ reference,
    Stored s₀.disk s₀.disk.databaseId reference entry.2.toTableManifest →
      Stored s.disk s₀.disk.databaseId reference entry.2.toTableManifest

end Definitions

variable {tables : NameMap TableSnapshot} {s₀ s s' : Database} {key : SnapshotKey}
  {keys : List SnapshotKey} {writes : List NativePublishedSnapshot} {failure : Option Error}

/-! ## Aborts are quiet -/

theorem keeps_noteFailure {I : Database → Prop} {m : Program Unit} (hm : Keeps I m) :
    Keeps I (noteFailure failure m) := by
  refine Keeps.bind (Keeps.attempt hm) fun r => ?_
  cases r with
  | ok | error => exact Keeps.pure

theorem keeps_reportFailure {I : Database → Prop} : Keeps I (reportFailure failure) := by
  cases failure with
  | none => exact Keeps.pure
  | some => exact Keeps.fail

theorem Quiet.keeps_abortWritesFrom (hkeys : ∀ write ∈ writes, write.snapshot.key ∈ keys) :
    Keeps (Quiet keys s₀) (abortWritesFrom failure writes) := by
  induction writes generalizing failure with
  | nil => exact keeps_reportFailure
  | cons write rest ih =>
    have ⟨hkey, hrest⟩ := forall_mem_cons.mp hkeys
    refine Keeps.bind (keeps_noteFailure ?_) fun _ => ih hrest
    exact Keeps.bind (keeps_noteFailure (keeps_removeOwnSnapshot hkey)) fun _ =>
      Keeps.bind (keeps_noteFailure keeps_activeWalAbort) fun _ => keeps_reportFailure

/-! ## Deletes are quiet -/

section Delete

variable {α : Type} {m : Program α} {plan : NativeWritePlan} {vectors : List (Uuid × DeleteVector)}

theorem Quiet.keeps_of_spec {Q : Database → Result Error α → Database → Prop}
    (hm : ∀ s, Spec True (· = s) m (Q s)) (hquiet : ∀ s r s', Q s r s' → Quiet keys s s') :
    Keeps (Quiet keys s₀) m :=
  Spec.of_forall fun s h => Spec.weaken (hm s) (fun _ h => h) fun r s' hq =>
    h.trans (hquiet s r s' hq)

theorem Quiet.keeps_orClean {id : Uuid} {e : Error} (hm : Keeps (Quiet keys s₀) m) :
    Keeps (Quiet keys s₀) (orClean m (abortOwnedTransaction id) e) := by
  refine Keeps.bind (Keeps.attempt hm) fun r => ?_
  cases r with
  | ok => exact Keeps.pure
  | error =>
    refine Keeps.bind (Keeps.attempt keeps_abortOwned) fun r => ?_
    cases r with
    | ok | error => exact Keeps.fail

variable [Digests]

theorem Quiet.keeps_writeVectors {writer : NativeDeleteWriter} :
    Keeps (Quiet keys s₀) (writer.writeVectors vectors) := by
  induction vectors generalizing writer with
  | nil => exact Keeps.pure
  | cons entry rest ih =>
    refine Keeps.bind (Keeps.bind Keeps.lift fun _ => ?_) fun _ => ih
    split
    · exact Keeps.pure
    refine Keeps.bind (keeps_of_spec (fun _ => DeleteVector.write_spec) fun s r s' h => ?_)
      fun _ => Keeps.pure
    cases r with
    | ok => exact h.2.quiet
    | error | crash =>
      obtain ⟨⟨_, h⟩, -⟩ := h
      exact h.quiet

theorem Quiet.keeps_delete :
    Keeps (Quiet keys s₀) (Operation.program tables (.delete plan vectors)) := by
  refine Keeps.bind (Keeps.bind (keeps_of_spec (fun _ => beginWrite_spec) fun s r s' h => ?_)
    fun _ => Keeps.pure) fun _ => Keeps.bind (keeps_orClean keeps_writeVectors) fun writer =>
    Keeps.bind ?_ fun _ => Keeps.pure
  · cases r with
    | ok => exact h.2.quiet
    | error | crash => exact h.1.of_nil
  · unfold NativeDeleteWriter.finish
    split
    · exact Keeps.bind keeps_abortOwned fun _ => Keeps.pure
    refine Keeps.bind (keeps_of_spec (fun _ => finishWrite_spec) fun s r s' h => ?_)
      fun _ => Keeps.pure
    cases r with
    | ok =>
      obtain ⟨_, _, -, -, -, -, h⟩ := h
      exact h.quiet
    | error | crash => exact h.1.of_nil

end Delete

/-! ## The invariant -/

theorem mem_reachableKeys {entry : String × TableSnapshot} {location : SnapshotLocation}
    (hentry : entry ∈ tables.toList) (hlocation : location ∈ entry.2.reachableLocations) :
    entry.2.keyOf location ∈ reachableKeys tables :=
  mem_flatMap.mpr ⟨entry, hentry, mem_map_of_mem hlocation⟩

namespace StaysStored

/-- A step keeps the tables' own directories and the data of all that they read. -/
theorem step (h : StaysStored tables s₀ s) (hid : s'.disk.databaseId = s.disk.databaseId)
    (huuid : s.nextUuid ≤ s'.nextUuid)
    (hown : ∀ entry ∈ tables.toList,
      s'.disk.snapshots[entry.2.key]? = s.disk.snapshots[entry.2.key]?)
    (hdata : ∀ key ∈ reachableKeys tables, KeepsData s.disk s'.disk key) :
    StaysStored tables s₀ s' := by
  refine ⟨hid.trans h.databaseId_eq, Nat.le_trans h.nextUuid_le huuid, ?_⟩
  intro entry hentry reference hstored
  have hnow := h.stored entry hentry reference hstored
  refine hnow.congr ?_ fun location hlocation => hdata _ (mem_reachableKeys hentry hlocation)
  rw [← hnow.accepted.key_eq]
  exact hown entry hentry

/-- A step that leaves the directories alone which the tables read. -/
theorem of_same (h : StaysStored tables s₀ s) (hid : s'.disk.databaseId = s.disk.databaseId)
    (huuid : s.nextUuid ≤ s'.nextUuid)
    (hsame : ∀ key ∈ reachableKeys tables, s'.disk.snapshots[key]? = s.disk.snapshots[key]?) :
    StaysStored tables s₀ s' := by
  refine h.step hid huuid (fun entry hentry => hsame _ ?_) fun key hkey => .of_eq (hsame key hkey)
  exact mem_reachableKeys hentry (TableManifest.mem_reachableLocations.mpr (.inl rfl))

theorem keeps_removeDirectory (hkey : key ∉ reachableKeys tables) :
    Keeps (StaysStored tables s₀) (Table.removeDirectory key) := by
  have hother : ∀ k ∈ reachableKeys tables, k ∉ [key] := fun k hk hmem =>
    hkey (mem_singleton.mp hmem ▸ hk)
  refine Keeps.bind (Keeps.call fun s h => ?_) fun _ => Keeps.call fun s h => ?_
  · exact h.of_same rfl (Nat.le_refl _) fun k hk => OnlyAt.modify _ _ _ k (hother k hk)
  · exact h.of_same rfl (Nat.le_refl _) fun k hk => OnlyAt.erase _ _ k (hother k hk)

theorem keeps_recoverStaging : Keeps (StaysStored tables s₀) Staging.recover := by
  refine Keeps.bind keeps_touch fun _ => Keeps.bind Keeps.get fun _ => Keeps.forM fun _ _ => ?_
  refine Keeps.bind (Keeps.call fun s h => ?_) fun _ => keeps_touch
  exact h.of_same rfl (Nat.le_refl _) fun _ _ => rfl

theorem keeps_recoverOrphans : Keeps (StaysStored tables s₀) (Table.recoverOrphans tables) := by
  refine Keeps.bind keeps_touch fun _ => Keeps.bind Keeps.get fun _ =>
    Keeps.bind (Keeps.forM fun key _ => ?_) fun _ => keeps_touch
  unfold Table.recoverOrphan
  split
  · exact Keeps.pure
  · rename_i hkey
    refine Keeps.bind Keeps.get fun _ => Keeps.bind (Keeps.attempt ?_) fun _ => ?_
    · exact Keeps.bind keeps_touch fun _ => Keeps.bind Keeps.get fun _ => Keeps.lift
    · split
      · exact keeps_removeDirectory hkey
      · exact Keeps.pure

theorem keeps_prune {snapshot : TableSnapshot}
    (hprune : ∀ entry ∈ tables.toList, entry.2.key ∉ snapshot.inheritedKeys) :
    Keeps (StaysStored tables s₀) (Table.pruneInheritedManifests snapshot) := by
  refine Keeps.forM fun location hlocation => Keeps.bind keeps_touch fun _ =>
    Keeps.bind Keeps.get fun _ => ?_
  split
  · exact Keeps.pure
  refine Keeps.call fun s h => h.step rfl (Nat.le_refl _) (fun entry hentry => ?_)
    fun key _ directory hd => ?_
  · refine OnlyAt.modify _ _ _ _ fun hmem => hprune entry hentry ?_
    rw [mem_singleton.mp hmem]
    exact mem_map_of_mem hlocation
  · show ∃ d, (s.disk.snapshots.modify _ _)[key]? = some d ∧ _
    rw [ExtTreeMap.getElem?_modify]
    split
    · rename_i heq
      rw [Std.compare_eq_iff_eq.mp heq, hd]
      exact ⟨_, rfl, rfl⟩
    · exact ⟨directory, hd, rfl⟩

/-! ### Transactions -/

section Transactions

variable (hold : ∀ key ∈ reachableKeys tables, ¬ s₀.IsNew key)
include hold

theorem keeps_of_quiet {α : Type} {m : Program α}
    (hkeys : ∀ key ∈ keys, key ∉ reachableKeys tables) (hm : ∀ s, Keeps (Quiet keys s) m) :
    Keeps (StaysStored tables s₀) m := by
  refine Spec.of_forall fun s h => ?_
  refine Spec.weaken (hm s) (fun _ h => h ▸ .refl _ _) fun _ s' hquiet => ?_
  refine h.of_same hquiet.databaseId_eq hquiet.nextUuid_le fun k hk => ?_
  refine hquiet.snapshots k (fun hmem => hkeys k hmem hk) fun hnew => ?_
  exact hold k hk (Nat.le_trans h.nextUuid_le hnew)

theorem keeps_publish {prepared : PreparedSnapshot}
    (hkey : prepared.snapshot.key ∉ reachableKeys tables) :
    Keeps (StaysStored tables s₀) (publishTransactionWrite prepared) := by
  refine keeps_of_quiet hold (forall_mem_singleton.mpr hkey) fun _ => ?_
  refine Quiet.keeps_of_spec (fun _ => publishTransactionWrite_spec prepared) fun s r s' h => ?_
  cases r with
  | ok published =>
    obtain ⟨directory, h⟩ := h
    exact h.quiet
  | error | crash => exact h.1

end Transactions

end StaysStored

open StaysStored

section Run

variable [Digests]

/-- Wherever the operations stop, every table that could be loaded can still be loaded. -/
theorem operations_keep_tables (events : List (Operation × List Outcome))
    (hallowed : ∀ event ∈ events, event.1.Allowed tables)
    (hold : ∀ key ∈ reachableKeys tables, ¬ s₀.IsNew key) :
    StaysStored tables s₀ (runFrom (Operation.step tables) s₀ events) := by
  refine runFrom_invariant_of_mem ⟨rfl, Nat.le_refl _, fun _ _ _ h => h⟩ fun s event hevent h => ?_
  refine Spec.run (Q := fun _ => StaysStored tables s₀) ?_ event.2 h
  have hallowed := hallowed event hevent
  cases hoperation : event.1 with
  | recoverStaging => exact keeps_recoverStaging
  | recoverOrphans => exact keeps_recoverOrphans
  | abortRecovered =>
    refine Keeps.bind Keeps.get fun _ => Keeps.forM fun _ _ => ?_
    exact keeps_of_quiet hold (forall_mem_nil _) fun _ => Quiet.keeps_abort
  | delete plan vectors =>
    exact keeps_of_quiet hold (forall_mem_nil _) fun _ => Quiet.keeps_delete
  | publish prepared =>
    rw [hoperation] at hallowed
    exact Keeps.bind (keeps_publish hold hallowed) fun _ => Keeps.pure
  | abort writes =>
    rw [hoperation] at hallowed
    refine keeps_of_quiet hold (forall_mem_map.mpr hallowed) fun _ => ?_
    exact Quiet.keeps_abortWritesFrom fun _ hw => mem_map_of_mem (mem_reverse.mp hw)
  | prune snapshot =>
    rw [hoperation] at hallowed
    exact keeps_prune hallowed

end Run

section Sample

open Rebase

attribute [local instance] sampleDigests

instance : Decidable (s.IsNew key) :=
  inferInstanceAs (Decidable (s.nextUuid ≤ key.location.snapshotId))

instance : (operation : Operation) → Decidable (operation.Allowed tables)
  | .recoverStaging | .recoverOrphans | .abortRecovered | .delete .. => isTrue trivial
  | .publish prepared => inferInstanceAs (Decidable (prepared.snapshot.key ∉ _))
  | .abort writes => inferInstanceAs (Decidable (∀ write ∈ writes, write.snapshot.key ∉ _))
  | .prune snapshot =>
    inferInstanceAs (Decidable (∀ entry ∈ tables.toList, entry.2.key ∉ snapshot.inheritedKeys))

/-- A table with two committed writes, a write that is published but not committed, one
that is prepared, and the plan and the vector of a `DELETE`. -/
structure OpenWrites where
  current : TableSnapshot
  published : NativePublishedSnapshot
  prepared : PreparedSnapshot
  plan : NativeWritePlan
  vector : Uuid × DeleteVector

/-- A table in its second version, a write to be published and one to be aborted. -/
def openWrites : Program OpenWrites := do
  let base ← stageSample .create none [] [["a", "b"]]
  installSample base.snapshot
  let current ← insertSample base.snapshot 1
  installSample current
  let published ← stageSample .append (some current) [] [["d"]]
  let prepared ← prepareSample .append (some current) [] [["e"]]
  let database ← get
  let plan ← planTransactionWrite "t" .delete database.state.catalog.generation (some current)
    database.state.catalog.schemas sampleSchema 0
  let vector ← lift (deleting [0])
  pure { current, published, prepared, plan, vector := ((segmentIds current).headD 0, vector) }

/-- The recovery stops after it has emptied the directory of the prepared write. -/
def OpenWrites.events (writes : OpenWrites) : List (Operation × List Outcome) :=
  [(.publish writes.prepared, []), (.delete writes.plan [writes.vector], []),
    (.abort [writes.published], []), (.prune writes.current, []),
    (.recoverOrphans, [.done, .done, .crashed true])]

theorem crashed_recovery_keeps_tables :
    ∃ s writes, openWrites.value? (.created 0) = some (writes, s) ∧
      s.state.tables.toList = [("t", writes.current)] ∧
      let s' := runFrom (Operation.step s.state.tables) s writes.events
      let stored (disk : Disk) := Stored disk s.disk.databaseId writes.current.tableReference
        writes.current.toTableManifest
      stored s.disk ∧ stored s'.disk ∧
        writes.published.snapshot.key ∈ s.disk.snapshots ∧
        writes.published.snapshot.key ∉ s'.disk.snapshots ∧
        writes.prepared.snapshot.key ∉ s.disk.snapshots ∧
        s'.disk.snapshots[writes.prepared.snapshot.key]? = some .empty := by
  have hsample : (openWrites.value? (.created 0)).any (fun x =>
      readsBack x.2.disk x.1.current &&
      decide (x.2.state.tables.toList = [("t", x.1.current)]) &&
      x.1.events.all (fun event => decide (event.1.Allowed x.2.state.tables)) &&
      (reachableKeys x.2.state.tables).all (fun key => decide (¬ x.2.IsNew key)) &&
      let snapshots := (runFrom (Operation.step x.2.state.tables) x.2 x.1.events).disk.snapshots
      decide (x.1.published.snapshot.key ∈ x.2.disk.snapshots) &&
      decide (x.1.published.snapshot.key ∉ snapshots) &&
      decide (x.1.prepared.snapshot.key ∉ x.2.disk.snapshots) &&
      decide (snapshots[x.1.prepared.snapshot.key]? = some .empty)) = true := by
    decide +kernel
  obtain ⟨⟨writes, s⟩, hrun, hsample⟩ := (Option.any_eq_true ..).mp hsample
  simp only [Bool.and_eq_true, all_eq_true, decide_eq_true_eq] at hsample
  obtain ⟨⟨⟨⟨hreads, htables⟩, hallowed⟩, hold⟩, ⟨⟨hbefore, hafter⟩, habsent⟩, hempty⟩ :=
    hsample
  have hstored := stored_of_readsBack hreads
  have hkeep := operations_keep_tables writes.events hallowed hold
  have hentry : ("t", writes.current) ∈ s.state.tables.toList := htables ▸ mem_singleton_self _
  exact ⟨s, writes, hrun, htables, hstored, hkeep.stored _ hentry _ hstored, hbefore, hafter,
    habsent, hempty⟩

end Sample

end RustDb.Native
