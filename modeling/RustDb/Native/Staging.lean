import RustDb.Native.Table

/-!
# The staging area

A write builds its snapshot directory in the staging area, under the id of its
transaction, and publishes it with one rename.

* `begin`, `publish` and `abort` are the operations of a `StagedSnapshot`; an
  error runs its destructor, which tries to remove the staged directory.
* Their specifications say that nothing but the staging area changes, apart from
  the one directory that `publish` moves to its place.
-/

namespace RustDb.Native

open Std RustDb.Lib Faulty Program ExtTreeMap Spec StagingDirectory

/-- The directories of the staging area. -/
abbrev StagingArea := ExtTreeMap Uuid StagingDirectory compare

/-- The database with other staged files. -/
def Database.withStaging (s : Database) (staging : StagingArea) : Database :=
  { s with disk := { s.disk with staging } }

namespace Staging

/-- A staged directory that is ready for use. -/
def ready (transactionId : Uuid) (snapshot : SnapshotDirectory) : StagingDirectory :=
  { marker := some transactionId, snapshot }

/-- Removes the directory of a transaction. -/
def erase (transactionId : Uuid) (disk : Disk) : Disk :=
  { disk with staging := disk.staging.erase transactionId }

/-- `remove_owned_directory`, for the directory that is still being initialised
or for the one that has its marker. -/
def removeOwnedDirectory (transactionId : Uuid) (initialized : Bool) :
    Program Unit := do
  let path := Path.stagedWrite transactionId
  touch path
  let database ← get
  if database.disk.staging[transactionId]?.any
      fun directory => directory.marker.isSome = initialized then do
    write path (erase transactionId)
    touch path
  else pure ()

/-- The directory of a transaction is made, without a marker yet, or removed again if that fails. -/
def createDirectory (transactionId : Uuid) : Program Unit := do
  let path := Path.stagedWrite transactionId
  write path fun disk => { disk with
    staging := disk.staging.insert transactionId ⟨none, .empty⟩ }
  orClean (touch path) (removeOwnedDirectory transactionId false)
    (.nativeStorage path "staging initialization cleanup failed")

/-- The directory gets its marker, which makes it one of the transaction, and is removed again if
that cannot be synced. -/
def initializeAndPublish (transactionId : Uuid) : Program Unit := do
  let path := Path.stagedWrite transactionId
  touch path
  let database ← get
  lift (rejectIf
    (database.disk.staging[transactionId]?.bind marker ≠ none)
    (.nativeStorage path "staging transaction destination already exists"))
  write path fun disk => { disk with
    staging := disk.staging.modify transactionId fun directory =>
      { directory with marker := some transactionId } }
  orClean (touch path) (removeOwnedDirectory transactionId true)
    (.nativeStorage path "published staging cleanup failed")

/-- `initialization::create`. -/
def create (transactionId : Uuid) : Program Unit := do
  touch (.label "staging")
  createDirectory transactionId
  orClean (initializeAndPublish transactionId)
    (removeOwnedDirectory transactionId false)
    (.nativeStorage (.stagedWrite transactionId)
      "staging initialization cleanup failed")

/-- `StagedSnapshot::begin`: the id of the new transaction. -/
def begin : Program Uuid := do
  let transactionId ← newUuid
  create transactionId
  pure transactionId

/-- The directory is that of the transaction. -/
def verifyMarker (transactionId : Uuid) : Program Unit :=
  let path := Path.stagedWrite transactionId
  inspect path fun disk =>
    match disk.staging[transactionId]?.bind marker with
    | none => .error (.io (some path))
    | some marker => rejectIf (marker ≠ transactionId)
        (.nativeStorage path "transaction marker identity mismatch")

/-- The destructor of a `StagedSnapshot` that is still active. -/
def drop (transactionId : Uuid) : Program Unit := do
  verifyMarker transactionId
  write (.stagedWrite transactionId) (erase transactionId)

/-- The directory of a transaction is removed. -/
def removeTransactionRoot (transactionId : Uuid) : Program Unit := do
  drop transactionId
  touch (.stagedWrite transactionId)

/-- `StagedSnapshot::abort`. -/
def abort (transactionId : Uuid) : Program Unit :=
  orDrop (removeTransactionRoot transactionId) (drop transactionId)

/-- The rename that publishes a staged snapshot. -/
def move (transactionId : Uuid) (key : SnapshotKey) (disk : Disk) : Disk :=
  match disk.staging[transactionId]? with
  | none => disk
  | some directory => { disk with
      snapshots := disk.snapshots.insert key directory.snapshot
      staging := disk.staging.insert transactionId { directory with snapshot := .empty } }

/-- `StagedSnapshot::publish`.  Once the directory is renamed, a failed sync leaves the outcome
unknown, which the error says. -/
def publish (transactionId : Uuid) (key : SnapshotKey) : Program Unit :=
  orDrop (do
    touch key.path
    let database ← get
    lift (rejectIf (key ∈ database.disk.snapshots)
      (.nativeStorage key.path "snapshot destination already exists"))
    lift (rejectIf (transactionId ∉ database.disk.staging)
      (.io (some key.path)))
    write key.path (move transactionId key)
    mapError (fun _ => .commitOutcomeUnknown key.path transactionId
      "native snapshot was renamed into place but directory durability is unknown; reopen the engine")
      (touch key.path)
    mapError (fun _ => .nativeStorage key.path
      "native snapshot was published but staging cleanup failed; reopen the engine")
      (removeTransactionRoot transactionId))
    (drop transactionId)

/-- Whether `recover_staging` removes a directory. -/
def removable (transactionId : Uuid) (directory : StagingDirectory) : Bool :=
  directory.marker = none ∨ directory.marker = some transactionId

/-- `recover_staging`. -/
def recover : Program Unit := do
  touch (.label "staging")
  let database ← get
  let entries := database.disk.staging.toList.filter fun (id, directory) =>
    removable id directory
  forM entries fun (id, _) => do
    write (.stagedWrite id) (erase id)
    touch (.stagedWrite id)

/-! ## Specifications -/

variable {faults : Prop} {s₀ : Database} {transactionId : Uuid}

/-- Only the staging area differs. -/
def Only (s₀ s : Database) : Prop :=
  ∃ staging, s = s₀.withStaging staging

theorem Only.refl (s : Database) : Only s s :=
  ⟨_, rfl⟩

theorem Only.trans {s₁ s₂ : Database} (h : Only s₀ s₁) (h' : Only s₁ s₂) :
    Only s₀ s₂ := by
  obtain ⟨staging, rfl⟩ := h
  obtain ⟨staging', rfl⟩ := h'
  exact ⟨staging', rfl⟩

/-- A call that changes the staging area. -/
theorem write_spec {path : Path} {f : Disk → Disk} (staging : StagingArea)
    (hf : f s₀.disk = { s₀.disk with staging }) :
    Spec faults (· = s₀) (write path f)
      (outcome (fun _ s => s = s₀.withStaging staging)
        fun s => faults ∧ Only s₀ s) := by
  have hs : { s₀ with disk := f s₀.disk } = s₀.withStaging staging := by
    rw [hf]
    rfl
  refine callOutcome ?_ ?_
  · rintro s rfl
    exact hs
  · rintro hfault s rfl
    exact ⟨⟨hfault, .refl s⟩, hfault, _, hs⟩

/-- Under faults, cleaning up leaves a change of the staging area. -/
theorem removeOwnedDirectory_only (initialized : Bool) :
    Spec faults (Only s₀) (removeOwnedDirectory transactionId initialized)
      (outcome (fun _ => Only s₀) fun s => faults ∧ Only s₀ s) := by
  unfold removeOwnedDirectory
  refine seq touch_spec fun _ => get_bind fun s₁ h₁ => ?_
  split
  · refine seq (Q := fun _ => Only s₀) (weakenOutcome (write_spec _ rfl) ?_ ?_)
      fun _ => touch_spec
    · exact fun _ s h => h₁.trans ⟨_, h⟩
    · exact fun _ s h => ⟨h.1, h₁.trans h.2⟩
  · exact pure fun s hs => hs ▸ h₁

theorem orClean_only {m : Program Unit} {cleanup : Program Unit} {failure : Error}
    {P : Database → Prop} {Q : Unit → Database → Prop}
    (hm : Spec faults P m (outcome Q fun s => faults ∧ Only s₀ s))
    (hclean : Spec faults (Only s₀) cleanup
      (outcome (fun _ => Only s₀) fun s => faults ∧ Only s₀ s)) :
    Spec faults P (orClean m cleanup failure)
      (outcome Q fun s => faults ∧ Only s₀ s) := by
  refine orClean_spec hm (fun _ h => h) fun e => ?_
  apply of_forall
  rintro s₁ ⟨hf, h₁⟩
  refine failAfter_spec (F := fun _ s => faults ∧ Only s₀ s)
    (weaken (weakenOutcome hclean (fun _ s h => ⟨hf, h⟩) fun _ _ h => h)
      (fun s hs => hs ▸ h₁) fun _ _ h => h) (fun _ _ h => h) fun _ h => h

theorem insert_modify_marker (staging : StagingArea) (id : Uuid) :
    (staging.insert id ⟨none, .empty⟩).modify id
      (fun directory => { directory with marker := some id }) =
    staging.insert id (ready id .empty) := by
  refine ext_getElem? fun {k} => ?_
  simp only [getElem?_modify, getElem?_insert]
  by_cases h : compare id k = .eq
  · rw [if_pos h, if_pos h, if_pos (Std.compare_eq_iff_eq.mpr rfl)]
    rfl
  · rw [if_neg h, if_neg h, if_neg h]

/-- A new staged directory is empty and has its marker. -/
theorem create_spec (transactionId : Uuid) :
    Spec faults (· = s₀) (create transactionId)
      (outcome
        (fun _ s => s = s₀.withStaging (s₀.disk.staging.insert transactionId
          (ready transactionId .empty)))
        fun s => faults ∧ Only s₀ s) := by
  unfold create
  refine idle_bind (fun hf _ s h => ⟨hf, h ▸ .refl s⟩) ?_
  let s₁ := s₀.withStaging (s₀.disk.staging.insert transactionId ⟨none, .empty⟩)
  have honly : Only s₀ s₁ := ⟨_, rfl⟩
  have htouch : ∀ path, Spec faults (· = s₁) (touch path)
      (outcome (fun _ s => s = s₁) fun s => faults ∧ Only s₀ s) := fun path =>
    weakenOutcome touch_spec (fun _ _ h => h) fun _ s h => ⟨h.1, h.2 ▸ honly⟩
  refine seq (Q := fun _ s => s = s₁) ?_ fun _ => ?_
  · unfold createDirectory
    refine seq (Q := fun _ s => s = s₁) (write_spec _ rfl) fun _ => ?_
    exact orClean_only (htouch _) (removeOwnedDirectory_only _)
  · refine orClean_only ?_ (removeOwnedDirectory_only _)
    unfold initializeAndPublish
    refine seq (htouch _) fun _ => get_self ?_
    have hmarker : s₁.disk.staging[transactionId]?.bind marker =
        none := by
      show (s₀.disk.staging.insert transactionId ⟨none, .empty⟩)[transactionId]?.bind
        marker = none
      rw [getElem?_insert_self]
      rfl
    rw [hmarker]
    refine seq (Q := fun _ s => s = s₁) (pure fun s hs => hs) fun _ => ?_
    let s₃ := s₀.withStaging (s₀.disk.staging.insert transactionId (ready transactionId .empty))
    refine seq (Q := fun _ s => s = s₃) (weakenOutcome
      (write_spec (s₀.disk.staging.insert transactionId (ready transactionId .empty))
        ?_) (fun _ s h => h) fun _ s h => ⟨h.1, honly.trans h.2⟩) fun _ => ?_
    · exact congrArg (fun staging => { s₀.disk with staging }) (insert_modify_marker _ _)
    · refine orClean_only (weakenOutcome touch_spec (fun _ _ h => h)
        fun _ s h => ⟨h.1, h.2 ▸ ⟨_, rfl⟩⟩) (removeOwnedDirectory_only _)

theorem begin_spec :
    Spec faults (· = s₀) begin
      (outcome
        (fun transactionId s => transactionId = s₀.nextUuid ∧
          s = Database.withStaging { s₀ with nextUuid := s₀.nextUuid + 1 }
            (s₀.disk.staging.insert s₀.nextUuid (ready s₀.nextUuid .empty)))
        fun s => faults ∧ Only { s₀ with nextUuid := s₀.nextUuid + 1 } s) := by
  unfold begin
  refine newUuid_bind (seq (create_spec s₀.nextUuid) fun _ => ?_)
  exact pure fun s hs => ⟨rfl, hs⟩

/-- The marker of the staged directory is in place. -/
def Marked (s : Database) (transactionId : Uuid) : Prop :=
  s.disk.staging[transactionId]?.bind marker = some transactionId

theorem verifyMarker_spec :
    Spec faults (· = s₀) (verifyMarker transactionId)
      (ends (fun _ s => s = s₀ ∧ Marked s₀ transactionId)
        fun _ s => s = s₀ ∧ (faults ∨ ¬ Marked s₀ transactionId)) := by
  unfold verifyMarker
  refine weakenOutcome (Reads.inspect _ _ faults s₀) ?_ ?_
  · rintro _ s ⟨hs, hread⟩
    refine ⟨hs, ?_⟩
    unfold Marked
    cases hm : s₀.disk.staging[transactionId]?.bind marker with
    | none => simp [hm] at hread
    | some marker =>
      simp only [hm, rejectIf_eq_ok, not_not] at hread
      rw [hread]
  · rintro e s ⟨hs, hf | ⟨error, -, herr⟩⟩
    · exact ⟨hs, .inl hf⟩
    · refine ⟨hs, .inr fun hmarked => ?_⟩
      unfold Marked at hmarked
      simp [hmarked, rejectIf] at herr

theorem drop_spec :
    Spec faults (· = s₀) (drop transactionId)
      (ends
        (fun _ s => s = s₀.withStaging (s₀.disk.staging.erase transactionId))
        fun _ s => Only s₀ s ∧ (faults ∨ ¬ Marked s₀ transactionId)) := by
  unfold drop
  refine andThen verifyMarker_spec ?_ fun _ s₁ ⟨hs₁, _⟩ => ?_
  · rintro _ s ⟨rfl, h⟩
    exact ⟨.refl s, h⟩
  · subst hs₁
    exact weakenOutcome (write_spec _ rfl) (fun _ _ h => h) fun _ _ h => ⟨h.2, .inl h.1⟩

theorem removeTransactionRoot_spec :
    Spec faults (· = s₀) (removeTransactionRoot transactionId)
      (ends
        (fun _ s => s = s₀.withStaging (s₀.disk.staging.erase transactionId))
        fun _ s => Only s₀ s ∧ (faults ∨ ¬ Marked s₀ transactionId)) := by
  unfold removeTransactionRoot
  refine seq drop_spec fun _ => ?_
  exact weakenOutcome touch_spec (fun _ _ h => h) fun _ s h => ⟨⟨_, h.2⟩, .inl h.1⟩

/-- The states a publication that failed can leave: the directory may be there. -/
def Publishing (s₀ : Database) (key : SnapshotKey) (s : Database) : Prop :=
  ∃ staging snapshots, OnlyAt [key] s₀.disk.snapshots snapshots ∧
    (key ∈ s₀.disk.snapshots → snapshots = s₀.disk.snapshots) ∧
    s = (s₀.withStaging staging).withSnapshots snapshots

theorem Publishing.of_only {key : SnapshotKey} {s : Database} (h : Only s₀ s) :
    Publishing s₀ key s := by
  obtain ⟨staging, rfl⟩ := h
  exact ⟨staging, _, .refl _ _, fun _ => rfl, rfl⟩

theorem Publishing.trans {key : SnapshotKey} {s₁ s : Database}
    (h : Publishing s₀ key s₁) (h' : Only s₁ s) : Publishing s₀ key s := by
  obtain ⟨staging, snapshots, honly, hsame, rfl⟩ := h
  obtain ⟨staging', rfl⟩ := h'
  exact ⟨staging', snapshots, honly, hsame, rfl⟩

/-- The state after a successful publication. -/
def published (s₀ : Database) (transactionId : Uuid) (key : SnapshotKey)
    (directory : SnapshotDirectory) : Database :=
  { s₀ with disk := { s₀.disk with
      snapshots := s₀.disk.snapshots.insert key directory
      staging := s₀.disk.staging.erase transactionId } }

theorem insert_erase (staging : StagingArea) (id : Uuid) (directory : StagingDirectory) :
    (staging.insert id directory).erase id = staging.erase id := by
  refine ext_getElem? fun {k} => ?_
  simp only [getElem?_erase, getElem?_insert]
  by_cases h : compare id k = .eq
  · rw [if_pos h, if_pos h]
  · rw [if_neg h, if_neg h, if_neg h]

/-- `publish` moves the staged directory to its place. -/
theorem publish_spec (key : SnapshotKey) :
    Spec faults (· = s₀) (publish transactionId key)
      (ends
        (fun _ s => key ∉ s₀.disk.snapshots ∧ ∃ directory,
          s₀.disk.staging[transactionId]? = some directory ∧
          s = published s₀ transactionId key directory.snapshot)
        fun _ s => Publishing s₀ key s ∧ (faults ∨ key ∈ s₀.disk.snapshots ∨
          ¬ Marked s₀ transactionId)) := by
  unfold publish
  have hdrop : ∀ (C : Prop), Spec faults (fun s => Publishing s₀ key s ∧ C)
      (drop transactionId) (ends (fun _ s => Publishing s₀ key s ∧ C)
        fun _ s => Publishing s₀ key s ∧ C) := by
    intro C
    apply of_forall
    rintro s₁ ⟨h₁, hc⟩
    exact weakenOutcome drop_spec (fun _ s h => ⟨h₁.trans ⟨_, h⟩, hc⟩)
      fun _ s h => ⟨h₁.trans h.1, hc⟩
  refine orDrop_spec (F := fun _ s => Publishing s₀ key s ∧ (faults ∨
    key ∈ s₀.disk.snapshots ∨ ¬ Marked s₀ transactionId)) ?_ (fun _ h => h)
    fun _ => hdrop _
  have hself : Publishing s₀ key s₀ := .of_only (.refl s₀)
  refine idle_bind (fun hf _ s h => ⟨h ▸ hself, .inl hf⟩) (get_self ?_)
  refine check (fun hexists s hs => ⟨hs ▸ hself, .inr (.inl hexists)⟩) fun hfree => ?_
  refine check (fun habsent s hs => ?_) fun hmem => ?_
  · refine ⟨hs ▸ hself, .inr (.inr fun hmarked => habsent ?_)⟩
    obtain ⟨directory, hd, -⟩ := Option.bind_eq_some_iff.mp hmarked
    exact mem_iff_exists_getElem?.mpr ⟨directory, hd⟩
  obtain ⟨directory, hdir⟩ := mem_iff_exists_getElem?.mp (not_not.mp hmem)
  -- The rename is the point at which the directory appears.
  let s₄ : Database := { s₀ with disk := { s₀.disk with
    snapshots := s₀.disk.snapshots.insert key directory.snapshot
    staging := s₀.disk.staging.insert transactionId { directory with snapshot := .empty } } }
  have hmove : { s₀ with disk := move transactionId key s₀.disk } = s₄ := by
    unfold move
    rw [hdir]
  have h₄ : Publishing s₀ key s₄ :=
    ⟨s₄.disk.staging, _, .insert _ _ _, fun h => absurd h hfree, rfl⟩
  have hmarked₄ : Marked s₀ transactionId → Marked s₄ transactionId := by
    unfold Marked
    show _ → (s₀.disk.staging.insert transactionId { directory with
      snapshot := .empty })[transactionId]?.bind marker = _
    rw [hdir, getElem?_insert_self]
    exact id
  refine seq (Q := fun _ s => s = s₄) (callOutcome ?_ ?_) fun _ => ?_
  · rintro s rfl
    exact hmove
  · rintro hf s rfl
    refine ⟨⟨hself, .inl hf⟩, ?_, .inl hf⟩
    rw [hmove]
    exact h₄
  refine andThen (mapErrorOutcome (touch_spec (P := fun s => s = s₄)))
    (fun _ s h => ⟨h.2 ▸ h₄, .inl h.1⟩) fun _ s₅ hs₅ => ?_
  subst hs₅
  refine weakenOutcome (mapErrorOutcome removeTransactionRoot_spec) ?_ ?_
  · rintro _ s rfl
    refine ⟨hfree, directory, hdir, ?_⟩
    show s₄.withStaging ((s₀.disk.staging.insert transactionId _).erase _) = _
    rw [insert_erase]
    rfl
  · rintro e s ⟨h, hf⟩
    exact ⟨h₄.trans h, hf.imp_right fun hm => .inr fun h => hm (hmarked₄ h)⟩

end Staging

end RustDb.Native
