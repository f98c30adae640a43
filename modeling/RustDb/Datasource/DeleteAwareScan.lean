import RustDb.Execution.Error
import RustDb.Lib.Interleaving
import RustDb.Native.DeleteVector

/-!
# Scanning segments with deleted rows

`datasource/native/delete_vectors.rs`.  Every segment has one scan task; the tasks run side
by side and share one counter of the rows that may still be returned.  A task keeps the
physical offset of its next row, since deletion is by position.

* `Task.step`: one step of a task, at the grain of one access to the shared counter.
* `visible`: the rows of a segment that are not deleted.
* `Task.Inv`: what holds of a task between two of its steps.
* `scan_shows_visible_rows`: what all tasks together return.
-/

namespace RustDb.Datasource.DeleteAware

open RustDb.Lib List Option
open RustDb.Native (DeleteVector checkedAdd checkedAdd_eq_some)
open RustDb.Execution (Error)

variable {α : Type}

/-! ## The scan -/

/-- A segment: the batches of each of its scan tasks, and its deleted rows. -/
structure Segment (α : Type) where
  tasks : List (List (List α))
  deleteVector : Option DeleteVector

/-- How a task left its loop: at the end of its input, when the limit was or was not
exhausted, on an exhausted limit, or with an error. -/
inductive Stop where
  | ended (exhausted : Bool)
  | limit
  | failed
deriving DecidableEq, Repr

/-- Where a task is in its loop. -/
inductive Phase (α : Type) where
  | polling
  | received (rows : List α)
  | claiming (rows : List α) (remaining : Option Nat)
  | leaving (ended : Bool)
  | finished (stop : Stop) (result : Except Error Unit)

/-- A task: the batches it has not read, and the rows it has returned. -/
structure Task (α : Type) where
  input : List (List α)
  vector : Option DeleteVector
  physicalOffset : Nat
  phase : Phase α
  emitted : List α

/-- The error of a segment with more rows than its delete vector. -/
def beyondError (stop rowCount : Nat) : Error :=
  .execution
    s!"native segment produced row offset {stop} beyond delete-vector row count {rowCount}"

/-- The error of a segment with fewer rows than its delete vector. -/
def mismatchError (rowCount physicalOffset : Nat) : Error :=
  .execution
    s!"native delete vector covers {rowCount} rows but its segment produced {physicalOffset}"

/-- The elements where the mask is set: Arrow's `filter_record_batch`. -/
def select : List Bool → List α → List α
  | true :: mask, x :: l => x :: select mask l
  | false :: mask, _ :: l => select mask l
  | _, _ => []

/-- `filter_deleted`: the rows of a batch that starts at the offset `start`. -/
def filterDeleted (rows : List α) (vector : DeleteVector) (start : Nat) :
    Except Error (List α) :=
  match checkedAdd start rows.length with
  | none => .error (.resourceExhausted "native row offset overflow")
  | some stop =>
    if vector.rowCount < stop then .error (beyondError stop vector.rowCount)
    else
      let mask := (range' start rows.length).map fun offset => !vector.contains offset
      let kept := mask.countP id
      if kept = rows.length then .ok rows
      else if kept = 0 then .ok (rows.take 0)
      else .ok (select mask rows)

/-- `VisibleLimit::exhausted`. -/
def exhausted (limit : Option Nat) : Bool := limit = some 0

/-- The check after the loop of a task. -/
def check (vector : Option DeleteVector) (physicalOffset : Nat) (exhausted : Bool) :
    Except Error Unit :=
  match vector with
  | some vector =>
    if !exhausted ∧ physicalOffset ≠ vector.rowCount then
      .error (mismatchError vector.rowCount physicalOffset)
    else .ok ()
  | none => .ok ()

namespace Task

/-- A task before its first batch. -/
def new (batches : List (List α)) (vector : Option DeleteVector) : Task α where
  input := batches
  vector
  physicalOffset := 0
  phase := .polling
  emitted := []

/-- The task yields rows and polls its input again. -/
def emit (task : Task α) (rows : List α) : Task α :=
  { task with phase := .polling, emitted := task.emitted ++ rows }

/-- The task after `claim` has granted `claimed` of the rows. -/
def claimed (task : Task α) (rows : List α) (granted : Nat) : Task α :=
  if granted = 0 then { task with phase := .leaving false }
  else if granted < rows.length then task.emit (rows.take granted)
  else task.emit rows

/-- The rows of the next batch that are not deleted. -/
def kept (task : Task α) (rows : List α) : Except Error (List α) :=
  match task.vector with
  | some vector => filterDeleted rows vector task.physicalOffset
  | none => .ok rows

/-- The offset moves past a batch, of which the rows `kept` are left. -/
def advance (task : Task α) (limited : Bool) (physicalRows : Nat) (kept : List α) :
    Except Error (Task α) :=
  match checkedAdd task.physicalOffset physicalRows with
  | none => .error (.resourceExhausted "native physical row offset overflow")
  | some physicalOffset =>
    let task := { task with physicalOffset }
    if kept.isEmpty then .ok { task with phase := .polling }
    else if limited then .ok { task with phase := .claiming kept none }
    else .ok (task.emit kept)

/-- The batch goes through the delete vector. -/
def filter (task : Task α) (limited : Bool) (rows : List α) : Except Error (Task α) := do
  let kept ← task.kept rows
  task.advance limited rows.length kept

/-- The task after its loop. -/
def leave (task : Task α) (ended exhausted : Bool) : Task α :=
  let stop := if ended then .ended exhausted else .limit
  { task with phase := .finished stop (check task.vector task.physicalOffset exhausted) }

/-- One step of a task.  The weak exchange of `claim` may fail for no reason, which is
`spurious`. -/
def step (limit : Option Nat) (task : Task α) (spurious : Bool) : Option Nat × Task α :=
  match task.phase with
  | .polling =>
    match task.input with
    | [] => (limit, { task with phase := .leaving true })
    | rows :: input => (limit, { task with input, phase := .received rows })
  | .received rows =>
    if exhausted limit then (limit, { task with phase := .leaving false })
    else
      match task.filter limit.isSome rows with
      | .ok task => (limit, task)
      | .error error => (limit, { task with phase := .finished .failed (.error error) })
  | .claiming rows none => (limit, { task with phase := .claiming rows limit })
  | .claiming rows (some remaining) =>
    if remaining = 0 then (limit, task.claimed rows 0)
    else if limit = some remaining ∧ !spurious then
      let granted := min remaining rows.length
      (some (remaining - granted), task.claimed rows granted)
    else (limit, { task with phase := .claiming rows limit })
  | .leaving ended => (limit, task.leave ended (exhausted limit))
  | .finished _ _ => (limit, task)

end Task

/-- `DeleteAwareParquetTable::scan_tasks`: a segment without a task is passed over. -/
def scanTasks : List (Segment α) → Except Error (List (Task α))
  | [] => .ok []
  | segment :: segments =>
    match segment.tasks with
    | [] => scanTasks segments
    | [batches] => do
      let tasks ← scanTasks segments
      .ok (Task.new batches segment.deleteVector :: tasks)
    | _ =>
      .error (.internal "single Native segment produced more than one ordered scan task")

/-- The scan of the tasks under a limit, in the order of the schedule. -/
def scan (limit : Option Nat) (tasks : List (Task α)) (schedule : List (Nat × Bool)) :
    Threads (Option Nat) (Task α) :=
  runFrom (turn Task.step) { shared := limit, threads := tasks } schedule

/-! ## Visible rows -/

/-- The row at this place of the segment is deleted. -/
def deleted (vector : Option DeleteVector) (offset : Nat) : Bool :=
  vector.any fun vector => vector.contains offset

/-- The rows at the offsets from `start` that are not deleted. -/
def visible (vector : Option DeleteVector) (start : Nat) (rows : List α) : List α :=
  ((rows.zipIdx start).filter fun row => !deleted vector row.2).map Prod.fst

/-- The rows of a segment that are not deleted, in the order of its file. -/
def Segment.visible (segment : Segment α) : List α :=
  DeleteAware.visible segment.deleteVector 0 segment.tasks.flatten.flatten

theorem visible_append (vector : Option DeleteVector) (start : Nat) (rows rows' : List α) :
    visible vector start (rows ++ rows') =
      visible vector start rows ++ visible vector (start + rows.length) rows' := by
  unfold visible
  rw [zipIdx_append, filter_append, map_append]

theorem visible_none (start : Nat) (rows : List α) : visible none start rows = rows := by
  unfold visible deleted
  simp

section

variable (vector : DeleteVector) (start : Nat) (rows : List α)

theorem length_visible : (visible (some vector) start rows).length =
      ((List.range' start rows.length).map fun offset => !vector.contains offset).countP id := by
  rw [visible, length_map, ← countP_eq_length_filter, ← zipIdx_map_snd,
    List.map_map, List.countP_map]
  rfl

theorem select_eq_visible :
    select ((range' start rows.length).map fun offset => !vector.contains offset) rows =
      visible (some vector) start rows := by
  induction rows generalizing start with
  | nil => rfl
  | cons row rows ih =>
    have hrest := ih (start + 1)
    unfold visible at hrest ⊢
    rw [length_cons, range'_succ, map_cons, zipIdx_cons]
    cases hrow : vector.contains start
    · simp only [Bool.not_false, select, hrest, deleted, any_some, hrow,
        filter_cons_of_pos, map_cons]
    · simp only [Bool.not_true, select, hrest, deleted, any_some, hrow,
        Bool.false_eq_true, not_false_eq_true, filter_cons_of_neg]

end

theorem visible_sublist (vector : Option DeleteVector) (start : Nat) (rows : List α) :
    (visible vector start rows).Sublist rows := by
  have h := (filter_sublist (p := fun row : α × Nat => !deleted vector row.2)
    (l := rows.zipIdx start)).map Prod.fst
  rwa [zipIdx_map_fst] at h

variable {rows : List α} {vector : DeleteVector} {start : Nat}

/-- What `filter_deleted` returns are the visible rows. -/
theorem filterDeleted_eq_ok {kept : List α} (h : filterDeleted rows vector start = .ok kept) :
    kept = visible (some vector) start rows := by
  unfold filterDeleted at h
  split at h
  · cases h
  · split at h
    · cases h
    · simp only [← length_visible] at h
      split at h
      · rename_i hall
        cases h
        exact ((visible_sublist _ _ _).eq_of_length hall).symm
      · split at h
        · rename_i hnone
          cases h
          rw [take_zero, length_eq_zero_iff.mp hnone]
        · cases h
          rw [select_eq_visible]

/-! ## Errors -/

/-- The first eight characters tell the two errors about row counts apart. -/
theorem beyondError_ne_mismatchError (a b c d : Nat) : beyondError a b ≠ mismatchError c d := by
  intro h
  have htext := congrArg (fun text => text.toList.take 8) (Error.execution.inj h)
  simp only [String.toList_append, append_assoc] at htext
  rw [take_append_of_le_length (by decide), take_append_of_le_length (by decide)] at htext
  exact absurd htext (by decide)

theorem filterDeleted_error {error : Error} (h : filterDeleted rows vector start = .error error)
    (a b : Nat) : error ≠ mismatchError a b := by
  unfold filterDeleted at h
  split at h
  · cases h
    exact Error.noConfusion
  · split at h
    · cases h
      exact beyondError_ne_mismatchError _ _ a b
    · simp only at h
      split at h
      · cases h
      · split at h <;> cases h

variable {vector : Option DeleteVector}

theorem check_eq_mismatch {physicalOffset : Nat}
    {exhausted : Bool} :
    (∃ a b, check vector physicalOffset exhausted = .error (mismatchError a b)) ↔
      ∃ v, vector = some v ∧ exhausted = false ∧ physicalOffset ≠ v.rowCount := by
  cases vector with
  | none => simp [check]
  | some v =>
    by_cases h : !exhausted ∧ physicalOffset ≠ v.rowCount
    · have hcheck : check (some v) physicalOffset exhausted =
          .error (mismatchError v.rowCount physicalOffset) := if_pos h
      exact ⟨fun _ => ⟨v, rfl, by simpa using h.1, h.2⟩, fun _ => ⟨_, _, hcheck⟩⟩
    · have hcheck : check (some v) physicalOffset exhausted = .ok () := if_neg h
      rw [hcheck]
      constructor
      · intro ⟨a, b, hok⟩
        cases hok
      · intro ⟨v', hv, hex, hne⟩
        cases hv
        exact absurd ⟨by simp [hex], hne⟩ h

/-! ## One task -/

/-- The rows `emitted` and `pending` are the visible ones of `rows`, unless the limit is
exhausted. -/
def Shown (limit : Option Nat) (vector : Option DeleteVector) (rows emitted pending : List α) :
    Prop :=
  emitted ++ pending = visible vector 0 rows ∨
    (limit = some 0 ∧ emitted <+: visible vector 0 rows)

variable {limit : Option Nat} {emitted pending : List α}

theorem Shown.isPrefix (h : Shown limit vector rows emitted pending) :
    emitted <+: visible vector 0 rows := by
  rcases h with heq | ⟨-, hle⟩
  · exact ⟨pending, heq⟩
  · exact hle

theorem Shown.append (h : Shown limit vector rows emitted []) (more : List α) :
    Shown limit vector (rows ++ more) emitted (visible vector rows.length more) := by
  have hmore := visible_append vector 0 rows more
  rw [zero_add] at hmore
  rcases h with heq | ⟨hlimit, hle⟩
  · left
    rw [hmore, ← heq, append_nil]
  · right
    rw [hmore]
    exact ⟨hlimit, hle.trans (prefix_append _ _)⟩

/-- The counter after some step of some task. -/
structure Later (limit limit' : Option Nat) : Prop where
  exhausted : limit = some 0 → limit' = some 0
  isSome : limit'.isSome = limit.isSome

theorem Later.refl (limit : Option Nat) : Later limit limit := ⟨id, rfl⟩

theorem Shown.later {limit' : Option Nat} (h : Shown limit vector rows emitted pending)
    (hlater : Later limit limit') : Shown limit' vector rows emitted pending := by
  rcases h with heq | ⟨hlimit, hle⟩
  · exact .inl heq
  · exact .inr ⟨hlater.exhausted hlimit, hle⟩

namespace Task

/-- A task has read all of `batches` but those `ahead`, and its offset is the number of
rows it has read. -/
def Reads (batches : List (List α)) (vector : Option DeleteVector) (limit : Option Nat)
    (task : Task α) (ahead : List (List α)) (pending : List α) : Prop :=
  ∃ seen, batches = seen ++ ahead ∧ task.physicalOffset = seen.flatten.length ∧
    Shown limit vector seen.flatten task.emitted pending

/-- How a task has finished. -/
def Ends (batches : List (List α)) (vector : Option DeleteVector) (limit : Option Nat)
    (task : Task α) (result : Except Error Unit) : Stop → Prop
  | .ended exhausted =>
    task.input = [] ∧ (exhausted = true → limit = some 0) ∧
      Shown limit vector batches.flatten task.emitted [] ∧
      result = check vector batches.flatten.length exhausted
  | .limit =>
    limit = some 0 ∧ task.emitted <+: visible vector 0 batches.flatten ∧ result = .ok ()
  | .failed => ∃ error, result = .error error ∧ ∀ a b, error ≠ mismatchError a b

/-- What holds of a task between two of its steps. -/
def Inv (batches : List (List α)) (vector : Option DeleteVector) (limit : Option Nat)
    (task : Task α) : Prop :=
  task.vector = vector ∧
    match task.phase with
    | .polling => Reads batches vector limit task task.input []
    | .received rows => Reads batches vector limit task (rows :: task.input) []
    | .claiming rows remaining =>
      limit.isSome = true ∧ rows ≠ [] ∧ (remaining = some 0 → limit = some 0) ∧
        Reads batches vector limit task task.input rows
    | .leaving ended =>
      (if ended then task.input = [] else limit = some 0) ∧
        ∃ ahead, (ended = true → ahead = []) ∧ Reads batches vector limit task ahead []
    | .finished stop result => Ends batches vector limit task result stop

variable {batches : List (List α)} {vector : Option DeleteVector} {limit limit' : Option Nat}
  {task task' : Task α}

theorem Reads.later {ahead : List (List α)}
    (h : Reads batches vector limit task ahead pending) (hlater : Later limit limit') :
    Reads batches vector limit' task ahead pending := by
  obtain ⟨seen, hbatches, hoffset, hshown⟩ := h
  exact ⟨seen, hbatches, hoffset, hshown.later hlater⟩

/-- A step of another task leaves the invariant of this one. -/
theorem Inv.later (h : Inv batches vector limit task) (hlater : Later limit limit') :
    Inv batches vector limit' task := by
  obtain ⟨hvector, hphase⟩ := h
  refine ⟨hvector, ?_⟩
  cases hcase : task.phase with rw [hcase] at hphase
  | polling | received => exact Reads.later hphase hlater
  | claiming rows remaining =>
    obtain ⟨hsome, hrows, hzero, hreads⟩ := hphase
    exact ⟨hlater.isSome ▸ hsome, hrows, fun h => hlater.exhausted (hzero h), hreads.later hlater⟩
  | leaving ended =>
    obtain ⟨hwhy, ahead, hahead, hreads⟩ := hphase
    refine ⟨?_, ahead, hahead, hreads.later hlater⟩
    cases ended with
    | true => exact hwhy
    | false => exact hlater.exhausted hwhy
  | finished stop result =>
    cases stop with
    | ended exhausted =>
      obtain ⟨hinput, hexhausted, hshown, hresult⟩ := hphase
      exact ⟨hinput, fun h => hlater.exhausted (hexhausted h), hshown.later hlater, hresult⟩
    | limit =>
      obtain ⟨hlimit, hle, hresult⟩ := hphase
      exact ⟨hlater.exhausted hlimit, hle, hresult⟩
    | failed => exact hphase

variable {rows : List α}

theorem kept_eq_ok {kept : List α} (h : task.kept rows = .ok kept) :
    kept = visible task.vector task.physicalOffset rows := by
  unfold Task.kept at h
  split at h
  · rename_i vector hvector
    rw [hvector]
    exact filterDeleted_eq_ok h
  · rename_i hvector
    cases h
    rw [hvector, visible_none]

variable {limited : Bool}

/-- What a batch does to a task when nothing fails. -/
theorem filter_eq_ok (h : task.filter limited rows = .ok task') :
    ∃ phase emitted, task' = { task with
        physicalOffset := task.physicalOffset + rows.length, phase, emitted } ∧
      ((visible task.vector task.physicalOffset rows = [] ∧ phase = .polling ∧
          emitted = task.emitted) ∨
        (limited = true ∧ visible task.vector task.physicalOffset rows ≠ [] ∧
          phase = .claiming (visible task.vector task.physicalOffset rows) none ∧
          emitted = task.emitted) ∨
        (limited = false ∧ phase = .polling ∧
          emitted = task.emitted ++ visible task.vector task.physicalOffset rows)) := by
  obtain ⟨kept, hkept, hadvance⟩ := bind_eq_ok.mp h
  rw [← kept_eq_ok hkept]
  unfold advance at hadvance
  split at hadvance
  · cases hadvance
  · rename_i physicalOffset hoffset
    obtain ⟨-, rfl⟩ := checkedAdd_eq_some.mp hoffset
    by_cases hempty : kept.isEmpty = true
    · rw [if_pos hempty] at hadvance
      cases hadvance
      exact ⟨_, _, rfl, .inl ⟨isEmpty_iff.mp hempty, rfl, rfl⟩⟩
    · rw [if_neg hempty] at hadvance
      have hne : kept ≠ [] := fun h => hempty (isEmpty_iff.mpr h)
      cases limited with
      | true =>
        cases hadvance
        exact ⟨_, _, rfl, .inr (.inl ⟨rfl, hne, rfl, rfl⟩)⟩
      | false =>
        cases hadvance
        exact ⟨_, _, rfl, .inr (.inr ⟨rfl, rfl, rfl⟩)⟩

/-- The errors inside the loop are not that of the check after it. -/
theorem filter_error {error : Error} (h : task.filter limited rows = .error error) (a b : Nat) :
    error ≠ mismatchError a b := by
  unfold filter at h
  cases hkept : task.kept rows with
  | error error' =>
    rw [hkept] at h
    cases h
    unfold Task.kept at hkept
    split at hkept
    · exact filterDeleted_error hkept a b
    · cases hkept
  | ok kept =>
    rw [hkept] at h
    change task.advance limited rows.length kept = .error error at h
    unfold advance at h
    split at h
    · cases h
      exact Error.noConfusion
    · simp only at h
      split at h
      · cases h
      · split at h <;> cases h

/-- `claim` takes rows from the counter and gives them to the task. -/
theorem claimed_cases (task : Task α) {granted : Nat} (hle : granted ≤ rows.length) :
    (granted = 0 ∧ task.claimed rows granted = { task with phase := .leaving false }) ∨
      (granted ≠ 0 ∧ task.claimed rows granted = task.emit (rows.take granted)) := by
  unfold claimed
  by_cases hzero : granted = 0
  · exact .inl ⟨hzero, if_pos hzero⟩
  · right
    rw [if_neg hzero]
    split_ifs with hlt
    · exact ⟨hzero, rfl⟩
    · have hall : rows.take granted = rows := take_of_length_le (by omega)
      rw [hall]
      exact ⟨hzero, rfl⟩

/-- What a step of a task can do to the counter and the task.  The invariants of a scan are proved
from these cases. -/
inductive Stepped (limit : Option Nat) (task : Task α) : Option Nat → Task α → Prop where
  | ended : task.phase = .polling → task.input = [] →
      Stepped limit task limit { task with phase := .leaving true }
  | received {rows : List α} {input : List (List α)} :
      task.phase = .polling → task.input = rows :: input →
      Stepped limit task limit { task with input, phase := .received rows }
  | exhausted {rows : List α} : task.phase = .received rows → limit = some 0 →
      Stepped limit task limit { task with phase := .leaving false }
  | filtered {rows : List α} {task' : Task α} : task.phase = .received rows →
      limit ≠ some 0 → task.filter limit.isSome rows = .ok task' →
      Stepped limit task limit task'
  | failed {rows : List α} {error : Error} : task.phase = .received rows →
      task.filter limit.isSome rows = .error error →
      Stepped limit task limit { task with phase := .finished .failed (.error error) }
  | loaded {rows : List α} {remaining : Option Nat} : task.phase = .claiming rows remaining →
      Stepped limit task limit { task with phase := .claiming rows limit }
  | denied {rows : List α} : task.phase = .claiming rows (some 0) →
      Stepped limit task limit { task with phase := .leaving false }
  | granted {rows : List α} {remaining : Nat} :
      task.phase = .claiming rows (some remaining) → remaining ≠ 0 → limit = some remaining →
      Stepped limit task (some (remaining - min remaining rows.length))
        (task.claimed rows (min remaining rows.length))
  | left {ended : Bool} : task.phase = .leaving ended →
      Stepped limit task limit (task.leave ended (DeleteAware.exhausted limit))
  | idle {stop : Stop} {result : Except Error Unit} : task.phase = .finished stop result →
      Stepped limit task limit task

theorem step_stepped (limit : Option Nat) (task : Task α) (spurious : Bool) :
    Stepped limit task (step limit task spurious).1 (step limit task spurious).2 := by
  unfold step
  split
  · rename_i hphase
    split
    · rename_i hinput
      exact .ended hphase hinput
    · rename_i hinput
      exact .received hphase hinput
  · rename_i rows hphase
    by_cases hzero : limit = some 0
    · rw [if_pos (by simp [exhausted, hzero])]
      exact .exhausted hphase hzero
    · rw [if_neg (by simp [exhausted, hzero])]
      split
      · rename_i hfilter
        exact .filtered hphase hzero hfilter
      · rename_i hfilter
        exact .failed hphase hfilter
  · rename_i hphase
    exact .loaded hphase
  · rename_i rows remaining hphase
    split_ifs with hzero hswap
    · subst hzero
      exact .denied hphase
    · exact .granted hphase hzero hswap.1
    · exact .loaded hphase
  · rename_i hphase
    exact .left hphase
  · rename_i hphase
    exact .idle hphase

section

variable (h : Stepped limit task limit' task')
include h

theorem Stepped.later : Later limit limit' := by
  cases h with
  | granted _ hne hlimit =>
    subst hlimit
    exact ⟨fun h => absurd (some.inj h) hne, rfl⟩
  | _ => exact .refl limit

/-- The rows that a step returns are taken from the counter. -/
theorem Stepped.conserved (hsome : limit.isSome = true) :
    limit'.getD 0 + task'.emitted.length = limit.getD 0 + task.emitted.length := by
  cases h with
  | filtered _ _ hfilter =>
    obtain ⟨phase, emitted, rfl, hcases⟩ := filter_eq_ok hfilter
    rcases hcases with ⟨-, -, rfl⟩ | ⟨-, -, -, rfl⟩ | ⟨hnone, -, -⟩
    · rfl
    · rfl
    · rw [hsome] at hnone
      cases hnone
  | @granted rows remaining _ _ hlimit =>
    subst hlimit
    rcases claimed_cases task (min_le_right remaining rows.length) with
      ⟨hzero, heq⟩ | ⟨-, heq⟩
    · rw [heq, hzero]
      rfl
    · rw [heq]
      simp only [emit, length_append, length_take, getD_some]
      omega
  | _ => rfl

/-- A step keeps the invariant of its task. -/
theorem Stepped.inv (hinv : Inv batches vector limit task) : Inv batches vector limit' task' := by
  obtain ⟨hvector, hphase⟩ := hinv
  cases h with
  | ended hcase hinput =>
    rw [hcase] at hphase
    rw [hinput] at hphase
    exact ⟨hvector, hinput, [], fun _ => rfl, hphase⟩
  | received hcase hinput =>
    rw [hcase] at hphase
    rw [hinput] at hphase
    exact ⟨hvector, hphase⟩
  | exhausted hcase hzero =>
    rw [hcase] at hphase
    exact ⟨hvector, hzero, _, fun h => Bool.noConfusion h, hphase⟩
  | @filtered rows task' hcase hzero hfilter =>
    rw [hcase] at hphase
    obtain ⟨seen, hbatches, hoffset, hshown⟩ := hphase
    obtain ⟨phase, emitted, rfl, hcases⟩ := filter_eq_ok hfilter
    have hflatten : (seen ++ [rows]).flatten = seen.flatten ++ rows := by simp
    have hlength : task.physicalOffset + rows.length = (seen ++ [rows]).flatten.length := by
      rw [hflatten, length_append, hoffset]
    have hread : batches = (seen ++ [rows]) ++ task.input := by simp [hbatches]
    have hnext := hshown.append rows
    rw [hvector, hoffset] at hcases
    rw [← hflatten] at hnext
    rcases hcases with ⟨hnone, rfl, rfl⟩ | ⟨hlimited, hsome, rfl, rfl⟩ | ⟨-, rfl, rfl⟩
    · rw [hnone] at hnext
      exact ⟨hvector, seen ++ [rows], hread, hlength, hnext⟩
    · exact ⟨hvector, hlimited, hsome, nofun, seen ++ [rows], hread, hlength, hnext⟩
    · refine ⟨hvector, seen ++ [rows], hread, hlength, ?_⟩
      rcases hnext with heq | ⟨hlimit, -⟩
      · left
        rw [append_nil]
        exact heq
      · exact absurd hlimit hzero
  | failed hcase hfilter =>
    exact ⟨hvector, _, rfl, filter_error hfilter⟩
  | @loaded rows remaining hcase =>
    rw [hcase] at hphase
    obtain ⟨hsome, hrows, -, hreads⟩ := hphase
    exact ⟨hvector, hsome, hrows, id, hreads⟩
  | denied hcase =>
    rw [hcase] at hphase
    obtain ⟨-, -, hzero, seen, hbatches, hoffset, hshown⟩ := hphase
    refine ⟨hvector, hzero rfl, _, fun h => Bool.noConfusion h, seen, hbatches, hoffset, ?_⟩
    exact .inr ⟨hzero rfl, hshown.isPrefix⟩
  | @granted rows remaining hcase hne hlimit =>
    rw [hcase] at hphase
    obtain ⟨-, hrows, -, seen, hbatches, hoffset, hshown⟩ := hphase
    have hpos : 0 < rows.length := length_pos_iff.mpr hrows
    rcases claimed_cases task (min_le_right remaining rows.length) with
      ⟨hzero, -⟩ | ⟨-, heq⟩
    · omega
    · rw [heq]
      refine ⟨hvector, seen, hbatches, hoffset, ?_⟩
      -- Either all rows are granted or the counter is at zero.
      rcases hshown with hall | ⟨hlimit', -⟩
      · by_cases hle : rows.length ≤ remaining
        · left
          show task.emitted ++ rows.take _ ++ [] = _
          rw [min_eq_right hle, take_length, append_nil, hall]
        · right
          refine ⟨by rw [Nat.min_eq_left (by omega), Nat.sub_self], ?_⟩
          show task.emitted ++ rows.take _ <+: _
          rw [← hall]
          exact (prefix_append_right_inj _).mpr ( take_prefix _ _)
      · rw [hlimit] at hlimit'
        exact absurd (some.inj hlimit') hne
  | @left ended hcase =>
    rw [hcase] at hphase
    obtain ⟨hwhy, ahead, hahead, seen, hbatches, hoffset, hshown⟩ := hphase
    refine ⟨hvector, ?_⟩
    cases ended with
    | true =>
      obtain rfl := hahead rfl
      rw [append_nil] at hbatches
      subst hbatches
      refine ⟨hwhy, fun h => of_decide_eq_true h, hshown, ?_⟩
      show check _ _ _ = _
      rw [hvector, hoffset]
    | false =>
      have hzero : limit = some 0 := hwhy
      subst hzero
      refine ⟨rfl, ?_, ?_⟩
      · have hle := hshown.isPrefix
        have happend := visible_append vector 0 seen.flatten ahead.flatten
        rw [hbatches, flatten_append, happend]
        exact hle.trans (prefix_append _ _)
      · show check task.vector _ true = _
        unfold check
        split <;> simp
  | idle hcase => exact ⟨hvector, hphase⟩

end

end Task

/-! ## All tasks -/

namespace Task

/-- The task has returned, with or without an error. -/
def Finished (task : Task α) : Prop := ∃ stop result, task.phase = .finished stop result

/-- The steps that a task still has to take at most, when no other task disturbs it. -/
def rank (task : Task α) : Nat :=
  match task.phase with
  | .polling => 4 * task.input.length + 2
  | .received _ => 4 * task.input.length + 5
  | .claiming _ none => 4 * task.input.length + 4
  | .claiming _ (some _) => 4 * task.input.length + 3
  | .leaving _ => 1
  | .finished _ _ => 0

variable {task : Task α} {rows : List α} {remaining : Nat}

theorem rank_claimed_lt {granted : Nat} (hphase : task.phase = .claiming rows (some remaining))
    (hle : granted ≤ rows.length) : (task.claimed rows granted).rank < task.rank := by
  rcases claimed_cases task hle with ⟨-, heq⟩ | ⟨-, heq⟩
  · rw [heq]
    simp only [rank, hphase]
    omega
  · rw [heq]
    simp only [rank, hphase, emit]
    omega

/-- A task that has read the current value of the counter leaves `claim`. -/
theorem rank_step_current (hphase : task.phase = .claiming rows (some remaining)) :
    (step (some remaining) task false).2.rank < task.rank := by
  unfold step
  rw [hphase]
  simp only
  by_cases hzero : remaining = 0
  · rw [if_pos hzero]
    exact rank_claimed_lt hphase (Nat.zero_le _)
  · rw [if_neg hzero, if_pos (by simp)]
    exact rank_claimed_lt hphase (min_le_right _ _)

variable {batches : List (List α)}

/-- A step lowers the rank, unless it reads the counter again. -/
theorem Stepped.rank_lt {limit' : Option Nat} {task' : Task α} (h : Stepped limit task limit' task')
    (hinv : Inv batches vector limit task) (hopen : ¬ task.Finished) :
    task'.rank < task.rank ∨ ∃ rows remaining current,
      task.phase = .claiming rows (some remaining) ∧ limit = some current ∧
        limit' = limit ∧ task' = { task with phase := .claiming rows limit } := by
  cases h with
  | ended hcase | exhausted hcase | failed hcase | denied hcase | left hcase =>
    left
    simp only [rank, hcase, leave]
    omega
  | received hcase hinput =>
    left
    simp only [rank, hcase, hinput, length_cons]
    omega
  | filtered hcase _ hfilter =>
    left
    obtain ⟨phase, emitted, rfl, hcases⟩ := filter_eq_ok hfilter
    rcases hcases with ⟨-, rfl, -⟩ | ⟨-, -, rfl, -⟩ | ⟨-, rfl, -⟩ <;>
      simp only [rank, hcase] <;> omega
  | @loaded rows remaining hcase =>
    have hphase := hinv.2
    rw [hcase] at hphase
    obtain ⟨current, rfl⟩ := isSome_iff_exists.mp hphase.1
    cases remaining with
    | none =>
      left
      simp only [rank, hcase]
      omega
    | some remaining => exact .inr ⟨rows, remaining, current, hcase, rfl, rfl, rfl⟩
  | granted hcase => exact .inl (rank_claimed_lt hcase (min_le_right _ _))
  | idle hcase => exact absurd ⟨_, _, hcase⟩ hopen

/-- A task that has not returned can go on. -/
theorem exists_solo_rank_lt (hinv : Inv batches vector limit task) (hopen : ¬ task.Finished) :
    ∃ events, (solo step limit task events).2.rank < task.rank := by
  rcases (step_stepped limit task false).rank_lt hinv hopen with
    hlt | ⟨rows, remaining, current, hphase, rfl, hlimit, hload⟩
  · exact ⟨[false], hlt⟩
  · -- The exchange failed once and succeeds on the value it has read.
    refine ⟨[false, false], ?_⟩
    show (step (step (some current) task false).1 (step (some current) task false).2
      false).2.rank < task.rank
    rw [hlimit, hload]
    refine lt_of_lt_of_le (rank_step_current rfl) ?_
    simp only [rank, hphase]
    exact le_refl _

end Task

/-- Every task has returned without an error. -/
def Completed (state : Threads (Option Nat) (Task α)) : Prop :=
  ∀ task ∈ state.threads, ∃ stop, task.phase = .finished stop (.ok ())

/-- The rows that the tasks have returned. -/
def output (state : Threads (Option Nat) (Task α)) : List α :=
  state.threads.flatMap Task.emitted

/-- The rows that a task is to return. -/
def Task.visible (task : Task α) : List α :=
  DeleteAware.visible task.vector 0 task.input.flatten

variable {segments : List (Segment α)} {tasks : List (Task α)}

theorem scanTasks_eq_ok (h : scanTasks segments = .ok tasks) :
    (∀ task ∈ tasks, task = Task.new task.input task.vector) ∧
      tasks.flatMap Task.visible = segments.flatMap Segment.visible := by
  induction segments generalizing tasks with
  | nil =>
    cases h
    exact ⟨nofun, rfl⟩
  | cons segment segments ih =>
    unfold scanTasks at h
    split at h
    · rename_i hnone
      obtain ⟨hnew, heq⟩ := ih h
      refine ⟨hnew, ?_⟩
      rw [heq, flatMap_cons, Segment.visible, hnone]
      rfl
    · rename_i batches hone
      obtain ⟨rest, hrest, hcons⟩ := bind_eq_ok.mp h
      cases hcons
      obtain ⟨hnew, heq⟩ := ih hrest
      refine ⟨forall_mem_cons.mpr ⟨rfl, hnew⟩, ?_⟩
      rw [flatMap_cons, flatMap_cons, heq, Segment.visible, hone]
      simp [Task.visible, Task.new]
    · cases h

section

variable {tasks : List (Task α)} {limit : Option Nat} {schedule : List (Nat × Bool)}

/-- The invariant of the task that started as the task `i` of the scan. -/
def ScanInv (tasks : List (Task α)) (i : Nat) (limit : Option Nat) (task : Task α) : Prop :=
  ∃ start, tasks[i]? = some start ∧ task.Inv start.input start.vector limit

/-- A turn of a task keeps the invariants of all tasks. -/
theorem scanInv_turn (tasks : List (Task α)) (state : Threads (Option Nat) (Task α))
    (event : Nat × Bool) (h : AllThreads (ScanInv tasks) state) :
    AllThreads (ScanInv tasks) (turn Task.step state event) := by
  refine h.turn ?_ ?_ event
  · intro i limit task spurious ⟨start, hstart, hinv⟩
    exact ⟨start, hstart, (Task.step_stepped limit task spurious).inv hinv⟩
  · intro i j limit task other spurious _ ⟨start, hstart, hinv⟩ _
    exact ⟨start, hstart, hinv.later (Task.step_stepped limit other spurious).later⟩

theorem scanInv_run (hnew : ∀ task ∈ tasks, task = Task.new task.input task.vector) :
    AllThreads (ScanInv tasks) (scan limit tasks schedule) := by
  refine runFrom_invariant ?_ (scanInv_turn tasks)
  intro i task htask
  refine ⟨task, htask, ?_⟩
  have heq := hnew task (mem_of_getElem? htask)
  show Task.Inv task.input task.vector limit task
  nth_rewrite 3 [heq]
  refine ⟨rfl, [], rfl, rfl, .inl ?_⟩
  simp [Task.new, visible]

/-- A scan without a limit stays without one. -/
theorem scan_isSome (limit : Option Nat) (tasks : List (Task α))
    (schedule : List (Nat × Bool)) :
    (scan limit tasks schedule).shared.isSome = limit.isSome := by
  refine shared_run (P := fun current : Option Nat => current.isSome = limit.isSome) rfl ?_ schedule
  intro current task spurious h
  rw [(Task.step_stepped current task spurious).later.isSome, h]

/-- What a task that has returned without an error has shown. -/
theorem Task.Inv.shown {batches : List (List α)}
    {task : Task α} (hinv : task.Inv batches vector limit) {stop : Stop}
    (hphase : task.phase = .finished stop (.ok ())) :
    Shown limit vector batches.flatten task.emitted [] := by
  have hends := hinv.2
  rw [hphase] at hends
  cases stop with
  | ended exhausted => exact hends.2.2.1
  | limit => exact .inr ⟨hends.1, hends.2.1⟩
  | failed =>
    obtain ⟨error, herror, -⟩ := hends
    cases herror

theorem completed_shown (hnew : ∀ task ∈ tasks, task = Task.new task.input task.vector)
    (hcompleted : Completed (scan limit tasks schedule)) :
    Forall₂ (fun start task : Task α =>
        Shown (scan limit tasks schedule).shared start.vector start.input.flatten task.emitted [])
      tasks (scan limit tasks schedule).threads := by
  have hlength : (scan limit tasks schedule).threads.length = tasks.length :=
    length_threads_run schedule
  refine forall₂_iff_get.mpr ⟨hlength.symm, fun i hi hi' => ?_⟩
  have hget : (scan limit tasks schedule).threads[i]? =
      some ((scan limit tasks schedule).threads.get ⟨i, hi'⟩) := getElem?_eq_getElem hi'
  obtain ⟨start, hstart, hinv⟩ := scanInv_run hnew i _ hget
  obtain ⟨stop, hphase⟩ := hcompleted _ (get_mem _ ⟨i, hi'⟩)
  have heq : tasks.get ⟨i, hi⟩ = start :=
    some.inj ((getElem?_eq_getElem hi).symm.trans hstart)
  rw [heq]
  exact hinv.shown hphase

variable {threads : List (Task α)}

/-- While the limit is not exhausted every visible row is returned. -/
theorem emitted_eq_of_shown (hopen : limit ≠ some 0) (h : Forall₂ (fun start task : Task α =>
      Shown limit start.vector start.input.flatten task.emitted []) tasks threads) :
    threads.flatMap Task.emitted = tasks.flatMap Task.visible := by
  induction h with
  | nil => rfl
  | cons hhead _ ih =>
    rcases hhead with heq | ⟨hzero, -⟩
    · rw [append_nil] at heq
      rw [flatMap_cons, flatMap_cons, ih, heq]
      rfl
    · exact absurd hzero hopen

/-- Only visible rows are returned, each at most once. -/
theorem emitted_sublist_of_shown (h : Forall₂ (fun start task : Task α =>
      Shown limit start.vector start.input.flatten task.emitted []) tasks threads) :
    (threads.flatMap Task.emitted).Sublist (tasks.flatMap Task.visible) := by
  induction h with
  | nil => exact Sublist.refl _
  | cons hhead _ ih =>
    rw [flatMap_cons, flatMap_cons]
    exact hhead.isPrefix.sublist.append ih

/-- The returned rows and what is left of the limit are the limit. -/
theorem output_add_remaining (hnew : ∀ task ∈ tasks, task = Task.new task.input task.vector)
    (n : Nat) (schedule : List (Nat × Bool)) :
    (scan (some n) tasks schedule).shared.getD 0 +
      (output (scan (some n) tasks schedule)).length = n := by
  have hsum : (scan (some n) tasks schedule).shared.getD 0 +
      ((scan (some n) tasks schedule).threads.map fun task => task.emitted.length).sum =
        n + (tasks.map fun task => task.emitted.length).sum := by
    refine sum_run (P := fun limit : Option Nat => limit.isSome = true)
      (f := fun limit : Option Nat => limit.getD 0) rfl ?_ ?_ schedule
    · intro limit task spurious hsome
      rw [(Task.step_stepped limit task spurious).later.isSome, hsome]
    · intro limit task spurious hsome
      exact (Task.step_stepped limit task spurious).conserved hsome
  have hstart : (tasks.map fun task => task.emitted.length).sum = 0 := by
    apply sum_map_eq_zero
    intro task htask
    rw [hnew task htask]
    rfl
  rw [output, length_flatMap]
  omega

end

/-! ## The scan of a table -/

/-- A segment of three rows, the second of them deleted, and one without a delete vector. -/
def twoSegments : List (Segment Nat) :=
  [{ tasks := [[[10, 20], [30]]]
     deleteVector := some { rowCount := 3, deletedRows := 1, bits := [2], bits_length := rfl } },
   { tasks := [[[40]]], deleteVector := none }]

/-- The tasks of `twoSegments`. -/
def twoTasks : List (Task Nat) :=
  twoSegments.flatMap fun segment => segment.tasks.map (Task.new · segment.deleteVector)

/-- The second task reads its segment before the first one does. -/
def twoTasksInTurn : List (Nat × Bool) :=
  replicate 6 (1, false) ++ replicate 12 (0, true) ++ replicate 12 (0, false)

/-- A segment of one row under a delete vector of two. -/
def shortSegment : Segment Nat where
  tasks := [[[10]]]
  deleteVector := some { rowCount := 2, deletedRows := 0, bits := [0], bits_length := rfl }

end RustDb.Datasource.DeleteAware
