import RustDb.Runtime.MemoryAccounting

/-!
# Waiting for memory

When no pool but the root can refuse an acquisition, a failed acquisition has nothing to roll
back, so only releases lower the counter of the root, and each of them is about to notify all
waiters.

* `Thread.Calls`: what a call can do to the shared state, and the threads it can start.
* `Thread.Effect`: what every step leaves to the other threads.
* `Prompt`: while a waiter's request fits the root, some thread is about to notify.
-/

namespace RustDb.Runtime.Memory

open RustDb.Lib List Thread Pools
open RustDb.Execution (Error)

variable {tree : Tree}

/-! ## Calls -/

/-- Every reservation belongs to a pool of the tree. -/
def Pools.InRange (tree : Tree) (s : Pools) : Prop :=
  ∀ reservation ∈ s.live, reservation.pool < tree.size

variable {pool : Nat}

theorem forall_mem_some {bytes : Nat} (h : pool < tree.size) :
    ∀ kept ∈ some (Reservation.mk pool bytes), kept.pool < tree.size := by
  intro kept hkept
  rw [← Option.mem_some.mp hkept]
  exact h

variable {s : Pools}

theorem Pools.InRange.take (h : s.InRange tree) (index : Nat) : (s.take index).InRange tree :=
  fun reservation hmem => h reservation (mem_of_mem_eraseIdx hmem)

theorem Pools.InRange.putBack (h : s.InRange tree) {keep : Option Reservation}
    (hkeep : ∀ reservation ∈ keep, reservation.pool < tree.size) :
    (s.putBack keep).InRange tree := by
  intro reservation hmem
  rcases mem_append.mp hmem with hmem | hmem
  · exact hkeep reservation (Option.mem_toList.mp hmem)
  · exact h reservation hmem

namespace Thread

/-- The reservation and the pool of a thread are of the tree. -/
def InRange (tree : Tree) : Thread → Prop
  | .acquiring _ request _ _ _ | .rollback _ request _ _ | .looping request
  | .polling request _ | .parked request _ => request.pool < tree.size
  | .releasing keep _ _ _ | .notifying keep _ =>
    ∀ reservation ∈ keep, reservation.pool < tree.size
  | .idle _ => True

/-- The threads that a call can start. -/
inductive Started (tree : Tree) : Thread → Prop
  | idle (result : Except Error Unit) : Started tree (.idle result)
  | acquiring (purpose : Purpose) (request : Request) (h : ∀ calls, purpose ≠ .wait calls) :
      Started tree
        (.acquiring purpose request [] (tree.ancestorsRootFirst request.pool) none)
  | releasing (keep : Option Reservation) (bytes : Nat) (result : Except Error Unit)
      (pool : Nat) :
      Started tree (.releasing keep bytes result (tree.ancestorsRootFirst pool).reverse)
  | looping (request : Request) (hordinary : request.emergency = false) :
      Started tree (.looping request)

/-- What a call can do. -/
structure Calls (tree : Tree) (s : Pools) (result : Pools × Thread) : Prop where
  frame : ∃ live, result.1 = { s with live }
  range : result.1.InRange tree ∧ result.2.InRange tree
  start : Started tree result.2

variable {s : Pools} {keep : Option Reservation} {request : Request} {result : Except Error Unit}

theorem Calls.idle (hrange : s.InRange tree) (result : Except Error Unit) :
    Calls tree s (s, .idle result) :=
  ⟨⟨s.live, rfl⟩, ⟨hrange, trivial⟩, .idle result⟩

theorem Calls.putBack (hrange : s.InRange tree)
    (hkeep : ∀ reservation ∈ keep, reservation.pool < tree.size)
    (result : Except Error Unit) : Calls tree s (s.putBack keep, .idle result) :=
  ⟨⟨_, rfl⟩, ⟨hrange.putBack hkeep, trivial⟩, .idle result⟩

/-- A call that starts with another list of reservations. -/
theorem Calls.of_live {live : List Reservation} {result : Pools × Thread}
    (h : Calls tree { s with live } result) : Calls tree s result := by
  obtain ⟨live', hlive⟩ := h.frame
  exact ⟨⟨live', hlive⟩, h.range, h.start⟩

variable {purpose : Purpose}

theorem acquire_calls (hrange : s.InRange tree) (hpool : request.pool < tree.size)
    (hpurpose : ∀ calls, purpose ≠ .wait calls) : Calls tree s (acquire tree s purpose request) :=
  ⟨⟨s.live, rfl⟩, ⟨hrange, hpool⟩, .acquiring purpose request hpurpose⟩

variable {pool bytes : Nat}

theorem release_calls (hrange : s.InRange tree)
    (hkeep : ∀ reservation ∈ keep, reservation.pool < tree.size) :
    Calls tree s (release tree s pool keep bytes result) := by
  unfold release
  split_ifs with hzero
  · exact .putBack hrange hkeep result
  · exact ⟨⟨s.live, rfl⟩, ⟨hrange, hkeep⟩, .releasing keep bytes result pool⟩

section

variable {s : Pools} {index : Nat} {reservation : Reservation}

section

variable (hrange : s.InRange tree)
include hrange

theorem tryGrow_calls (hpool : reservation.pool < tree.size) (bytes : Nat) :
    Calls tree s (tryGrow tree s index reservation bytes) := by
  unfold tryGrow
  split_ifs with hzero
  · exact .idle hrange _
  · apply Calls.of_live
    exact acquire_calls (hrange.take index) hpool fun _ => Purpose.noConfusion

theorem dropReservation_calls (result : Except Error Unit) :
    Calls tree s (dropReservation tree s index reservation result) := by
  apply Calls.of_live
  apply release_calls (hrange.take index)
  intro kept hkept
  cases hkept

theorem splitOff_calls (hpool : reservation.pool < tree.size) (bytes : Nat) :
    Calls tree s (splitOff s index reservation bytes) := by
  unfold splitOff
  split_ifs with hlt
  · exact .idle hrange _
  · apply Calls.of_live
    have hpart : ∀ kept ∈ some { reservation with bytes }, kept.pool < tree.size :=
      forall_mem_some hpool
    have hsplit := (hrange.take index).putBack hpart
    exact .putBack hsplit (forall_mem_some hpool) _

theorem absorb_calls {other : Reservation} (hpool : reservation.pool < tree.size) :
    Calls tree s (absorb tree s index reservation other) := by
  have hdrop (error : Error) : Calls tree s
      (dropReservation tree (s.putBack (some reservation)) (index + 1) other (.error error)) := by
    apply Calls.of_live
    exact dropReservation_calls (hrange.putBack (forall_mem_some hpool)) _
  unfold absorb
  split_ifs with hdiffer hlarge
  · exact hdrop _
  · exact hdrop _
  · apply Calls.of_live
    exact .putBack (hrange.take index) (forall_mem_some hpool) _

theorem reserveWait_calls (hpool : request.pool < tree.size)
    (hordinary : request.emergency = false) (heldBytes : Nat) :
    Calls tree s (reserveWait tree s request heldBytes) := by
  unfold reserveWait
  simp only
  split
  · exact .idle hrange _
  · exact ⟨⟨s.live, rfl⟩, ⟨hrange, hpool⟩, .looping request hordinary⟩

theorem call_calls (last : Except Error Unit) {choice : Choice}
    (hstatic : ∀ pool bytes, choice ≠ .protect pool bytes) :
    Calls tree s (call tree s last choice) := by
  have hlive {index : Nat} {reservation : Reservation}
      (h : s.live[index]? = some reservation) : reservation.pool < tree.size :=
    hrange reservation (mem_of_getElem? h)
  refine call_cases (P := Calls tree s) s last choice (.idle hrange) (fun request hpool => ?_)
    (fun _ _ bytes h => tryGrow_calls hrange (hlive h) bytes)
    (fun index _ _ h => .of_live (release_calls (hrange.take index) (forall_mem_some (hlive h))))
    (fun _ _ bytes h => splitOff_calls hrange (hlive h) bytes)
    (fun index _ _ _ h _ => .of_live (absorb_calls (hrange.take index) (hlive h)))
    (fun _ _ _ => dropReservation_calls hrange _)
    (fun _ _ heldBytes hpool => reserveWait_calls hrange hpool rfl heldBytes)
    fun pool bytes hprotect => absurd hprotect (hstatic pool bytes)
  split
  · exact .putBack hrange (forall_mem_some hpool) _
  · exact acquire_calls hrange hpool fun _ => Purpose.noConfusion

end

end

/-! ## Steps -/

/-- What every step leaves to the other threads. -/
structure Effect (s s' : Pools) : Prop where
  headroom : s'.emergencyHeadroom = s.emergencyHeadroom
  calls : s.notifyWaitersCalls ≤ s'.notifyWaitersCalls
  waiters : s.nextWaiter ≤ s'.nextWaiter
  waiting : ∀ waiter, waiter < s.nextWaiter → waiter ∈ s'.waiting → waiter ∈ s.waiting

variable {s' : Pools}

theorem Effect.of_eq (hheadroom : s'.emergencyHeadroom = s.emergencyHeadroom)
    (hcalls : s'.notifyWaitersCalls = s.notifyWaitersCalls)
    (hwaiters : s'.nextWaiter = s.nextWaiter)
    (hwaiting : ∀ waiter ∈ s'.waiting, waiter ∈ s.waiting) : Effect s s' :=
  ⟨hheadroom, hcalls.ge, hwaiters.ge, fun waiter _ => hwaiting waiter⟩

theorem Effect.refl (s : Pools) : Effect s s := .of_eq rfl rfl rfl fun _ => id

/-- The thread has given back at the root and notifies all waiters next. -/
def AboutToNotify : Thread → Prop
  | .releasing _ _ _ [] => True
  | _ => False

/-- The thread waits for the next call of `notify_waiters`, with a request for `bytes`. -/
def Waits (s : Pools) (bytes : Nat) : Thread → Prop
  | .rollback (.wait calls) request _ _ | .polling request calls =>
    calls = s.notifyWaitersCalls ∧ request.bytes = bytes
  | .parked request waiter => waiter ∈ s.waiting ∧ request.bytes = bytes
  | _ => False

/-- An attempt of a waiting call is an ordinary one, and its notification is of this
notifier. -/
def Purpose.Sane (s : Pools) (request : Request) : Purpose → Prop
  | .wait calls => request.emergency = false ∧ calls ≤ s.notifyWaitersCalls
  | _ => True

/-- What a thread has read is still so, and it has nothing to roll back. -/
def Sane (s : Pools) : Thread → Prop
  | .acquiring purpose request _ (node :: _) (some headroom) =>
    Purpose.Sane s request purpose ∧
      headroom = if request.emergency then 0 else s.emergencyHeadroom node
  | .acquiring purpose request _ _ _ => Purpose.Sane s request purpose
  | .rollback purpose request _ todo => Purpose.Sane s request purpose ∧ todo = []
  | .looping request => request.emergency = false
  | .polling request calls => request.emergency = false ∧ calls ≤ s.notifyWaitersCalls
  | .parked request waiter => request.emergency = false ∧ waiter < s.nextWaiter
  | _ => True

/-- What a step does, where pools below the root have room. -/
structure Steps (tree : Tree) (s : Pools) (thread : Thread) (result : Pools × Thread) :
    Prop where
  effect : Effect s result.1
  range : result.1.InRange tree ∧ result.2.InRange tree
  sane : result.2.Sane result.1
  root : s.used 0 ≤ result.1.used 0 ∨ result.2.AboutToNotify
  calls : ¬ thread.AboutToNotify → result.1.notifyWaitersCalls = s.notifyWaitersCalls
  waits : ∀ bytes, result.2.Waits result.1 bytes →
    bytes ≤ s.allocatableLimit tree 0 - result.1.used 0 →
    thread.Waits s bytes ∧ bytes ≤ s.allocatableLimit tree 0 - s.used 0

variable {thread : Thread}

/-- A step that leaves the counters as they are, to a thread that does not wait. -/
theorem Steps.quiet {next : Thread} (heffect : Effect s s') (hrange : s'.InRange tree)
    (hnext : next.InRange tree) (hsane : next.Sane s') (hused : s'.used = s.used)
    (hcalls : s'.notifyWaitersCalls = s.notifyWaitersCalls)
    (hwaits : ∀ bytes, ¬ next.Waits s' bytes) : Steps tree s thread (s', next) :=
  ⟨heffect, ⟨hrange, hnext⟩, hsane, .inl (le_of_eq (by rw [hused])), fun _ => hcalls,
    fun bytes h => absurd h (hwaits bytes)⟩

theorem Steps.idle (heffect : Effect s s') (hrange : s'.InRange tree) (hused : s'.used = s.used)
    (hcalls : s'.notifyWaitersCalls = s.notifyWaitersCalls) :
    Steps tree s thread (s', .idle result) :=
  .quiet heffect hrange trivial trivial hused hcalls fun _ => id

theorem Purpose.Sane.of_effect (h : Purpose.Sane s request purpose) (heffect : Effect s s') :
    Purpose.Sane s' request purpose := by
  cases purpose with
  | wait calls => exact ⟨h.1, le_trans h.2 heffect.calls⟩
  | _ => trivial

/-- The steps of others leave a thread sane. -/
theorem Sane.of_effect (h : thread.Sane s) (heffect : Effect s s') : thread.Sane s' := by
  cases thread with
  | acquiring purpose request done todo headroom =>
    cases todo with
    | nil => exact Purpose.Sane.of_effect h heffect
    | cons node todo =>
      cases headroom with
      | none => exact Purpose.Sane.of_effect h heffect
      | some headroom =>
        exact ⟨Purpose.Sane.of_effect h.1 heffect, by rw [heffect.headroom]; exact h.2⟩
  | rollback purpose request error todo => exact ⟨Purpose.Sane.of_effect h.1 heffect, h.2⟩
  | polling request calls => exact ⟨h.1, le_trans h.2 heffect.calls⟩
  | parked request waiter => exact ⟨h.1, lt_of_lt_of_le h.2 heffect.waiters⟩
  | looping request => exact h
  | _ => trivial

/-- A call starts no waiter and notifies nobody. -/
theorem Calls.steps {last : Except Error Unit} {result : Pools × Thread}
    (h : Calls tree s result) : Steps tree s (.idle last) result := by
  obtain ⟨live, hlive⟩ := h.frame
  have hwaits : ∀ bytes, ¬ result.2.Waits result.1 bytes := by
    intro bytes hwaits
    have hstart := h.start
    generalize result.2 = thread at hstart hwaits
    cases hstart <;> exact hwaits
  have hsane : result.2.Sane result.1 := by
    have hstart := h.start
    generalize result.2 = thread at hstart
    cases hstart with
    | idle result => trivial
    | acquiring purpose request hpurpose =>
      obtain ⟨rest, hrest⟩ := tree.exists_ancestors_eq request.pool
      rw [hrest]
      cases purpose with
      | wait calls => exact absurd rfl (hpurpose calls)
      | _ => trivial
    | releasing keep bytes result pool => trivial
    | looping request hordinary => exact hordinary
  refine ⟨?_, h.range, hsane, .inl ?_, fun _ => ?_, fun bytes hbytes => ?_⟩
  · rw [hlive]
    exact .of_eq rfl rfl rfl fun _ => id
  · rw [hlive]
  · rw [hlive]
  · exact absurd hbytes (hwaits bytes)

/-- The root is the first node of every way down. -/
theorem done_eq_nil {done todo : List Nat} (h : done ++ 0 :: todo = tree.ancestorsRootFirst pool) :
    done = [] := by
  obtain ⟨rest, hrest⟩ := tree.exists_ancestors_eq pool
  have hnodup := tree.nodup_ancestors pool
  rw [← h] at hnodup hrest
  cases done with
  | nil => rfl
  | cons node done =>
    have hzero : node = 0 := (cons.inj hrest).1
    rw [hzero, cons_append, nodup_cons] at hnodup
    exact absurd (by simp) hnodup.1

/-- The root is the last node to be given back. -/
theorem todo_eq_nil {todo rest : List Nat}
    (h : (0 :: todo).reverse ++ rest = tree.ancestorsRootFirst pool) : todo = [] := by
  rw [reverse_cons, append_assoc, singleton_append] at h
  exact reverse_eq_nil_iff.mp (done_eq_nil h)

section

variable (hrange : s.InRange tree)
include hrange

theorem acquireNode_steps {done todo : List Nat} {node headroom : Nat}
    (hthread : (acquiring purpose request done (node :: todo) (some headroom)).InRange tree)
    (hshape : (acquiring purpose request done (node :: todo) (some headroom)).Shape tree)
    (hsane : (acquiring purpose request done (node :: todo) (some headroom)).Sane s)
    (hroom : node ≠ 0 → request.bytes ≤ tree.limit node - headroom - s.used node) :
    Steps tree s (.acquiring purpose request done (node :: todo) (some headroom))
      (acquireNode tree s purpose request done node todo headroom) := by
  obtain ⟨hpurpose, hheadroom⟩ := hsane
  unfold acquireNode
  by_cases hfits : request.bytes ≤ tree.limit node - headroom - s.used node
  · simp only [if_pos hfits]
    have heffect : Effect s (s.setUsed node (s.used node + request.bytes)) :=
      .of_eq rfl rfl rfl fun _ => id
    refine ⟨heffect, ⟨hrange, hthread⟩, ?_, .inl ?_, fun _ => rfl, fun bytes hbytes => ?_⟩
    · cases todo with
      | nil | cons next todo => exact Purpose.Sane.of_effect hpurpose heffect
    · simp only [setUsed]
      split
      · rename_i hnode
        rw [hnode]
        omega
      · exact le_refl _
    · exact hbytes.elim
  · simp only [if_neg hfits]
    have hnode : node = 0 := by
      by_contra hne
      exact hfits (hroom hne)
    have hdone : done = [] := by
      rw [hnode] at hshape
      exact done_eq_nil hshape.1
    refine ⟨.refl s, ⟨hrange, hthread⟩, ⟨hpurpose, by simp [hdone]⟩, .inl (le_refl _),
      fun _ => rfl, fun bytes hwaits hbytes => ?_⟩
    -- the refused attempt of a waiting call was made with the headroom of the root
    cases purpose with
    | wait calls =>
      rw [hnode, if_neg (by simp [hpurpose.1])] at hheadroom
      rw [hnode, hheadroom, hwaits.2] at hfits
      exact absurd hbytes hfits
    | _ => exact hwaits.elim

theorem acquired_steps {done : List Nat} {headroom : Option Nat}
    (hthread : (acquiring purpose request done [] headroom).InRange tree)
    (hshape : (acquiring purpose request done [] headroom).Shape tree) :
    Steps tree s (.acquiring purpose request done [] headroom)
      (acquired s purpose request) := by
  have hput (reservation : Reservation) (hpool : reservation.pool < tree.size) :
      Steps tree s (.acquiring purpose request done [] headroom)
        (s.putBack (some reservation), .idle (.ok ())) := by
    exact .idle (.of_eq rfl rfl rfl fun _ => id) (hrange.putBack (forall_mem_some hpool)) rfl rfl
  cases purpose with
  | grow reservation =>
    have hpool : reservation.pool = request.pool := hshape.2.1
    exact hput _ (hpool ▸ hthread)
  | _ => exact hput _ hthread

theorem refused_steps {error : Error} (hthread : (rollback purpose request error []).InRange tree)
    (hshape : (rollback purpose request error []).Shape tree)
    (hsane : (rollback purpose request error []).Sane s) :
    Steps tree s (.rollback purpose request error []) (refused s purpose request error) := by
  cases purpose with
  | reserve => exact .idle (.refl s) hrange rfl rfl
  | grow reservation =>
    have hpool : reservation.pool = request.pool := hshape.2.1
    exact .idle (.of_eq rfl rfl rfl fun _ => id)
      (hrange.putBack (forall_mem_some (hpool ▸ hthread))) rfl rfl
  | wait calls =>
    exact ⟨.refl s, ⟨hrange, hthread⟩, hsane.1, .inl (le_refl _), fun _ => rfl,
      fun _ hwaits hbytes => ⟨hwaits, hbytes⟩⟩

theorem releasing_steps {node : Nat} {todo : List Nat}
    (hthread : (releasing keep bytes result (node :: todo)).InRange tree)
    (hshape : (releasing keep bytes result (node :: todo)).Shape tree) :
    Steps tree s (.releasing keep bytes result (node :: todo))
      (s.releaseNode node bytes, .releasing keep bytes result todo) := by
  have hframe : ∃ used, s.releaseNode node bytes = { s with used } := by
    unfold releaseNode
    split
    · exact ⟨_, rfl⟩
    · exact ⟨s.used, rfl⟩
  obtain ⟨used, hused⟩ := hframe
  refine ⟨?_, ⟨?_, hthread⟩, ?_, ?_, fun _ => ?_, fun _ hwaits => hwaits.elim⟩
  · rw [hused]
    exact .of_eq rfl rfl rfl fun _ => id
  · rw [hused]
    exact hrange
  · trivial
  · by_cases hnode : node = 0
    · obtain ⟨pool, rest, hrest⟩ := hshape
      rw [hnode] at hrest
      rw [todo_eq_nil hrest]
      exact .inr trivial
    · refine .inl (le_of_eq ?_)
      simp only [releaseNode]
      split
      · simp only [setUsed, if_neg (Ne.symm hnode)]
      · rfl
  · rw [hused]

end

theorem frame_notifyOne (s : Pools) :
    ∃ permit waiting notifiedOne, (∀ waiter ∈ waiting, waiter ∈ s.waiting) ∧
      s.notifyOne = { s with permit, waiting, notifiedOne } := by
  unfold notifyOne
  cases hwaiting : s.waiting with
  | nil => exact ⟨true, [], s.notifiedOne, by simp, by simp [← hwaiting]⟩
  | cons waiter waiting =>
    exact ⟨s.permit, waiting, waiter :: s.notifiedOne,
      fun other hother => mem_cons_of_mem waiter hother, rfl⟩

theorem notifying_steps (hrange : s.InRange tree) (hthread : (notifying keep result).InRange tree) :
    Steps tree s (.notifying keep result) (s.notifyOne.putBack keep, .idle result) := by
  obtain ⟨permit, waiting, notifiedOne, hsub, hframe⟩ := frame_notifyOne s
  rw [hframe]
  have hrange' : Pools.InRange tree { s with permit, waiting, notifiedOne } := hrange
  exact .idle (.of_eq rfl rfl rfl hsub) (hrange'.putBack hthread) rfl rfl

theorem looping_steps (choice : Choice)
    (hrange : s.InRange tree) (hthread : (looping request).InRange tree)
    (hsane : (looping request).Sane s) :
    Steps tree s (.looping request) (step tree s (.looping request) choice) := by
  simp only [step]
  split_ifs with hcancel hzero
  · exact .idle (.refl s) hrange rfl rfl
  · exact .idle (.of_eq rfl rfl rfl fun _ => id) (hrange.putBack (forall_mem_some hthread)) rfl rfl
  · rw [acquire]
    obtain ⟨rest, hrest⟩ := tree.exists_ancestors_eq request.pool
    rw [hrest]
    exact .quiet (.refl s) hrange hthread ⟨hsane, le_refl _⟩ rfl rfl fun _ => id

theorem polling_steps {calls : Nat} (choice : Choice)
    (hrange : s.InRange tree) (hthread : (polling request calls).InRange tree)
    (hsane : (polling request calls).Sane s) :
    Steps tree s (.polling request calls) (step tree s (.polling request calls) choice) := by
  simp only [step]
  split_ifs with hcancel
  · exact .idle (.refl s) hrange rfl rfl
  · rw [poll]
    split_ifs with hpermit hcalls
    · exact .quiet (.of_eq rfl rfl rfl fun _ => id) hrange hthread hsane.1 rfl rfl fun _ => id
    · exact .quiet (.refl s) hrange hthread hsane.1 rfl rfl fun _ => id
    · have heffect : Effect s
          { s with waiting := s.waiting ++ [s.nextWaiter], nextWaiter := s.nextWaiter + 1 } := by
        refine ⟨rfl, Nat.le_refl _, Nat.le_succ _, fun waiter hlt hmem => ?_⟩
        rcases mem_append.mp hmem with hold | hnew
        · exact hold
        · rw [mem_singleton] at hnew
          omega
      refine ⟨heffect, ⟨hrange, hthread⟩, ⟨hsane.1, Nat.lt_succ_self _⟩,
        .inl (le_refl _), fun _ => rfl, fun bytes hwaits hbytes => ?_⟩
      exact ⟨⟨(not_not.mp hcalls).symm, hwaits.2⟩, hbytes⟩

theorem frame_cancelParked (s : Pools) (waiter : Nat) :
    ∃ permit waiting notifiedOne, (∀ other ∈ waiting, other ∈ s.waiting) ∧
      cancelParked s waiter =
        ({ s with permit, waiting, notifiedOne }, .idle (.error .cancelled)) := by
  unfold cancelParked
  split_ifs with hmem
  · obtain ⟨permit, waiting, notifiedOne, hsub, hone⟩ := frame_notifyOne { s with
        waiting := s.waiting.filter fun other => other ≠ waiter
        notifiedOne := s.notifiedOne.filter fun other => other ≠ waiter }
    simp only [hone]
    exact ⟨permit, waiting, notifiedOne,
      fun other hother => mem_of_mem_filter (hsub other hother), rfl⟩
  · simp only []
    exact ⟨s.permit, _, _, fun other hother => mem_of_mem_filter hother, rfl⟩

theorem parked_steps {waiter : Nat} (choice : Choice)
    (hrange : s.InRange tree) (hthread : (parked request waiter).InRange tree)
    (hsane : (parked request waiter).Sane s) :
    Steps tree s (.parked request waiter) (step tree s (.parked request waiter) choice) := by
  simp only [step]
  split_ifs with hcancel hwaiting
  · obtain ⟨permit, waiting, notifiedOne, hsub, hframe⟩ := frame_cancelParked s waiter
    rw [hframe]
    exact .idle (.of_eq rfl rfl rfl hsub) hrange rfl rfl
  · exact ⟨.refl s, ⟨hrange, hthread⟩, hsane, .inl (le_refl _), fun _ => rfl,
      fun _ hwaits hbytes => ⟨hwaits, hbytes⟩⟩
  · exact ⟨.of_eq rfl rfl rfl fun _ => id, ⟨hrange, hthread⟩, hsane.1, .inl (le_refl _),
      fun _ => rfl, fun _ hwaits => hwaits.elim⟩

/-- What every step does, where a pool below the root has room for what the root took. -/
theorem step_steps {choice : Choice} (hstatic : ∀ pool bytes, choice ≠ .protect pool bytes)
    (hrange : s.InRange tree) (hthread : thread.InRange tree) (hshape : thread.Shape tree)
    (hsane : thread.Sane s) (hroom : ∀ purpose request done node todo headroom,
      thread = .acquiring purpose request done (node :: todo) (some headroom) → node ≠ 0 →
      request.bytes ≤ tree.limit node - headroom - s.used node) :
    Steps tree s thread (step tree s thread choice) := by
  cases thread with
  | idle last => exact (call_calls hrange last hstatic).steps
  | acquiring purpose request done todo headroom =>
    cases todo with
    | nil => exact acquired_steps hrange hthread hshape
    | cons node todo =>
      cases headroom with
      | none =>
        exact .quiet (.refl s) hrange hthread ⟨hsane, rfl⟩ rfl rfl fun _ => id
      | some headroom =>
        exact acquireNode_steps hrange hthread hshape hsane (hroom _ _ _ _ _ _ rfl)
  | rollback purpose request error todo =>
    have htodo : todo = [] := hsane.2
    subst htodo
    exact refused_steps hrange hthread hshape hsane
  | releasing keep bytes result todo =>
    cases todo with
    | nil =>
      have heffect : Effect s s.notifyWaiters :=
        ⟨rfl, Nat.le_succ _, Nat.le_refl _, fun waiter _ hmem => absurd hmem not_mem_nil⟩
      exact ⟨heffect, ⟨hrange, hthread⟩, trivial, .inl (le_refl _),
        fun hnot => absurd trivial hnot, fun _ hwaits => hwaits.elim⟩
    | cons node todo => exact releasing_steps hrange hthread hshape
  | notifying keep result => exact notifying_steps hrange hthread
  | looping request => exact looping_steps choice hrange hthread hsane
  | polling request calls => exact polling_steps choice hrange hthread hsane
  | parked request waiter => exact parked_steps choice hrange hthread hsane

end Thread

/-! ## Room below the root -/

theorem chargeAt_le_root (reservation : Reservation) (node : Nat) :
    reservation.chargeAt tree node ≤ reservation.chargeAt tree 0 := by
  obtain ⟨rest, hrest⟩ := tree.exists_ancestors_eq reservation.pool
  unfold Reservation.chargeAt
  rw [if_pos (by rw [hrest]; exact mem_cons_self : 0 ∈ _)]
  split <;> omega

theorem Purpose.chargeAt_le_root (purpose : Purpose) (node : Nat) :
    purpose.chargeAt tree node ≤ purpose.chargeAt tree 0 := by
  cases purpose with
  | grow reservation => exact Memory.chargeAt_le_root reservation node
  | _ => exact le_refl _

theorem keptAt_le_root (keep : Option Reservation) (node : Nat) :
    keptAt tree node keep ≤ keptAt tree 0 keep :=
  sum_le_sum fun reservation _ => chargeAt_le_root reservation node

/-- A part of a way down that is not empty has the root. -/
theorem root_mem {node : Nat} {done rest : List Nat}
    (h : done ++ rest = tree.ancestorsRootFirst pool) (hmem : node ∈ done) : 0 ∈ done := by
  obtain ⟨others, hothers⟩ := tree.exists_ancestors_eq pool
  cases done with
  | nil => cases hmem
  | cons first done =>
    rw [← h, cons_append] at hothers
    rw [(cons.inj hothers).1]
    exact mem_cons_self

theorem Thread.charge_le_root {thread : Thread} (h : thread.Shape tree) (node : Nat) :
    thread.charge tree node ≤ thread.charge tree 0 := by
  have hpart {done rest : List Nat} {pool : Nat} (bytes : Nat)
      (hpath : done ++ rest = tree.ancestorsRootFirst pool) :
      (if node ∈ done then bytes else 0) ≤ if 0 ∈ done then bytes else 0 := by
    by_cases hmem : node ∈ done
    · rw [if_pos hmem, if_pos (root_mem hpath hmem)]
    · rw [if_neg hmem]
      exact Nat.zero_le _
  cases thread with
  | acquiring purpose request done todo headroom =>
    exact add_le_add (purpose.chargeAt_le_root node) (hpart request.bytes h.1)
  | rollback purpose request error todo =>
    obtain ⟨⟨rest, hrest⟩, -, -⟩ := h
    have htodo := hpart request.bytes hrest
    simp only [mem_reverse] at htodo
    exact add_le_add (purpose.chargeAt_le_root node) htodo
  | releasing keep bytes result todo =>
    obtain ⟨pool, rest, hrest⟩ := h
    have htodo := hpart bytes hrest
    simp only [mem_reverse] at htodo
    exact add_le_add (keptAt_le_root keep node) htodo
  | notifying keep result => exact keptAt_le_root keep node
  | _ => exact le_refl _

variable {purpose : Purpose} {request : Request} {headroom : Option Nat}

/-- A thread on its way down has charged the root and not yet the next node. -/
theorem Thread.charge_add_le_root {done todo : List Nat} {node : Nat} (hnode : node ≠ 0)
    (h : (acquiring purpose request done (node :: todo) headroom).Shape tree) :
    (acquiring purpose request done (node :: todo) headroom).charge tree node +
        request.bytes ≤
      (acquiring purpose request done (node :: todo) headroom).charge tree 0 := by
  obtain ⟨hpath, -, -⟩ := h
  obtain ⟨rest, hrest⟩ := tree.exists_ancestors_eq request.pool
  have hnot : node ∉ done := next_not_mem hpath
  have hroot : 0 ∈ done := by
    cases done with
    | nil =>
      rw [nil_append, hrest] at hpath
      exact absurd (cons.inj hpath).1 hnode
    | cons first done =>
      rw [hrest, cons_append] at hpath
      rw [(cons.inj hpath).1]
      exact mem_cons_self
  have hpurpose : purpose.chargeAt tree node ≤ purpose.chargeAt tree 0 :=
    purpose.chargeAt_le_root node
  simp only [charge, if_neg hnot, if_pos hroot]
  omega

/-- What the root took fits a pool whose allocatable limit is at least the root's limit. -/
theorem PoolsInv.room {c : Threads Pools Thread} (h : PoolsInv tree c) {done todo : List Nat}
    {node : Nat} (hthread : .acquiring purpose request done (node :: todo) headroom ∈ c.threads)
    (hnode : node ≠ 0) : c.shared.used node + request.bytes ≤ tree.limit 0 := by
  have hlive : c.shared.liveAt tree node ≤ c.shared.liveAt tree 0 :=
    sum_le_sum fun reservation _ => chargeAt_le_root reservation node
  have hthreads := sum_map_add_le (g := charge tree 0)
    (fun thread hmem => charge_le_root (h.shape thread hmem) node) hthread
    (charge_add_le_root hnode (h.shape _ hthread))
  have hroot := h.balance 0
  have hbalance := h.balance node
  have hwithin := h.within 0
  omega

/-! ## Runs -/

namespace Thread

variable {s : Pools} {thread : Thread}

theorem step_of_aboutToNotify {choice : Choice} (h : thread.AboutToNotify) :
    (step tree s thread choice).1 = s.notifyWaiters := by
  cases thread with
  | releasing keep bytes result todo =>
    cases todo with
    | nil => rfl
    | cons node todo => exact h.elim
  | _ => exact h.elim

variable {s' : Pools} {bytes : Nat}

theorem not_waits_of_aboutToNotify {choice : Choice} (h : thread.AboutToNotify) :
    ¬ (step tree s thread choice).2.Waits s' bytes := by
  cases thread with
  | releasing keep size result todo =>
    cases todo with
    | nil => exact id
    | cons node todo => exact h.elim
  | _ => exact h.elim

/-- A call of `notify_waiters` reaches everybody who waits. -/
theorem not_waits_notifyWaiters (hsane : thread.Sane s) :
    ¬ thread.Waits s.notifyWaiters bytes := by
  intro hwaits
  cases thread with
  | rollback purpose request error todo =>
    cases purpose with
    | wait calls =>
      have hcalls : calls = s.notifyWaitersCalls + 1 := hwaits.1
      have hle : calls ≤ s.notifyWaitersCalls := hsane.1.2
      omega
    | _ => exact hwaits
  | polling request calls =>
    have hcalls : calls = s.notifyWaitersCalls + 1 := hwaits.1
    have hle : calls ≤ s.notifyWaitersCalls := hsane.2
    omega
  | parked request waiter => exact absurd hwaits.1 not_mem_nil
  | _ => exact hwaits

theorem Waits.of_effect (h : thread.Waits s' bytes) (hsane : thread.Sane s)
    (heffect : Effect s s') (hcalls : s'.notifyWaitersCalls = s.notifyWaitersCalls) :
    thread.Waits s bytes := by
  cases thread with
  | rollback purpose request error todo =>
    cases purpose with
    | wait calls => exact ⟨h.1.trans hcalls, h.2⟩
    | _ => exact h
  | polling request calls => exact ⟨h.1.trans hcalls, h.2⟩
  | parked request waiter => exact ⟨heffect.waiting waiter hsane.2 h.1, h.2⟩
  | _ => exact h

end Thread

/-- No pool but the root refuses an acquisition, or nobody can wait. -/
def RootBinds (tree : Tree) (emergencyHeadroom : Nat → Nat) : Prop :=
  tree.limit 0 - emergencyHeadroom 0 = 0 ∨
    ∀ node, node ≠ 0 → node < tree.size → tree.limit 0 ≤ tree.limit node - emergencyHeadroom node

/-- While a waiter's request fits the root, some thread is about to notify. -/
structure Prompt (tree : Tree) (emergencyHeadroom : Nat → Nat) (c : Threads Pools Thread) :
    Prop where
  books : PoolsInv tree c
  headroom : c.shared.emergencyHeadroom = emergencyHeadroom
  range : c.shared.InRange tree
  threads : ∀ thread ∈ c.threads, thread.InRange tree ∧ thread.Sane c.shared
  woken : ∀ thread ∈ c.threads, ∀ bytes, thread.Waits c.shared bytes →
    bytes ≤ c.shared.allocatableLimit tree 0 - c.shared.used 0 →
    ∃ other ∈ c.threads, other.AboutToNotify

namespace Prompt

variable {emergencyHeadroom : Nat → Nat} {c : Threads Pools Thread} {thread : Thread}

section

variable (h : Prompt tree emergencyHeadroom c)
include h

theorem steps (hbinds : ∀ node, node ≠ 0 → node < tree.size →
      tree.limit 0 ≤ tree.limit node - emergencyHeadroom node) (hthread : thread ∈ c.threads)
    {choice : Choice} (hstatic : ∀ pool bytes, choice ≠ .protect pool bytes) :
    Steps tree c.shared thread (step tree c.shared thread choice) := by
  obtain ⟨hrange, hsane⟩ := h.threads thread hthread
  refine step_steps hstatic h.range hrange (h.books.shape thread hthread) hsane ?_
  intro purpose request done node todo headroom heq hnode
  subst heq
  have hroom := h.books.room hthread hnode
  have hpath := (h.books.shape _ hthread).1
  have hsize : node < tree.size := by
    have hle : node ≤ request.pool := Tree.le_of_mem_ancestors (by rw [← hpath]; simp)
    exact lt_of_le_of_lt hle hrange
  have hlimit := hbinds node hnode hsize
  have hheadroom : headroom ≤ emergencyHeadroom node := by
    rw [hsane.2, h.headroom]
    split <;> omega
  omega

variable {e : Nat × Choice} {bytes : Nat}

/-- The waiters that a thread leaves behind are those it met. -/
theorem woken_turn (hget : c.threads[e.1]? = some thread) {other : Thread}
    (hmem : other ∈ c.threads) (hnot : ¬ thread.AboutToNotify)
    (hwaits : other.Waits c.shared bytes)
    (hbytes : bytes ≤ c.shared.allocatableLimit tree 0 - c.shared.used 0) :
    ∃ notifier ∈ (turn (step tree) c e).threads, notifier.AboutToNotify := by
  obtain ⟨notifier, hnotifier, habout⟩ := h.woken other hmem bytes hwaits hbytes
  have hne : notifier ≠ thread := fun heq => hnot (heq ▸ habout)
  exact ⟨notifier, mem_threads_turn hget hnotifier hne, habout⟩

/-- A thread that waits after the step of another waited before it. -/
theorem woken_old (hget : c.threads[e.1]? = some thread)
    (hsteps : Steps tree c.shared thread (step tree c.shared thread e.2))
    {waiter : Thread} (hmem : waiter ∈ c.threads)
    (hwaits : waiter.Waits (step tree c.shared thread e.2).1 bytes)
    (hbytes : bytes ≤ c.shared.allocatableLimit tree 0 -
      (step tree c.shared thread e.2).1.used 0) :
    ∃ notifier ∈ (turn (step tree) c e).threads, notifier.AboutToNotify := by
  by_cases habout : thread.AboutToNotify
  · rw [step_of_aboutToNotify habout] at hwaits
    exact absurd hwaits (not_waits_notifyWaiters (h.threads waiter hmem).2)
  · rcases hsteps.root with hroot | hnotify
    · have hbefore := hwaits.of_effect (h.threads waiter hmem).2 hsteps.effect (hsteps.calls habout)
      exact h.woken_turn hget hmem habout hbefore (by omega)
    · exact ⟨_, mem_threads_turn_self hget, hnotify⟩

theorem turn (hbinds : ∀ node, node ≠ 0 → node < tree.size →
      tree.limit 0 ≤ tree.limit node - emergencyHeadroom node)
    (hstatic : ∀ pool bytes, e.2 ≠ .protect pool bytes) :
    Prompt tree emergencyHeadroom (turn (step tree) c e) := by
  cases hget : c.threads[e.1]? with
  | none => rwa [turn_of_none hget]
  | some thread =>
    have hmem := mem_of_getElem? hget
    have hsteps := h.steps hbinds hmem hstatic
    have hshared : (Lib.turn (step tree) c e).shared =
        (step tree c.shared thread e.2).1 := by rw [turn_of_some hget]
    have hthreads := @forall_turn _ _ _ (step tree) c
      (fun s thread => thread.InRange tree ∧ thread.Sane s) h.threads e
      (fun other hother => by
        rw [hget] at hother
        cases hother
        exact ⟨hsteps.range.2, hsteps.sane⟩)
      (fun other user huser hother => by
        rw [hget] at huser
        cases huser
        exact ⟨(h.threads other hother).1, (h.threads other hother).2.of_effect hsteps.effect⟩)
    refine ⟨h.books.turn e, ?_, ?_, hthreads, ?_⟩
    · rw [hshared, hsteps.effect.headroom, h.headroom]
    · rw [hshared]
      exact hsteps.range.1
    · intro waiter hwaiter bytes hwaits hbytes
      have hself : (step tree c.shared thread e.2).2 ∈
          (Lib.turn (step tree) c e).threads := mem_threads_turn_self hget
      rw [hshared] at hwaits hbytes
      rw [turn_of_some hget] at hwaiter
      have hlimit : (step tree c.shared thread e.2).1.allocatableLimit tree 0 =
          c.shared.allocatableLimit tree 0 := by
        rw [allocatableLimit, hsteps.effect.headroom, allocatableLimit]
      rw [hlimit] at hbytes
      rcases mem_or_eq_of_mem_set hwaiter with hold | hnew
      · exact h.woken_old hget hsteps hold hwaits hbytes
      · rw [hnew] at hwaits
        by_cases habout : thread.AboutToNotify
        · exact absurd hwaits (not_waits_of_aboutToNotify habout)
        · obtain ⟨hbefore, hfits⟩ := hsteps.waits bytes hwaits hbytes
          exact h.woken_turn hget hmem habout hbefore hfits

end

end Prompt

namespace Thread

theorem headroom_release (s : Pools) (pool : Nat) (keep : Option Reservation) (bytes : Nat)
    (result : Except Error Unit) :
    (release tree s pool keep bytes result).1.emergencyHeadroom = s.emergencyHeadroom := by
  unfold release
  split <;> rfl

theorem headroom_tryGrow (s : Pools) (index : Nat) (reservation : Reservation) (bytes : Nat) :
    (tryGrow tree s index reservation bytes).1.emergencyHeadroom = s.emergencyHeadroom := by
  unfold tryGrow
  split <;> rfl

theorem headroom_call (s : Pools) (last : Except Error Unit) {choice : Choice}
    (hstatic : ∀ pool bytes, choice ≠ .protect pool bytes) :
    (call tree s last choice).1.emergencyHeadroom = s.emergencyHeadroom := by
  cases choice with
  | protect pool bytes => exact absurd rfl (hstatic pool bytes)
  | _ =>
    simp only [call, splitOff, absorb, shrink, dropReservation, reserveWait, acquire]
    repeat' split
    all_goals first
      | rfl
      | exact headroom_release ..
      | exact headroom_tryGrow ..

end Thread

theorem Thread.headroom_step (s : Pools) (thread : Thread) {choice : Choice}
    (hstatic : ∀ pool bytes, choice ≠ .protect pool bytes) :
    (step tree s thread choice).1.emergencyHeadroom = s.emergencyHeadroom := by
  cases thread with
  | idle last => exact headroom_call s last hstatic
  | acquiring purpose request done todo headroom =>
    cases todo with
    | nil => cases purpose <;> rfl
    | cons node todo =>
      cases headroom with
      | none => rfl
      | some headroom =>
        simp only [step, acquireNode]
        split <;> rfl
  | rollback purpose request error todo =>
    cases todo with
    | nil => cases purpose <;> rfl
    | cons node todo =>
      simp only [step, releaseNode]
      split <;> rfl
  | releasing keep bytes result todo =>
    cases todo with
    | nil => rfl
    | cons node todo =>
      simp only [step, releaseNode]
      split <;> rfl
  | notifying keep result =>
    obtain ⟨permit, waiting, notifiedOne, -, hframe⟩ := frame_notifyOne s
    simp only [step, hframe, putBack]
  | looping request =>
    simp only [step]
    split
    · rfl
    · split <;> rfl
  | polling request calls =>
    simp only [step, poll]
    repeat' split
    all_goals rfl
  | parked request waiter =>
    obtain ⟨permit, waiting, notifiedOne, -, hframe⟩ := frame_cancelParked s waiter
    simp only [step, hframe]
    split
    · rfl
    · split <;> rfl

/-! ## Stranded waiters -/

/-- A schedule in which no headroom is raised. -/
def Static (schedule : List (Nat × Choice)) : Prop :=
  ∀ e ∈ schedule, ∀ pool bytes, e.2 ≠ .protect pool bytes

/-- No call is under way but parked ones. -/
def Thread.Finished : Thread → Prop
  | .idle _ | .parked .. => True
  | _ => False

instance : DecidablePred Finished
  | .idle _ | .parked .. => isTrue trivial
  | .acquiring .. | .rollback .. | .releasing .. | .notifying .. | .looping _
  | .polling .. => isFalse id

/-- All running calls have finished, and a parked one that nobody has notified could be
granted. -/
def Stranded (tree : Tree) (c : Threads Pools Thread) : Prop :=
  (∀ thread ∈ c.threads, thread.Finished) ∧
    ∃ request waiter, .parked request waiter ∈ c.threads ∧ waiter ∈ c.shared.waiting ∧
      ∀ node ∈ tree.ancestorsRootFirst request.pool,
        request.bytes ≤ c.shared.allocatableLimit tree node - c.shared.used node

section

variable {emergencyHeadroom : Nat → Nat} {threads : Nat} {schedule : List (Nat × Choice)}

theorem headroom_runPools (hstatic : Static schedule) :
    (runPools tree emergencyHeadroom threads schedule).shared.emergencyHeadroom =
      emergencyHeadroom := by
  apply runFrom_invariant_of_mem
    (I := fun c : Threads Pools Thread => c.shared.emergencyHeadroom = emergencyHeadroom) rfl
  intro c e he hc
  cases hget : c.threads[e.1]? with
  | none => rwa [turn_of_none hget]
  | some thread =>
    rw [turn_of_some hget]
    exact (headroom_step c.shared thread (hstatic e he)).trans hc

theorem prompt_runPools (hbinds : ∀ node, node ≠ 0 → node < tree.size →
      tree.limit 0 ≤ tree.limit node - emergencyHeadroom node) (hstatic : Static schedule) :
    Prompt tree emergencyHeadroom (runPools tree emergencyHeadroom threads schedule) := by
  apply runFrom_invariant_of_mem (I := Prompt tree emergencyHeadroom) _
    fun c e he hc => hc.turn hbinds (hstatic e he)
  have hidle : ∀ thread ∈ replicate threads (idle (.ok ())),
      thread = .idle (.ok ()) := fun thread hmem => eq_of_mem_replicate hmem
  refine ⟨poolsInv_runPools tree emergencyHeadroom threads [], rfl, ?_, ?_, ?_⟩
  · intro reservation hmem
    cases hmem
  · intro thread hmem
    rw [hidle thread hmem]
    exact ⟨trivial, trivial⟩
  · intro thread hmem bytes hwaits
    rw [hidle thread hmem] at hwaits
    exact hwaits.elim

/-- Where only the root refuses, nobody is stranded. -/
theorem not_stranded_of_rootBinds (hbinds : RootBinds tree emergencyHeadroom)
    (hstatic : Static schedule) :
    ¬ Stranded tree (runPools tree emergencyHeadroom threads schedule) := by
  intro hstranded
  obtain ⟨hfinished, request, waiter, hmem, hwaiting, hfits⟩ := hstranded
  obtain ⟨rest, hrest⟩ := tree.exists_ancestors_eq request.pool
  have hroot := hfits 0 (by rw [hrest]; exact mem_cons_self)
  rcases hbinds with hzero | hbinds
  · have hbytes : request.bytes ≠ 0 :=
      (poolsInv_runPools tree emergencyHeadroom threads schedule).shape _ hmem
    rw [allocatableLimit, headroom_runPools hstatic, hzero] at hroot
    omega
  · have hprompt : Prompt tree emergencyHeadroom
        (runPools tree emergencyHeadroom threads schedule) := prompt_runPools hbinds hstatic
    obtain ⟨notifier, hnotifier, habout⟩ :=
      hprompt.woken _ hmem request.bytes ⟨hwaiting, rfl⟩ hroot
    have hdone := hfinished notifier hnotifier
    cases notifier with
    | releasing keep bytes result todo => exact hdone
    | _ => exact habout

end

end RustDb.Runtime.Memory
