import Mathlib.Algebra.Order.Group.Multiset
import Mathlib.Data.Multiset.Range
import RustDb.Runtime.Scheduler

/-!
# Runs of the compute scheduler

What holds of the scheduler after any interleaving of its threads.

* `Scheduler.ledger`, `Thread.permits`: where every permit is.  A permit is in the hands of a
  thread, in a channel, with its caller, or returned.
* `WaitsForSlot`, `Thread.WillDispatch`: while a slot is free and a query waits, some thread
  is about to look for the next grant.
* `scheduler_is_exact_and_fair`: the invariants of every run.
-/

namespace RustDb.Runtime

open RustDb.Lib List Option Thread List.Sublist

/-! ## Permits -/

/-- The permits in a channel. -/
def Channel.permits : Channel → Multiset Permit
  | .full permit => {permit}
  | _ => 0

/-- The permits that the thread has to pass on. -/
def Thread.permits : Thread → Multiset Permit
  | .sending _ permit _ => {permit}
  | .releasing permit _ => {permit}
  | .received permit => {permit}
  | _ => 0

namespace Scheduler

/-- The permits that are returned, with a caller, or in a channel. -/
def ledger (s : Scheduler) : Multiset Permit :=
  s.released + s.held + (s.channels.map Channel.permits).sum

/-- The permits that have been granted. -/
def allIssued (s : Scheduler) : Multiset Permit := Multiset.range s.issued

variable {s s' : Scheduler}

theorem SameSlots.ledger (h : SameSlots s s') : s'.ledger = s.ledger := by
  simp only [Scheduler.ledger, h.released, h.held, h.channels]

theorem SameSlots.allIssued (h : SameSlots s s') : s'.allIssued = s.allIssued := by
  simp only [Scheduler.allIssued, h.issued]

theorem ledger_grant (s : Scheduler) : s.grant.1.ledger = s.ledger := rfl

theorem allIssued_grant (s : Scheduler) : s.grant.1.allIssued = {s.grant.2} + s.allIssued := by
  show Multiset.range (s.issued + 1) = {s.issued} + Multiset.range s.issued
  rw [Multiset.range_succ, Multiset.singleton_add]

variable {sender : Nat}

/-- A channel that changes moves its permits. -/
theorem ledger_set {old : Channel} (new : Channel) (h : s.channels[sender]? = some old) :
    ledger { s with channels := s.channels.set sender new } + old.permits =
      s.ledger + new.permits := by
  have hset := sum_map_set (g := Channel.permits) (u := new) h
  simp only [ledger, add_assoc, hset]

/-- A channel without a permit is closed or abandoned. -/
theorem ledger_set_of_ne {new : Channel} (h : ∀ permit, s.channels[sender]? ≠ some (.full permit))
    (hnew : new.permits = 0) :
    ledger { s with channels := s.channels.set sender new } = s.ledger := by
  cases hold : s.channels[sender]? with
  | none =>
    have hsame : s.channels.set sender new = s.channels :=
      set_eq_of_length_le (getElem?_eq_none_iff.mp hold)
    simp only [ledger, hsame]
  | some old =>
    have hzero : old.permits = 0 := by
      cases old with
      | full permit => exact absurd hold (h permit)
      | _ => rfl
    have hset := ledger_set new hold
    rwa [hzero, hnew, add_zero, add_zero] at hset

section

variable (s : Scheduler)

theorem ledger_dropSender (sender : Nat) :
    ledger { s with channels := dropSender s.channels sender } = s.ledger := by
  unfold dropSender
  split
  · rename_i hlive
    apply ledger_set_of_ne _ rfl
    intro permit
    rw [hlive]
    simp
  · rfl

theorem ledger_cancelWaiter (query : Uuid) (ticket : Nat) :
    (s.cancelWaiter query ticket).ledger = s.ledger := by
  unfold cancelWaiter
  split
  · rfl
  · rename_i queue hqueue
    split
    · rfl
    · rename_i index hindex
      cases hwaiter : queue[index]? with
      | none => simp only [elim_none]; split <;> rfl
      | some waiter =>
        have hdrop := ledger_dropSender s waiter.sender
        simp only [elim_some]
        split <;> exact hdrop

theorem ledger_enqueue (query : Uuid) : (s.enqueue query).1.ledger = s.ledger := by
  have hchannels : ((s.channels ++ [Channel.live]).map Channel.permits).sum =
      (s.channels.map Channel.permits).sum := by
    simp [Channel.permits]
  unfold enqueue
  simp only
  split <;> simp only [ledger, hchannels]

theorem ledger_release (permit : Permit) : (s.release permit).ledger = s.ledger + {permit} := by
  simp only [ledger, release, ← Multiset.cons_coe, ← Multiset.singleton_add]
  abel

theorem ledger_hold (permit : Permit) :
    ledger { s with held := permit :: s.held } = s.ledger + {permit} := by
  simp only [ledger, ← Multiset.cons_coe, ← Multiset.singleton_add]
  abel

end

theorem ledger_drop {index : Nat} {permit : Permit} (h : s.held[index]? = some permit) :
    ledger { s with held := s.held.eraseIdx index } + {permit} = s.ledger := by
  have hperm : (s.held : Multiset Permit) =
      permit ::ₘ (s.held.eraseIdx index : Multiset Permit) := by
    obtain ⟨hlt, rfl⟩ := List.getElem?_eq_some_iff.mp h
    rw [Multiset.cons_coe, Multiset.coe_eq_coe]
    exact (getElem_cons_eraseIdx_perm hlt).symm
  simp only [ledger, hperm, ← Multiset.singleton_add]
  abel

end Scheduler

/-! ## What a step can do -/

namespace Thread

open Scheduler

/-- What a step of a thread can do to the scheduler and the thread.  The invariants of a run are
proved from these cases, not from the code of the step. -/
inductive Stepped (s : Scheduler) : Thread → Scheduler → Thread → Prop where
  | stay : Stepped s .idle s .idle
  | call {query : Uuid} : Stepped s .idle s (.acquiring query)
  | drop {index : Nat} {permit : Permit} : s.held[index]? = some permit →
      Stepped s .idle { s with held := s.held.eraseIdx index } (.releasing permit .done)
  | immediate {query : Uuid} : s.available ≠ 0 → s.queuedWaiters = 0 →
      Stepped s (.acquiring query) s.grant.1 (.received s.grant.2)
  | refused {query : Uuid} : Stepped s (.acquiring query) s (.enqueueing query)
  | enqueued {query : Uuid} : Stepped s (.enqueueing query) (s.enqueue query).1
      (.dispatching (.wait query (s.enqueue query).2))
  | exhausted {next : Next} : s.nextGrant.2 = none →
      Stepped s (.dispatching next) s.nextGrant.1 (resume next)
  | found {next : Next} {sender : Nat} {permit : Permit} :
      s.nextGrant.2 = some (sender, permit) →
      Stepped s (.dispatching next) s.nextGrant.1 (.sending sender permit next)
  | sent {sender : Nat} {permit : Permit} {next : Next} :
      s.channels[sender]? = some .live →
      Stepped s (.sending sender permit next)
        { s with channels := s.channels.set sender (.full permit) } (.dispatching next)
  | bounced {sender : Nat} {permit : Permit} {next : Next} :
      Stepped s (.sending sender permit next) s (.releasing permit next)
  | released {permit : Permit} {next : Next} :
      Stepped s (.releasing permit next) (s.release permit) (.dispatching next)
  | taken {query : Uuid} {waiter : Waiter} {permit : Permit} :
      s.channels[waiter.sender]? = some (.full permit) →
      Stepped s (.waiting query waiter)
        { s with channels := s.channels.set waiter.sender .closed } (.received permit)
  | aborted {query : Uuid} {waiter : Waiter} {permit : Permit} :
      s.channels[waiter.sender]? = some (.full permit) →
      Stepped s (.waiting query waiter)
        { s with channels := s.channels.set waiter.sender .closed }
        (.releasing permit (.cancel query waiter.ticket))
  | closed {query : Uuid} {waiter : Waiter} :
      (∀ permit, s.channels[waiter.sender]? ≠ some (.full permit)) →
      Stepped s (.waiting query waiter)
        { s with channels := s.channels.set waiter.sender .closed }
        (.cancelling query waiter.ticket)
  | parked {query : Uuid} {waiter : Waiter} :
      Stepped s (.waiting query waiter) s (.waiting query waiter)
  | orphaned {query : Uuid} {waiter : Waiter} :
      (∀ permit, s.channels[waiter.sender]? ≠ some (.full permit)) →
      s.channels[waiter.sender]? ≠ some .live →
      Stepped s (.waiting query waiter) s (.cancelling query waiter.ticket)
  | kept {permit : Permit} :
      Stepped s (.received permit) { s with held := permit :: s.held } .idle
  | returned {permit : Permit} :
      Stepped s (.received permit) s (.releasing permit .done)
  | cancelled {query : Uuid} {ticket : Nat} :
      Stepped s (.cancelling query ticket) (s.cancelWaiter query ticket) .idle

theorem poll_stepped (s : Scheduler) (query : Uuid) (waiter : Waiter) :
    Stepped s (.waiting query waiter) (poll s query waiter).1 (poll s query waiter).2 := by
  unfold poll
  split
  · rename_i hfull
    exact .taken hfull
  · exact .parked
  · rename_i hfull hlive
    exact .orphaned (fun permit heq => hfull permit heq) fun heq => hlive heq

theorem abort_stepped (s : Scheduler) (query : Uuid) (waiter : Waiter) :
    Stepped s (.waiting query waiter) (abort s query waiter).1 (abort s query waiter).2 := by
  unfold abort
  split
  · rename_i hfull
    exact .aborted hfull
  · rename_i hother
    exact .closed fun permit heq => hother permit heq

theorem step_stepped (s : Scheduler) (thread : Thread) (choice : Choice) :
    Stepped s thread (step s thread choice).1 (step s thread choice).2 := by
  cases thread with
  | idle =>
    cases choice with
    | acquire query => exact .call
    | drop index =>
      simp only [step]
      split
      · rename_i hheld
        exact .drop hheld
      · exact .stay
    | cancel | proceed => exact .stay
  | acquiring query =>
    simp only [step, tryAcquireImmediate]
    split_ifs with hbusy
    · exact .refused
    · have hfree := not_or.mp hbusy
      exact .immediate hfree.1 (not_not.mp hfree.2)
  | enqueueing query => exact .enqueued
  | dispatching next =>
    simp only [step]
    split
    · rename_i s' hnext
      have h : Stepped s (.dispatching next) s.nextGrant.1 (resume next) :=
        .exhausted (congrArg Prod.snd hnext)
      rwa [hnext] at h
    · rename_i s' sender permit hnext
      have h : Stepped s (.dispatching next) s.nextGrant.1 (.sending sender permit next) :=
        .found (congrArg Prod.snd hnext)
      rwa [hnext] at h
  | sending sender permit next =>
    simp only [step]
    split
    · rename_i hlive
      exact .sent hlive
    · exact .bounced
  | releasing permit next => exact .released
  | waiting query waiter =>
    cases choice with
    | cancel => exact abort_stepped s query waiter
    | acquire | drop | proceed => exact poll_stepped s query waiter
  | received permit =>
    cases choice with
    | cancel => exact .returned
    | acquire | drop | proceed => exact .kept
  | cancelling query ticket => exact .cancelled

variable {s s' : Scheduler} {thread thread' : Thread}

theorem nextGrant_none (h : Queues s s.ready) (hnone : s.nextGrant.2 = none) :
    SameSlots s s.nextGrant.1 ∧ (s.nextGrant.1.available = 0 ∨ s.nextGrant.1.ready = []) := by
  have hgranted : Granted s s.nextGrant.1 s.nextGrant.2 := (nextGrantFrom_spec h).2
  rw [hnone] at hgranted
  cases hgranted with
  | none hsame hend => exact ⟨hsame, hend⟩

theorem nextGrant_some {grant : Nat × Permit} (h : Queues s s.ready)
    (hsome : s.nextGrant.2 = some grant) :
    ∃ mid, SameSlots s mid ∧ mid.available ≠ 0 ∧ s.nextGrant.1 = mid.grant.1 ∧
      grant.2 = mid.grant.2 := by
  have hgranted : Granted s s.nextGrant.1 s.nextGrant.2 := (nextGrantFrom_spec h).2
  rw [hsome] at hgranted
  cases hgranted with
  | some hsame hfree heq => exact ⟨_, hsame, hfree, heq, rfl⟩

/-- A step keeps the queues in order. -/
theorem Stepped.queues (hstep : Stepped s thread s' thread') (h : Queues s s.ready) :
    Queues s' s'.ready := by
  cases hstep with
  | enqueued => exact h.enqueue _
  | exhausted | found => exact (nextGrantFrom_spec h).1
  | sent | taken | aborted | closed => exact h.congr rfl rfl rfl rfl length_set
  | cancelled => exact h.cancelWaiter _ _
  | immediate | drop | released | kept => exact h.congr rfl rfl rfl rfl rfl
  | _ => exact h

/-- How a step changes the counters. -/
inductive Counted (s s' : Scheduler) (thread : Thread) : Prop where
  | same : s'.available = s.available → s'.active = s.active → s'.issued = s.issued →
      s'.released = s.released → Counted s s' thread
  | grant : s.available ≠ 0 → s'.available = s.available - 1 → s'.active = s.active + 1 →
      s'.issued = s.issued + 1 → s'.released = s.released → Counted s s' thread
  | release {permit : Permit} {next : Next} : thread = .releasing permit next →
      s' = s.release permit → Counted s s' thread

theorem enqueue_counters (s : Scheduler) (query : Uuid) :
    (s.enqueue query).1.available = s.available ∧ (s.enqueue query).1.active = s.active ∧
      (s.enqueue query).1.issued = s.issued ∧ (s.enqueue query).1.released = s.released := by
  unfold enqueue
  simp only
  split <;> exact ⟨rfl, rfl, rfl, rfl⟩

theorem cancelWaiter_counters (s : Scheduler) (query : Uuid) (ticket : Nat) :
    (s.cancelWaiter query ticket).available = s.available ∧
      (s.cancelWaiter query ticket).active = s.active ∧
      (s.cancelWaiter query ticket).issued = s.issued ∧
      (s.cancelWaiter query ticket).released = s.released := by
  unfold cancelWaiter
  split
  · exact ⟨rfl, rfl, rfl, rfl⟩
  · split
    · exact ⟨rfl, rfl, rfl, rfl⟩
    · simp only
      split <;> exact ⟨rfl, rfl, rfl, rfl⟩

theorem Stepped.counted (hstep : Stepped s thread s' thread') (h : Queues s s.ready) :
    Counted s s' thread := by
  cases hstep with
  | immediate hfree _ => exact .grant hfree rfl rfl rfl rfl
  | enqueued =>
    obtain ⟨havailable, hactive, hissued, hreleased⟩ := enqueue_counters s _
    exact .same havailable hactive hissued hreleased
  | exhausted hnone =>
    have hsame := (nextGrant_none h hnone).1
    exact .same hsame.available hsame.active hsame.issued hsame.released
  | found hsome =>
    obtain ⟨mid, hsame, hfree, hnext, -⟩ := nextGrant_some h hsome
    rw [hnext]
    apply Counted.grant
    · rw [← hsame.available]
      exact hfree
    · show mid.available - 1 = _
      rw [hsame.available]
    · show mid.active + 1 = _
      rw [hsame.active]
    · show mid.issued + 1 = _
      rw [hsame.issued]
    · exact hsame.released
  | released => exact .release rfl rfl
  | cancelled =>
    obtain ⟨havailable, hactive, hissued, hreleased⟩ := cancelWaiter_counters s _ _
    exact .same havailable hactive hissued hreleased
  | _ => exact .same rfl rfl rfl rfl

/-- A step moves permits and loses none. -/
theorem Stepped.ledger (hstep : Stepped s thread s' thread') (h : Queues s s.ready) :
    s'.ledger + thread'.permits + s.allIssued = s.ledger + thread.permits + s'.allIssued := by
  cases hstep with
  | drop hheld =>
    show _ + _ + s.allIssued = s.ledger + 0 + s.allIssued
    rw [add_zero, ← ledger_drop hheld]
    rfl
  | immediate _ _ =>
    rw [allIssued_grant, ledger_grant]
    show s.ledger + {s.grant.2} + s.allIssued = s.ledger + 0 + _
    abel
  | @enqueued query =>
    rw [ledger_enqueue, allIssued, allIssued, (enqueue_counters s query).2.2.1]
    rfl
  | @exhausted next hnone =>
    have hsame := (nextGrant_none h hnone).1
    rw [hsame.ledger, hsame.allIssued]
    cases next <;> rfl
  | @found next sender permit hsome =>
    obtain ⟨mid, hsame, -, hnext, hpermit⟩ := nextGrant_some h hsome
    rw [hnext, ledger_grant, allIssued_grant, hsame.ledger, hsame.allIssued, ← hpermit]
    show s.ledger + {permit} + s.allIssued = s.ledger + 0 + _
    abel
  | @sent sender permit next hlive =>
    have hset := ledger_set (.full permit) hlive
    simp only [Channel.permits, add_zero] at hset
    rw [hset]
    show s.ledger + {permit} + 0 + s.allIssued = s.ledger + {permit} + s.allIssued
    rw [add_zero]
  | released =>
    rw [ledger_release]
    show s.ledger + {_} + 0 + s.allIssued = s.ledger + {_} + s.allIssued
    rw [add_zero]
  | @taken query waiter permit hfull | @aborted query waiter permit hfull =>
    have hset := ledger_set .closed hfull
    simp only [Channel.permits, add_zero] at hset
    show _ + {permit} + s.allIssued = s.ledger + 0 + s.allIssued
    rw [add_zero, ← hset]
  | closed hother =>
    rw [ledger_set_of_ne hother rfl]
    rfl
  | kept =>
    rw [ledger_hold]
    show s.ledger + {_} + 0 + s.allIssued = s.ledger + {_} + s.allIssued
    rw [add_zero]
  | @cancelled query ticket =>
    rw [ledger_cancelWaiter, allIssued, allIssued, (cancelWaiter_counters s query ticket).2.2.1]
    rfl
  | _ => rfl

/-! ## What is still to be done -/

/-- The thread is about to look for the next grant. -/
def WillDispatch : Thread → Prop
  | .dispatching _ => True
  | .sending _ _ _ => True
  | .releasing _ _ => True
  | _ => False

theorem cancelWaiter_ready (s : Scheduler) (query : Uuid) (ticket : Nat) :
    (s.cancelWaiter query ticket).ready.Sublist s.ready := by
  unfold cancelWaiter
  split
  · exact refl _
  · split
    · exact refl _
    · simp only
      split
      · exact filter_sublist
      · exact refl _

end Thread

/-- A slot is free and a query waits. -/
def WaitsForSlot (s : Scheduler) : Prop := s.available ≠ 0 ∧ s.ready ≠ []

namespace Thread

open Scheduler

variable {s s' : Scheduler} {thread thread' : Thread}

/-- A thread that frees a slot or queues a waiter goes on to dispatch, and a thread stops
dispatching only when no slot is free or no query waits. -/
theorem Stepped.owed (hstep : Stepped s thread s' thread') (h : Queues s s.ready)
    (hwaits : WaitsForSlot s') :
    thread'.WillDispatch ∨ (WaitsForSlot s ∧ ¬ thread.WillDispatch) := by
  cases hstep with
  | drop | enqueued | found | sent | bounced | released | aborted | returned =>
    exact .inl trivial
  | exhausted hnone => exact absurd (nextGrant_none h hnone).2 (not_or.mpr hwaits)
  | immediate hfree _ => exact .inr ⟨⟨hfree, hwaits.2⟩, id⟩
  | @cancelled query ticket =>
    refine .inr ⟨⟨?_, fun hempty => hwaits.2 ?_⟩, id⟩
    · rw [← (cancelWaiter_counters s query ticket).1]
      exact hwaits.1
    · have hsub := cancelWaiter_ready s query ticket
      rw [hempty] at hsub
      exact sublist_nil.mp hsub
  | _ => exact .inr ⟨hwaits, id⟩

/-- The channel on which the thread waits or is about to wait. -/
def receiver : Thread → Option Nat
  | .waiting _ waiter => some waiter.sender
  | .dispatching (.wait _ waiter) => some waiter.sender
  | .sending _ _ (.wait _ waiter) => some waiter.sender
  | .releasing _ (.wait _ waiter) => some waiter.sender
  | _ => none

end Thread

/-- The receiver of a channel has not been dropped. -/
def IsOpen (channel : Nat) (s : Scheduler) : Prop :=
  s.channels[channel]? = some .live ∨ ∃ permit, s.channels[channel]? = some (.full permit)

namespace Thread

open Scheduler

variable {s s' : Scheduler} {thread thread' : Thread} {channel sender : Nat}

theorem isOpen_of_set {state : Channel} (hstate : state = .closed ∨ state = .abandoned)
    (h : IsOpen channel { s with channels := s.channels.set sender state }) :
    IsOpen channel s ∧ sender ≠ channel := by
  unfold IsOpen at h ⊢
  simp only [getElem?_set] at h
  by_cases hne : sender = channel
  · simp only [hne, if_true] at h
    rcases hstate with rfl | rfl <;> split at h <;> simp at h
  · simp only [hne, if_false] at h
    exact ⟨h, hne⟩

theorem isOpen_of_dropSender
    (hchannels : s'.channels = dropSender s.channels sender) (h : IsOpen channel s') :
    IsOpen channel s := by
  unfold IsOpen at h
  rw [hchannels, dropSender] at h
  split at h
  · exact (isOpen_of_set (.inr rfl) h).1
  · exact h

variable {query : Uuid}

theorem isOpen_of_cancelWaiter {ticket : Nat} (h : IsOpen channel (s.cancelWaiter query ticket)) :
    IsOpen channel s := by
  unfold cancelWaiter at h
  split at h
  · exact h
  · rename_i queue hqueue
    split at h
    · exact h
    · rename_i index hindex
      cases hwaiter : queue[index]? with
      | none =>
        simp only [hwaiter, elim_none] at h
        split at h <;> exact h
      | some waiter =>
        simp only [hwaiter, elim_some] at h
        split at h <;> exact isOpen_of_dropSender rfl h

theorem isOpen_of_enqueue (h : IsOpen channel (s.enqueue query).1) :
    IsOpen channel s ∨ channel = s.channels.length := by
  have hchannels : (s.enqueue query).1.channels = s.channels ++ [Channel.live] := by
    unfold enqueue
    simp only
    split <;> rfl
  by_cases hlt : channel < s.channels.length
  · left
    unfold IsOpen at h ⊢
    rwa [hchannels, getElem?_append_left hlt] at h
  · right
    have hle : channel < (s.channels ++ [Channel.live]).length := by
      unfold IsOpen at h
      rw [hchannels] at h
      apply Classical.byContradiction
      intro hge
      have hnone := getElem?_eq_none (Nat.le_of_not_lt hge)
      rw [hnone] at h
      simp at h
    rw [length_append, length_singleton] at hle
    omega

/-- A step that leaves the receivers alone leaves every open channel its receiver. -/
theorem received_of_eq (hopen : IsOpen channel s) (heq : thread'.receiver = thread.receiver) :
    thread'.receiver = some channel ∨
      (IsOpen channel s ∧ ¬ thread.receiver = some channel) := by
  by_cases hself : thread.receiver = some channel
  · exact .inl (heq.trans hself)
  · exact .inr ⟨hopen, hself⟩

theorem receiver_resume (next : Next) : (resume next).receiver = (dispatching next).receiver := by
  cases next <;> rfl

theorem nextGrant_channels (h : Queues s s.ready) : s.nextGrant.1.channels = s.channels := by
  cases hgrant : s.nextGrant.2 with
  | none => exact (nextGrant_none h hgrant).1.channels
  | some grant =>
    obtain ⟨mid, hsame, -, hnext, -⟩ := nextGrant_some h hgrant
    rw [hnext]
    exact hsame.channels

/-- A channel loses its receiver when it is closed. -/
theorem Stepped.received (hstep : Stepped s thread s' thread') (h : Queues s s.ready)
    (channel : Nat) (hopen : IsOpen channel s') :
    thread'.receiver = some channel ∨
      (IsOpen channel s ∧ ¬ thread.receiver = some channel) := by
  cases hstep with
  | @enqueued query =>
    rcases isOpen_of_enqueue hopen with hold | hnew
    · exact .inr ⟨hold, nofun⟩
    · left
      subst hnew
      unfold enqueue
      simp only
      split <;> rfl
  | @exhausted next _ =>
    unfold IsOpen at hopen
    rw [nextGrant_channels h] at hopen
    exact received_of_eq hopen (receiver_resume next)
  | @found next _ _ _ =>
    unfold IsOpen at hopen
    rw [nextGrant_channels h] at hopen
    exact received_of_eq hopen (by cases next <;> rfl)
  | @sent sender permit next hlive =>
    apply received_of_eq _ (by cases next <;> rfl)
    by_cases hne : sender = channel
    · exact .inl (hne ▸ hlive)
    · unfold IsOpen at hopen ⊢
      rwa [getElem?_set_ne hne] at hopen
  | @bounced _ _ next | @released _ next => exact received_of_eq hopen (by cases next <;> rfl)
  | taken | aborted | closed =>
    obtain ⟨hold, hne⟩ := isOpen_of_set (.inl rfl) hopen
    exact .inr ⟨hold, fun heq => hne (some.inj heq)⟩
  | parked => exact received_of_eq hopen rfl
  | orphaned hfull hlive =>
    refine .inr ⟨hopen, fun heq => ?_⟩
    have hsender := some.inj heq
    rcases hopen with hopen | ⟨permit, hopen⟩
    · exact hlive (hsender ▸ hopen)
    · exact hfull permit (hsender ▸ hopen)
  | cancelled => exact .inr ⟨isOpen_of_cancelWaiter hopen, nofun⟩
  | _ => exact .inr ⟨hopen, nofun⟩

end Thread

/-! ## Runs -/

/-- What holds after every run. -/
structure RunInv (slots : Nat) (c : Threads Scheduler Thread) : Prop where
  queues : c.shared.Queues c.shared.ready
  balanced : c.shared.ledger + (c.threads.map Thread.permits).sum = c.shared.allIssued
  returned : c.shared.active + c.shared.released.length = c.shared.issued
  slots : c.shared.active + c.shared.available = slots
  dispatched : Owed WaitsForSlot Thread.WillDispatch c
  received : ∀ channel, Owed (IsOpen channel) (fun thread => thread.receiver = some channel) c

variable {slots : Nat} {c : Threads Scheduler Thread}

/-- A thread that is about to release a permit holds one that is not returned. -/
theorem RunInv.released_lt (h : RunInv slots c) {i : Nat} {permit : Permit} {next : Next}
    (hthread : c.threads[i]? = some (.releasing permit next)) :
    c.shared.released.length < c.shared.issued := by
  have hset := sum_map_set (g := permits) (u := .idle) hthread
  have hcard := congrArg Multiset.card h.balanced
  have hthreads := congrArg Multiset.card hset
  simp only [Scheduler.ledger, Scheduler.allIssued, Multiset.card_add, Multiset.coe_card,
    Multiset.card_range, permits, Multiset.card_singleton, Multiset.card_zero] at hcard hthreads
  omega

theorem RunInv.turn (h : RunInv slots c) (e : Nat × Choice) :
    RunInv slots (turn Thread.step c e) := by
  cases hget : c.threads[e.1]? with
  | none => rwa [turn_of_none hget]
  | some thread =>
    have hstepped := fun thread => step_stepped c.shared thread e.2
    have hcounted := (hstepped thread).counted h.queues
    have hreturned := h.returned
    have hslots := h.slots
    have hshared : (RustDb.Lib.turn step c e).shared =
        (step c.shared thread e.2).1 := by rw [turn_of_some hget]
    constructor
    · rw [hshared]
      exact (hstepped thread).queues h.queues
    · exact balance_turn (h := Scheduler.allIssued) e h.balanced fun thread _ =>
        (hstepped thread).ledger h.queues
    · rw [hshared]
      cases hcounted with
      | same _ hactive hissued hreleased | grant _ _ hactive hissued hreleased =>
        rw [hreleased]
        omega
      | release hthread heq =>
        have hlt := h.released_lt (hthread ▸ hget)
        rw [heq]
        simp only [Scheduler.release, length_cons]
        omega
    · rw [hshared]
      cases hcounted with
      | same havailable hactive _ _ => omega
      | grant hfree havailable hactive _ _ => omega
      | release hthread heq =>
        have hlt := h.released_lt (hthread ▸ hget)
        rw [heq]
        simp only [Scheduler.release]
        omega
    · exact h.dispatched.turn e fun thread hwaits => (hstepped thread).owed h.queues hwaits
    · intro channel
      exact (h.received channel).turn e fun thread hopen =>
        (hstepped thread).received h.queues channel hopen

theorem runInv_new (slots threads : Nat) :
    RunInv slots { shared := .new slots, threads := List.replicate threads .idle } where
  queues := Scheduler.queues_new slots
  balanced := by
    rw [sum_map_eq_zero]
    · rfl
    · intro thread hthread
      rw [(mem_replicate.mp hthread).2]
      rfl
  returned := rfl
  slots := by simp [Scheduler.new]
  dispatched := fun h => absurd rfl h.2
  received := by simp [Owed, IsOpen, Scheduler.new]

/-- No call is in progress: every thread is idle or parked in `acquire`. -/
def Quiet (c : Threads Scheduler Thread) : Prop :=
  ∀ thread ∈ c.threads, thread = .idle ∨ ∃ query waiter, thread = .waiting query waiter

/-- One slot and two threads: the first takes the slot and gives it back, the second waits for
it and is cancelled when the permit is already on its way. -/
def cancelledWaiter : List (Nat × Choice) :=
  [(0, .acquire 7), (0, .proceed), (0, .proceed),
    (1, .acquire 8), (1, .proceed), (1, .proceed), (1, .proceed),
    (0, .drop 0), (0, .proceed), (0, .proceed), (0, .proceed), (0, .proceed),
    (1, .cancel), (1, .proceed), (1, .proceed), (1, .proceed)]

end RustDb.Runtime
