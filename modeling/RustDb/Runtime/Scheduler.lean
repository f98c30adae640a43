import RustDb.Lib.Interleaving
import RustDb.Lib.RoundRobin

/-!
# The global compute scheduler

`runtime/global_scheduler.rs`.  An engine has a number of compute slots.  A query that finds
no free slot queues a waiter; a slot that is given back is handed to the next waiter, the
queries taking turns.  The state is behind one lock, so every critical section is one step;
the permit is sent to its waiter after the lock is released, and the receiver may be gone by
then.

* `Scheduler`: the state behind the lock, the channels of the waiters, and the permits.
* `Thread.step`: one critical section, or one operation on a channel, of one thread.
* `Scheduler.Queues`: the ready queue, the queues of the queries and their counter agree,
  queries are served by turns and waiters of one query in order.
-/

namespace RustDb.Runtime

open RustDb.Lib List

/-- The identity of a query. -/
abbrev Uuid := Nat

/-- A permit, by the number of its grant. -/
abbrev Permit := Nat

/-- The channel on which a waiter gets its permit, by the contract of `tokio::sync::oneshot`: one
value is sent at most; a send to a dropped receiver gives the value back; a receiver whose sender
is dropped gets an error.  The channel has both ends alive and nothing sent, a permit in it, its
receiver dropped, or its sender dropped. -/
inductive Channel where
  | live
  | full (permit : Permit)
  | closed
  | abandoned
deriving DecidableEq, Repr

/-- A waiter: its ticket, and the channel that its sender belongs to. -/
structure Waiter where
  ticket : Nat
  sender : Nat
deriving DecidableEq, Repr

/-- The state of the scheduler.  The fields after `channels` stand outside the lock: the permits
that are held, the number of the next one, and a record of what has been returned, of the turns
and of the grants, which no step reads. -/
structure Scheduler where
  available : Nat
  active : Nat
  peakActive : Nat
  nextTicket : Nat
  ready : List Uuid
  queries : Uuid → Option (List Waiter)
  queuedWaiters : Nat
  grants : Nat
  cancelledWaiters : Nat
  channels : List Channel
  held : List Permit
  issued : Nat
  released : List Permit
  turns : List (Turn Uuid)
  granted : List (Uuid × Nat)

/-- `u64` values are less than this. -/
def u64Limit : Nat := 2 ^ 64

/-- `u64::saturating_add`. -/
def saturatingAdd (a b : Nat) : Nat := min (a + b) (u64Limit - 1)

namespace Scheduler

/-- `GlobalComputeScheduler::new`. -/
def new (slots : Nat) : Scheduler where
  available := slots
  active := 0
  peakActive := 0
  nextTicket := 0
  ready := []
  queries := fun _ => none
  queuedWaiters := 0
  grants := 0
  cancelledWaiters := 0
  channels := []
  held := []
  issued := 0
  released := []
  turns := []
  granted := []

/-- The map of the queues with the entry of one query replaced. -/
def setQuery (queries : Uuid → Option (List Waiter)) (query : Uuid)
    (queue : Option (List Waiter)) : Uuid → Option (List Waiter) :=
  fun other => if other = query then queue else queries other

/-- A slot is taken for a new permit. -/
def grant (s : Scheduler) : Scheduler × Permit :=
  ({ s with
      available := s.available - 1
      active := s.active + 1
      peakActive := max s.peakActive (s.active + 1)
      grants := saturatingAdd s.grants 1
      issued := s.issued + 1 }, s.issued)

/-- A slot for a query that finds no waiter before it. -/
def tryAcquireImmediate (s : Scheduler) : Option (Scheduler × Permit) :=
  if s.available = 0 ∨ s.queuedWaiters ≠ 0 then none else some s.grant

/-- The critical section of `enqueue`, with the channel that `acquire` has made. -/
def enqueue (s : Scheduler) (query : Uuid) : Scheduler × Waiter :=
  let waiter : Waiter := { ticket := s.nextTicket, sender := s.channels.length }
  let s' := { s with
    nextTicket := (s.nextTicket + 1) % u64Limit
    channels := s.channels ++ [Channel.live]
    queuedWaiters := s.queuedWaiters + 1 }
  match s.queries query with
  | some queue =>
    ({ s' with queries := setQuery s.queries query (some (queue ++ [waiter])) }, waiter)
  | none =>
    ({ s' with
        ready := s.ready ++ [query]
        queries := setQuery s.queries query (some [waiter])
        turns := .joined query :: s.turns }, waiter)

/-- `Sender::is_closed`: the receiver has been dropped. -/
def isClosed (channels : List Channel) (waiter : Waiter) : Bool :=
  channels[waiter.sender]? = some .closed

/-- The number of closed waiters at the front of a queue, and the first live waiter with
the queue behind it. -/
def firstLive (channels : List Channel) : List Waiter → Nat × Option (Waiter × List Waiter)
  | [] => (0, none)
  | waiter :: queue =>
    if isClosed channels waiter then
      ((firstLive channels queue).1 + 1, (firstLive channels queue).2)
    else (0, some (waiter, queue))

/-- The turn of the query at the front of the ready queue, which is `ready` behind it: the
waiters that are popped, and what becomes of the query. -/
def serve (s : Scheduler) (query : Uuid) (queue : List Waiter) (ready : List Uuid) :
    Scheduler × Option Waiter :=
  match firstLive s.channels queue with
  | (cancelled, none) =>
    ({ s with
        ready
        queries := setQuery s.queries query none
        queuedWaiters := s.queuedWaiters - cancelled
        cancelledWaiters := saturatingAdd s.cancelledWaiters cancelled }, none)
  | (cancelled, some (waiter, rest)) =>
    let s' := { s with
      queuedWaiters := s.queuedWaiters - (cancelled + 1)
      cancelledWaiters := saturatingAdd s.cancelledWaiters cancelled
      turns := .served query :: s.turns
      granted := (query, waiter.sender) :: s.granted }
    if rest.isEmpty then
      ({ s' with ready, queries := setQuery s.queries query none }, some waiter)
    else
      ({ s' with
          ready := ready ++ [query]
          queries := setQuery s.queries query (some rest) }, some waiter)

/-- The loop of `next_grant`, over the ready queue. -/
def nextGrantFrom (s : Scheduler) : List Uuid → Scheduler × Option (Nat × Permit)
  | [] => ({ s with ready := [] }, none)
  | query :: ready =>
    if s.available = 0 then ({ s with ready := query :: ready }, none)
    else
      match s.queries query with
      | none => nextGrantFrom s ready
      | some queue =>
        match s.serve query queue ready with
        | (s, none) => nextGrantFrom s ready
        | (s, some waiter) => (s.grant.1, some (waiter.sender, s.grant.2))

/-- `next_grant`: the sender and the permit of the next grant. -/
def nextGrant (s : Scheduler) : Scheduler × Option (Nat × Permit) :=
  s.nextGrantFrom s.ready

/-- A sender is dropped; a permit that is in the channel stays there. -/
def dropSender (channels : List Channel) (sender : Nat) : List Channel :=
  if channels[sender]? = some .live then channels.set sender .abandoned else channels

/-- A waiter that has not been served leaves the queue of its query, with its sender. -/
def cancelWaiter (s : Scheduler) (query : Uuid) (ticket : Nat) : Scheduler :=
  match s.queries query with
  | none => s
  | some queue =>
    match queue.findIdx? fun waiter => waiter.ticket = ticket with
    | none => s
    | some index =>
      let s := { s with
        channels := (queue[index]?.elim s.channels fun w => dropSender s.channels w.sender)
        queuedWaiters := s.queuedWaiters - 1
        cancelledWaiters := saturatingAdd s.cancelledWaiters 1 }
      if (queue.eraseIdx index).isEmpty then
        { s with
          ready := s.ready.filter fun queued => queued ≠ query
          queries := setQuery s.queries query none }
      else { s with queries := setQuery s.queries query (some (queue.eraseIdx index)) }

/-- The critical section of `Inner::release`. -/
def release (s : Scheduler) (permit : Permit) : Scheduler :=
  { s with
    active := s.active - 1
    available := s.available + 1
    released := permit :: s.released }

end Scheduler

/-! ## Threads -/

/-- What a thread does when its loop in `dispatch` returns. -/
inductive Next where
  | done
  | wait (query : Uuid) (waiter : Waiter)
  | cancel (query : Uuid) (ticket : Nat)
deriving DecidableEq, Repr

/-- Where a thread is. -/
inductive Thread where
  | idle
  | acquiring (query : Uuid)
  | enqueueing (query : Uuid)
  | dispatching (next : Next)
  | sending (sender : Nat) (permit : Permit) (next : Next)
  | releasing (permit : Permit) (next : Next)
  | waiting (query : Uuid) (waiter : Waiter)
  | received (permit : Permit)
  | cancelling (query : Uuid) (ticket : Nat)
deriving DecidableEq, Repr

/-- What a step does not take from the state: the call that an idle thread makes, and
whether a waiting or returning `acquire` is cancelled. -/
inductive Choice where
  | acquire (query : Uuid)
  | drop (index : Nat)
  | cancel
  | proceed
deriving DecidableEq, Repr

namespace Thread

/-- What a thread does after it has sent a permit. -/
def resume : Next → Thread
  | .done => .idle
  | .wait query waiter => .waiting query waiter
  | .cancel query ticket => .cancelling query ticket

/-- The receiver of a waiting `acquire` is dropped, and a permit in its channel with it. -/
def abort (s : Scheduler) (query : Uuid) (waiter : Waiter) : Scheduler × Thread :=
  let closed := { s with channels := s.channels.set waiter.sender .closed }
  match s.channels[waiter.sender]? with
  | some (.full permit) => (closed, .releasing permit (.cancel query waiter.ticket))
  | _ => (closed, .cancelling query waiter.ticket)

/-- A waiting `acquire` polls its receiver. -/
def poll (s : Scheduler) (query : Uuid) (waiter : Waiter) : Scheduler × Thread :=
  match s.channels[waiter.sender]? with
  | some (.full permit) =>
    ({ s with channels := s.channels.set waiter.sender .closed }, .received permit)
  | some .live => (s, .waiting query waiter)
  | _ => (s, .cancelling query waiter.ticket)

/-- The next step of a thread: a critical section, or what follows it outside the lock.  A permit is
sent after the lock is released, when its waiter may have been cancelled. -/
def step (s : Scheduler) (thread : Thread) (choice : Choice) : Scheduler × Thread :=
  match thread with
  | .idle =>
    match choice with
    | .acquire query => (s, .acquiring query)
    | .drop index =>
      match s.held[index]? with
      | some permit => ({ s with held := s.held.eraseIdx index }, .releasing permit .done)
      | none => (s, .idle)
    | _ => (s, .idle)
  | .acquiring query =>
    match s.tryAcquireImmediate with
    | some (s, permit) => (s, .received permit)
    | none => (s, .enqueueing query)
  | .enqueueing query =>
    ((s.enqueue query).1, .dispatching (.wait query (s.enqueue query).2))
  | .dispatching next =>
    match s.nextGrant with
    | (s, none) => (s, resume next)
    | (s, some (sender, permit)) => (s, .sending sender permit next)
  | .sending sender permit next =>
    if s.channels[sender]? = some .live then
      ({ s with channels := s.channels.set sender (.full permit) }, .dispatching next)
    else (s, .releasing permit next)
  | .releasing permit next => (s.release permit, .dispatching next)
  | .waiting query waiter =>
    match choice with
    | .cancel => abort s query waiter
    | _ => poll s query waiter
  | .received permit =>
    match choice with
    | .cancel => (s, .releasing permit .done)
    | _ => ({ s with held := permit :: s.held }, .idle)
  | .cancelling query ticket => (s.cancelWaiter query ticket, .idle)

end Thread

/-- A scheduler with a number of slots and a number of threads, after the schedule. -/
def runScheduler (slots threads : Nat) (schedule : List (Nat × Choice)) :
    Threads Scheduler Thread :=
  runFrom (turn Thread.step)
    { shared := Scheduler.new slots, threads := List.replicate threads .idle } schedule

/-! ## Queues -/

namespace Scheduler

/-- The waiters of a query, first to last. -/
def queueOf (s : Scheduler) (query : Uuid) : List Waiter := (s.queries query).getD []

/-- The waiters of a query that were granted, in that order, and then those that wait, by
the number of their channel. -/
def arrivals (s : Scheduler) (query : Uuid) : List Nat :=
  ((s.granted.filter fun grant => grant.1 = query).reverse.map Prod.snd) ++
    (s.queueOf query).map Waiter.sender

/-- The ready queue `ready` and the queues of the queries agree, and are served in order. -/
structure Queues (s : Scheduler) (ready : List Uuid) : Prop where
  fair : Fair ready s.turns
  keys : ∀ query, query ∈ ready ↔ (s.queries query).isSome = true
  nonempty : ∀ query queue, s.queries query = some queue → queue ≠ []
  counted : s.queuedWaiters = (ready.map fun query => (s.queueOf query).length).sum
  ordered : ∀ query, (s.arrivals query).Pairwise (· < ·)
  opened : ∀ query, ∀ sender ∈ s.arrivals query, sender < s.channels.length

theorem queues_new (slots : Nat) : Queues (new slots) [] where
  fair := fair_nil _
  keys := by simp [new]
  nonempty := by simp [new]
  counted := rfl
  ordered := by simp [arrivals, queueOf, new]
  opened := by simp [arrivals, queueOf, new]

theorem setQuery_self (queries : Uuid → Option (List Waiter)) (query : Uuid)
    (queue : Option (List Waiter)) : setQuery queries query queue query = queue := by
  simp [setQuery]

variable {query : Uuid}

theorem setQuery_of_ne {queries : Uuid → Option (List Waiter)} {other : Uuid}
    {queue : Option (List Waiter)} (h : other ≠ query) :
    setQuery queries query queue other = queries other := by
  simp [setQuery, h]

variable {s s' : Scheduler} {ready : List Uuid} {queue : List Waiter}

theorem mem_of_queries (h : Queues s ready) (hqueue : s.queries query = some queue) :
    query ∈ ready := by
  apply (h.keys query).mpr
  rw [hqueue]
  rfl

/-- Only the queue of one query changes, and it loses waiters or grants one. -/
structure Shrinks (s s' : Scheduler) (query : Uuid) : Prop where
  other : ∀ q, q ≠ query → s'.queries q = s.queries q
  arrivals_other : ∀ q, q ≠ query → s'.arrivals q = s.arrivals q
  arrivals_self : (s'.arrivals query).Sublist (s.arrivals query)
  channels : s'.channels.length = s.channels.length

theorem Shrinks.ordered (hs : Shrinks s s' query) (h : Queues s ready) (q : Uuid) :
    (s'.arrivals q).Pairwise (· < ·) := by
  by_cases hq : q = query
  · rw [hq]
    exact (h.ordered query).sublist hs.arrivals_self
  · rw [hs.arrivals_other q hq]
    exact h.ordered q

theorem Shrinks.opened (hs : Shrinks s s' query) (h : Queues s ready) (q : Uuid) :
    ∀ sender ∈ s'.arrivals q, sender < s'.channels.length := by
  intro sender hmem
  rw [hs.channels]
  apply h.opened q
  by_cases hq : q = query
  · rw [hq] at hmem ⊢
    exact hs.arrivals_self.subset hmem
  · rwa [hs.arrivals_other q hq] at hmem

variable {channels : List Channel} {ready' : List Uuid} {cancelled : Nat}

/-- The summand of one query apart from the others. -/
theorem sum_erase {f : Uuid → Nat} (h : query ∉ ready → f query = 0) :
    (ready.map f).sum = f query + ((ready.erase query).map f).sum := by
  by_cases hmem : query ∈ ready
  · rw [((perm_cons_erase hmem).map f).sum_nat, map_cons, sum_cons]
  · rw [erase_of_not_mem hmem, h hmem, Nat.zero_add]

theorem Queues.queueOf_eq_nil (h : Queues s ready) (hnot : query ∉ ready) :
    s.queueOf query = [] := by
  rw [h.keys, Bool.not_eq_true, Option.isSome_eq_false_iff, Option.isNone_iff_eq_none] at hnot
  rw [queueOf, hnot]
  rfl

theorem Queues.counted_erase (h : Queues s ready) (query : Uuid) :
    s.queuedWaiters = (s.queueOf query).length +
      ((ready.erase query).map fun q => (s.queueOf q).length).sum := by
  rw [h.counted, sum_erase fun hnot => by rw [h.queueOf_eq_nil hnot, length_nil]]

/-- Only the queue of one query changes, and the query waits if it is not empty. -/
theorem Queues.change (h : Queues s ready) (query : Uuid)
    (hother : ∀ q, q ≠ query → s'.queries q = s.queries q) (hnil : s'.queries query ≠ some [])
    (hfair : Fair ready' s'.turns)
    (hmem : ∀ q, q ∈ ready' ↔ if q = query then (s'.queries query).isSome = true else q ∈ ready)
    (hcount : s'.queuedWaiters + (s.queueOf query).length =
      s.queuedWaiters + (s'.queueOf query).length)
    (hordered : ∀ q, (s'.arrivals q).Pairwise (· < ·))
    (hopened : ∀ q, ∀ sender ∈ s'.arrivals q, sender < s'.channels.length) :
    Queues s' ready' := by
  have hkeys : ∀ q, q ∈ ready' ↔ (s'.queries q).isSome = true := by
    intro q
    rw [hmem]
    split_ifs with hq
    · rw [hq]
    · rw [hother q hq, h.keys]
  refine ⟨hfair, hkeys, ?_, ?_, hordered, hopened⟩
  · intro q queue hqueue
    by_cases hq : q = query
    · rintro rfl
      exact hnil (hq ▸ hqueue)
    · rw [hother q hq] at hqueue
      exact h.nonempty q queue hqueue
  · have hperm : (ready'.erase query).Perm (ready.erase query) := by
      rw [perm_ext_iff_of_nodup (hfair.nodup.erase _) (h.fair.nodup.erase _)]
      intro q
      rw [hfair.nodup.mem_erase_iff, h.fair.nodup.mem_erase_iff, hmem]
      exact and_congr_right fun hq => by rw [if_neg hq]
    have hrest : ((ready'.erase query).map fun q => (s'.queueOf q).length).sum =
        ((ready.erase query).map fun q => (s.queueOf q).length).sum := by
      rw [(hperm.map _).sum_nat]
      congr 1
      apply map_congr_left
      intro q hq
      rw [queueOf, queueOf, hother q (h.fair.nodup.mem_erase_iff.mp hq).1]
    have hold := h.counted_erase query
    rw [sum_erase, hrest]
    · omega
    · intro hnot
      rw [hkeys, Bool.not_eq_true, Option.isSome_eq_false_iff, Option.isNone_iff_eq_none] at hnot
      simp [queueOf, hnot]

/-- Every waiter of the queue is closed. -/
theorem firstLive_none (h : firstLive channels queue = (cancelled, none))
    : cancelled = queue.length := by
  induction queue generalizing cancelled with
  | nil =>
    cases h
    rfl
  | cons waiter queue ih =>
    unfold firstLive at h
    split at h
    · obtain ⟨hone, hnone⟩ := Prod.mk.inj h
      have hrest : (firstLive channels queue).1 = queue.length := ih (Prod.ext rfl hnone)
      rw [length_cons]
      omega
    · cases h

/-- The waiters before the one that is found are closed. -/
theorem firstLive_some {rest : List Waiter} {waiter : Waiter}
    (h : firstLive channels queue = (cancelled, some (waiter, rest))) :
    ∃ dead, queue = dead ++ waiter :: rest ∧ dead.length = cancelled := by
  induction queue generalizing cancelled with
  | nil => cases h
  | cons first queue ih =>
    unfold firstLive at h
    split at h
    · obtain ⟨hone, hsome⟩ := Prod.mk.inj h
      obtain ⟨dead, hsplit, (hlength : dead.length = (firstLive channels queue).1)⟩ :=
        ih (Prod.ext rfl hsome)
      refine ⟨first :: dead, by rw [hsplit]; rfl, ?_⟩
      rw [length_cons]
      omega
    · cases h
      exact ⟨[], rfl, rfl⟩

/-- A waiter of one query may be granted, and a part of the queue is left. -/
theorem shrinks_of_queue {queue : Option (List Waiter)} (waiter : Option Waiter)
    (hqueries : s'.queries = setQuery s.queries query queue)
    (hgranted : s'.granted = (waiter.toList.map fun w => (query, w.sender)) ++ s.granted)
    (hchannels : s'.channels.length = s.channels.length)
    (hsub : (waiter.toList ++ queue.getD []).Sublist (s.queueOf query)) :
    Shrinks s s' query where
  other := by
    intro q hq
    rw [hqueries, setQuery_of_ne hq]
  arrivals_other := by
    intro q hq
    cases waiter <;>
      simp [arrivals, queueOf, hqueries, hgranted, setQuery_of_ne hq, Ne.symm hq]
  arrivals_self := by
    have hmoved : s'.arrivals query =
        ((s.granted.filter fun grant => grant.1 = query).reverse.map Prod.snd) ++
          (waiter.toList ++ queue.getD []).map Waiter.sender := by
      cases waiter <;> simp [arrivals, queueOf, hqueries, hgranted, setQuery_self]
    rw [hmoved]
    exact (List.Sublist.refl _).append (hsub.map _)
  channels := hchannels

/-- A waiter of one query may be granted, and a part of the queue is left. -/
theorem Queues.shrink (h : Queues s ready) (queue : Option (List Waiter)) (waiter : Option Waiter)
    (hqueries : s'.queries = setQuery s.queries query queue)
    (hgranted : s'.granted = (waiter.toList.map fun w => (query, w.sender)) ++ s.granted)
    (hchannels : s'.channels.length = s.channels.length)
    (hsub : (waiter.toList ++ queue.getD []).Sublist (s.queueOf query)) (hnil : queue ≠ some [])
    (hfair : Fair ready' s'.turns)
    (hmem : ∀ q, q ∈ ready' ↔ if q = query then queue.isSome = true else q ∈ ready)
    (hcount : s'.queuedWaiters + (s.queueOf query).length =
      s.queuedWaiters + (queue.getD []).length) : Queues s' ready' := by
  have hs := shrinks_of_queue waiter hqueries hgranted hchannels hsub
  have hself : s'.queries query = queue := by rw [hqueries, setQuery_self]
  have hqueue : s'.queueOf query = queue.getD [] := by rw [queueOf, hself]
  rw [← hself] at hnil hmem
  rw [← hqueue] at hcount
  exact h.change query hs.other hnil hfair hmem hcount (hs.ordered h) (hs.opened h)

/-- A turn of the query at the front keeps the queues in order. -/
theorem Queues.serve (h : Queues s (query :: ready)) (hqueue : s.queries query = some queue) :
    Queues (s.serve query queue ready).1 (s.serve query queue ready).1.ready := by
  have hnodup := nodup_cons.mp h.fair.nodup
  have hself : s.queueOf query = queue := by simp [queueOf, hqueue]
  have hcount := h.counted_erase query
  rw [hself] at hcount
  have hleft : ∀ q, q ∈ ready ↔ if q = query then false = true else q ∈ query :: ready := by
    intro q
    by_cases hq : q = query <;> simp [hq, hnodup.1]
  unfold Scheduler.serve
  split
  · rename_i cancelled hfirst
    have hall := firstLive_none hfirst
    refine h.shrink none none rfl rfl rfl (nil_sublist _) (by simp)
      (h.fair.sublist (sublist_cons_self ..)) hleft ?_
    show s.queuedWaiters - cancelled + (s.queueOf query).length = s.queuedWaiters
    rw [hself]
    omega
  · rename_i cancelled waiter rest hfirst
    obtain ⟨dead, hsplit, hdead⟩ := firstLive_some hfirst
    have hlength : queue.length = cancelled + 1 + rest.length := by
      rw [hsplit, length_append, length_cons, hdead]
      omega
    have hsub : (waiter :: rest).Sublist (s.queueOf query) := by
      rw [hself, hsplit]
      exact sublist_append_right ..
    have hless : s.queuedWaiters - (cancelled + 1) + (s.queueOf query).length =
        s.queuedWaiters + rest.length := by
      rw [hself]
      omega
    by_cases hrest : rest = []
    · subst hrest
      exact h.shrink none (some waiter) rfl rfl rfl hsub (by simp) h.fair.serve hleft hless
    · rw [if_neg (by simpa using hrest)]
      refine h.shrink (some rest) (some waiter) rfl rfl rfl hsub (by simpa using hrest)
        h.fair.rotate ?_ hless
      intro q
      by_cases hq : q = query <;> simp [hq]

/-- The fields that a grant touches. -/
structure SameSlots (s s' : Scheduler) : Prop where
  available : s'.available = s.available
  active : s'.active = s.active
  channels : s'.channels = s.channels
  held : s'.held = s.held
  issued : s'.issued = s.issued
  released : s'.released = s.released

theorem SameSlots.trans {s'' : Scheduler} (h : SameSlots s s') (h' : SameSlots s' s'') :
    SameSlots s s'' :=
  ⟨h'.available.trans h.available, h'.active.trans h.active, h'.channels.trans h.channels,
    h'.held.trans h.held, h'.issued.trans h.issued, h'.released.trans h.released⟩

theorem serve_sameSlots (s : Scheduler) (query : Uuid) (queue : List Waiter)
    (ready : List Uuid) : SameSlots s (s.serve query queue ready).1 := by
  unfold serve
  split
  · exact ⟨rfl, rfl, rfl, rfl, rfl, rfl⟩
  · simp only
    split <;> exact ⟨rfl, rfl, rfl, rfl, rfl, rfl⟩

theorem serve_none_ready (h : (s.serve query queue ready).2 = none) :
    (s.serve query queue ready).1.ready = ready := by
  unfold serve at h ⊢
  split
  · rfl
  · rename_i hfirst
    rw [hfirst] at h
    simp only at h
    split at h <;> cases h

/-- How `next_grant` ends: no slot or no waiter is left, or a free slot is taken. -/
inductive Granted (s s' : Scheduler) : Option (Nat × Permit) → Prop where
  | none : SameSlots s s' → s'.available = 0 ∨ s'.ready = [] → Granted s s' none
  | some {mid : Scheduler} {sender : Nat} : SameSlots s mid → mid.available ≠ 0 →
      s' = mid.grant.1 → Granted s s' (some (sender, mid.grant.2))

/-- What `next_grant` does to the queues and the slots. -/
theorem nextGrantFrom_spec (h : Queues s ready) :
    Queues (s.nextGrantFrom ready).1 (s.nextGrantFrom ready).1.ready ∧
      Granted s (s.nextGrantFrom ready).1 (s.nextGrantFrom ready).2 := by
  induction ready generalizing s with
  | nil =>
    refine ⟨{ h with }, ?_⟩
    exact .none ⟨rfl, rfl, rfl, rfl, rfl, rfl⟩ (.inr rfl)
  | cons query ready ih =>
    unfold nextGrantFrom
    split_ifs with havailable
    · refine ⟨{ h with }, ?_⟩
      exact .none ⟨rfl, rfl, rfl, rfl, rfl, rfl⟩ (.inl havailable)
    · have hsome : (s.queries query).isSome = true :=
        (h.keys query).mp mem_cons_self
      cases hqueue : s.queries query with
      | none =>
        rw [hqueue] at hsome
        cases hsome
      | some queue =>
        have hserved := h.serve hqueue
        have hsame := serve_sameSlots s query queue ready
        simp only
        split
        · rename_i s' hserve
          have hready := serve_none_ready (congrArg Prod.snd hserve)
          rw [hserve] at hserved hsame hready
          simp only at hserved hsame hready
          rw [hready] at hserved
          obtain ⟨hqueues, hgranted⟩ := ih hserved
          refine ⟨hqueues, ?_⟩
          generalize s'.nextGrantFrom ready = result at hgranted
          rcases result with ⟨final, grant⟩
          cases hgranted with
          | none hslots hend => exact .none (hsame.trans hslots) hend
          | some hslots hfree heq => exact .some (hsame.trans hslots) hfree heq
        · rename_i s' waiter hserve
          rw [hserve] at hserved hsame
          simp only at hserved hsame
          refine ⟨?_, ?_⟩
          · exact ⟨hserved.fair, hserved.keys, hserved.nonempty, hserved.counted,
              hserved.ordered, hserved.opened⟩
          · exact .some hsame (by rw [hsame.available]; exact havailable) rfl

/-- A waiter with a new channel arrives after all others. -/
theorem Queues.arrive (h : Queues s ready) (query : Uuid)
    (hself : s'.arrivals query = s.arrivals query ++ [s.channels.length])
    (hother : ∀ q, q ≠ query → s'.arrivals q = s.arrivals q)
    (hchannels : s'.channels.length = s.channels.length + 1) :
    (∀ q, (s'.arrivals q).Pairwise (· < ·)) ∧
      ∀ q, ∀ sender ∈ s'.arrivals q, sender < s'.channels.length := by
  constructor
  · intro q
    by_cases hq : q = query
    · rw [hq, hself]
      apply pairwise_append.mpr
      refine ⟨h.ordered query, pairwise_singleton .., fun sender hsender last hlast => ?_⟩
      rw [mem_singleton.mp hlast]
      exact h.opened query sender hsender
    · rw [hother q hq]
      exact h.ordered q
  · intro q sender hsender
    rw [hchannels]
    by_cases hq : q = query
    · rw [hq, hself, mem_append, mem_singleton] at hsender
      rcases hsender with hold | hnew
      · have := h.opened query sender hold
        omega
      · omega
    · rw [hother q hq] at hsender
      have := h.opened q sender hsender
      omega

/-- A new waiter goes to the back of the queue of its query, and a query that did not wait
to the back of the ready queue. -/
theorem Queues.push (h : Queues s s.ready) (query : Uuid) (waiter : Waiter)
    (hqueries : s'.queries = setQuery s.queries query (some (s.queueOf query ++ [waiter])))
    (hgranted : s'.granted = s.granted) (hsender : waiter.sender = s.channels.length)
    (hchannels : s'.channels.length = s.channels.length + 1)
    (hcount : s'.queuedWaiters = s.queuedWaiters + 1)
    (hready : (query ∈ s.ready ∧ s'.ready = s.ready ∧ s'.turns = s.turns) ∨
      (query ∉ s.ready ∧ s'.ready = s.ready ++ [query] ∧
        s'.turns = .joined query :: s.turns)) :
    Queues s' s'.ready := by
  have hself : s'.queries query = some (s.queueOf query ++ [waiter]) := by
    rw [hqueries, setQuery_self]
  have hqueue : s'.queueOf query = s.queueOf query ++ [waiter] := by
    rw [queueOf, hself]
    rfl
  have hother : ∀ q, q ≠ query → s'.queries q = s.queries q := by
    intro q hq
    rw [hqueries, setQuery_of_ne hq]
  have harrive : (∀ q, (s'.arrivals q).Pairwise (· < ·)) ∧
      ∀ q, ∀ sender ∈ s'.arrivals q, sender < s'.channels.length := by
    apply h.arrive query _ _ hchannels
    · simp [arrivals, hqueue, hgranted, hsender]
    · intro q hq
      simp only [arrivals, queueOf, hother q hq, hgranted]
  refine h.change query hother (by simp [hself]) ?_ ?_ ?_ harrive.1 harrive.2
  · rcases hready with ⟨-, heq, hturns⟩ | ⟨hnot, heq, hturns⟩
    · rw [heq, hturns]
      exact h.fair
    · rw [heq, hturns]
      exact h.fair.join hnot
  · intro q
    rcases hready with ⟨hin, heq, -⟩ | ⟨-, heq, -⟩ <;>
      by_cases hq : q = query <;> simp [heq, hself, hq]
    exact hin
  · rw [hcount, hqueue, length_append, length_singleton]
    omega

theorem Queues.enqueue (h : Queues s s.ready) (query : Uuid) :
    Queues (s.enqueue query).1 (s.enqueue query).1.ready := by
  have hlength : (s.channels ++ [Channel.live]).length = s.channels.length + 1 := by simp
  unfold Scheduler.enqueue
  cases hqueue : s.queries query with
  | some queue =>
    refine h.push query { ticket := s.nextTicket, sender := s.channels.length } ?_ rfl rfl
      hlength rfl (.inl ⟨mem_of_queries h hqueue, rfl, rfl⟩)
    simp [queueOf, hqueue]
  | none =>
    have hnot : query ∉ s.ready := by
      rw [h.keys, hqueue]
      simp
    refine h.push query { ticket := s.nextTicket, sender := s.channels.length } ?_ rfl rfl
      hlength rfl (.inr ⟨hnot, rfl, rfl⟩)
    simp [queueOf, hqueue]

theorem length_dropSender (channels : List Channel) (sender : Nat) :
    (dropSender channels sender).length = channels.length := by
  unfold dropSender
  split
  · rw [length_set]
  · rfl

/-- A waiter leaves its queue, and a query without waiters the ready queue. -/
theorem Queues.remove (h : Queues s s.ready) (query : Uuid)
    {index : Nat} (hqueue : s.queries query = some queue)
    (hlt : index < queue.length) (hgranted : s'.granted = s.granted)
    (hchannels : s'.channels.length = s.channels.length) (hturns : s'.turns = s.turns)
    (hcount : s'.queuedWaiters = s.queuedWaiters - 1)
    (hleft : (queue.eraseIdx index = [] ∧
        s'.ready = s.ready.filter (fun queued => queued ≠ query) ∧
        s'.queries = setQuery s.queries query none) ∨
      (queue.eraseIdx index ≠ [] ∧ s'.ready = s.ready ∧
        s'.queries = setQuery s.queries query (some (queue.eraseIdx index)))) :
    Queues s' s'.ready := by
  have hmem := mem_of_queries h hqueue
  have hself : s.queueOf query = queue := by simp [queueOf, hqueue]
  have hlength := length_eraseIdx_of_lt hlt
  have hold := h.counted_erase query
  rw [hself] at hold
  have hless : s'.queuedWaiters + (s.queueOf query).length =
      s.queuedWaiters + (queue.eraseIdx index).length := by
    rw [hcount, hself]
    omega
  rcases hleft with ⟨hempty, hready, hqueries⟩ | ⟨hne, hready, hqueries⟩
  · rw [hempty] at hless
    rw [hready]
    refine h.shrink none none hqueries hgranted hchannels (nil_sublist _) (by simp) ?_ ?_ hless
    · rw [hturns]
      exact h.fair.sublist filter_sublist
    · intro q
      by_cases hq : q = query <;> simp [hq]
  · rw [hready]
    refine h.shrink (some (queue.eraseIdx index)) none hqueries hgranted hchannels ?_
      (by simpa using hne) ?_ ?_ hless
    · rw [hself]
      exact eraseIdx_sublist ..
    · rw [hturns]
      exact h.fair
    · intro q
      by_cases hq : q = query <;> simp [hq, hmem]

theorem Queues.cancelWaiter (h : Queues s s.ready) (query : Uuid)
    (ticket : Nat) :
    Queues (s.cancelWaiter query ticket) (s.cancelWaiter query ticket).ready := by
  unfold Scheduler.cancelWaiter
  cases hqueue : s.queries query with
  | none => exact h
  | some queue =>
    simp only
    cases hindex : queue.findIdx? fun waiter => waiter.ticket = ticket with
    | none => exact h
    | some index =>
      simp only
      have hlt : index < queue.length := (findIdx?_eq_some_iff_findIdx_eq.mp hindex).1
      have hlength : (queue[index]?.elim s.channels fun w => dropSender s.channels w.sender).length
          = s.channels.length := by
        cases queue[index]? with
        | none => rfl
        | some waiter => exact length_dropSender _ _
      split
      · rename_i hempty
        exact h.remove query hqueue hlt rfl hlength rfl rfl (.inl ⟨isEmpty_iff.mp hempty, rfl, rfl⟩)
      · rename_i hempty
        exact h.remove query hqueue hlt rfl hlength rfl rfl
          (.inr ⟨fun heq => hempty (isEmpty_iff.mpr heq), rfl, rfl⟩)

/-- What does not touch the queues keeps them. -/
theorem Queues.congr (h : Queues s ready)
    (hqueries : s'.queries = s.queries) (hcount : s'.queuedWaiters = s.queuedWaiters)
    (hturns : s'.turns = s.turns) (hgranted : s'.granted = s.granted)
    (hchannels : s'.channels.length = s.channels.length) : Queues s' ready := by
  have harrivals : ∀ q, s'.arrivals q = s.arrivals q := by
    intro q
    simp only [arrivals, queueOf, hqueries, hgranted]
  constructor
  · rw [hturns]
    exact h.fair
  · rw [hqueries]
    exact h.keys
  · rw [hqueries]
    exact h.nonempty
  · simp only [hcount, queueOf, hqueries]
    exact h.counted
  · intro q
    rw [harrivals]
    exact h.ordered q
  · intro q
    rw [harrivals, hchannels]
    exact h.opened q

end Scheduler

end RustDb.Runtime
