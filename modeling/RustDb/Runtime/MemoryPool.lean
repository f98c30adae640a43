import Mathlib.Data.List.Nodup
import RustDb.Execution.Error
import RustDb.Lib.Interleaving

/-!
# Memory pools

`runtime/memory.rs`.  Memory pools form a tree.  A reservation of a pool is charged to every
node from the root to that pool, one node at a time, and given back from the pool to the root;
when a node refuses, what is already charged is rolled back.  A query that waits for memory
parks on a notifier that all pools of the tree share.

* `Tree`: the pools with their parents and limits, and `Tree.ancestorsRootFirst`.
* `Pools`: the counters of the nodes, the live reservations and the notifier.
* `Thread.step`: one access to one counter, or to the notifier, by one thread.
-/

namespace RustDb.Runtime.Memory

open RustDb.Lib List
open RustDb.Execution (Error)

/-! ## The tree -/

/-- Sizes are less than this. -/
def usizeLimit : Nat := 2 ^ 64

/-- The pools of one hierarchy, numbered in the order of their creation; 0 is the root. -/
structure Tree where
  size : Nat
  name : Nat → String
  limit : Nat → Nat
  parent : Nat → Nat
  parent_lt : ∀ pool, pool ≠ 0 → parent pool < pool
  limit_lt : ∀ pool, limit pool < usizeLimit

namespace Tree

variable (tree : Tree)

/-- A pool and its ancestors, up to the root. -/
def leafFirst : Nat → Nat → List Nat
  | 0, _ => []
  | fuel + 1, pool =>
    if pool = 0 then [0] else pool :: leafFirst fuel (tree.parent pool)

/-- The pools that a reservation is charged to, from the root down. -/
def ancestorsRootFirst (pool : Nat) : List Nat := (tree.leafFirst (pool + 1) pool).reverse

variable {tree}

theorem leafFirst_of_ne {fuel pool : Nat} (h : pool ≠ 0) :
    tree.leafFirst (fuel + 1) pool = pool :: tree.leafFirst fuel (tree.parent pool) := by
  rw [leafFirst, if_neg h]

/-- Fuel past the number of the pool is not used. -/
theorem leafFirst_of_lt {fuel pool : Nat} (h : pool < fuel) :
    tree.leafFirst fuel pool = tree.leafFirst (pool + 1) pool := by
  induction pool using Nat.strong_induction_on generalizing fuel with
  | h pool ih =>
    obtain ⟨fuel, rfl⟩ : ∃ rest, fuel = rest + 1 := ⟨fuel - 1, by omega⟩
    by_cases hroot : pool = 0
    · simp [leafFirst, hroot]
    · have hparent := tree.parent_lt pool hroot
      rw [leafFirst_of_ne hroot, leafFirst_of_ne hroot, ih _ hparent (by omega),
        ih (tree.parent pool) hparent hparent]

theorem ancestorsRootFirst_zero : tree.ancestorsRootFirst 0 = [0] := rfl

theorem ancestorsRootFirst_of_ne {pool : Nat} (h : pool ≠ 0) :
    tree.ancestorsRootFirst pool = tree.ancestorsRootFirst (tree.parent pool) ++ [pool] := by
  have hparent := tree.parent_lt pool h
  rw [ancestorsRootFirst, leafFirst_of_ne h, leafFirst_of_lt hparent, reverse_cons,
    ancestorsRootFirst]

theorem le_of_mem_ancestors {pool node : Nat} (h : node ∈ tree.ancestorsRootFirst pool) :
    node ≤ pool := by
  induction pool using Nat.strong_induction_on with
  | h pool ih =>
    by_cases hroot : pool = 0
    · rw [hroot, ancestorsRootFirst_zero, mem_singleton] at h
      omega
    · have hparent := tree.parent_lt pool hroot
      rw [ancestorsRootFirst_of_ne hroot, mem_append, mem_singleton] at h
      rcases h with h | h
      · have := ih _ hparent h
        omega
      · omega

variable (tree) in
theorem nodup_ancestors (pool : Nat) : (tree.ancestorsRootFirst pool).Nodup := by
  induction pool using Nat.strong_induction_on with
  | h pool ih =>
    by_cases hroot : pool = 0
    · rw [hroot, ancestorsRootFirst_zero]
      simp
    · have hparent := tree.parent_lt pool hroot
      have hnot : pool ∉ tree.ancestorsRootFirst (tree.parent pool) := by
        intro hmem
        have := le_of_mem_ancestors hmem
        omega
      rw [ancestorsRootFirst_of_ne hroot, nodup_append]
      refine ⟨ih _ hparent, by simp, fun node hnode other hother heq => hnot ?_⟩
      rw [heq, mem_singleton.mp hother] at hnode
      exact hnode

variable (tree) in
/-- The way to a pool starts at the root. -/
theorem exists_ancestors_eq (pool : Nat) : ∃ rest, tree.ancestorsRootFirst pool = 0 :: rest := by
  induction pool using Nat.strong_induction_on with
  | h pool ih =>
    by_cases hroot : pool = 0
    · rw [hroot]
      exact ⟨[], rfl⟩
    · obtain ⟨rest, hrest⟩ := ih _ (tree.parent_lt pool hroot)
      rw [ancestorsRootFirst_of_ne hroot, hrest]
      exact ⟨rest ++ [pool], rfl⟩

end Tree

/-! ## State -/

/-- Bytes that are charged to a pool and the pools above it. -/
structure Reservation where
  pool : Nat
  bytes : Nat
deriving DecidableEq, Repr

/-- The counters of the nodes, the reservations that no call is using, and the notifier: how
often all waiters were notified, the permit for the next waiter, the waiters that are parked
and those that were notified one by one. -/
structure Pools where
  used : Nat → Nat
  emergencyHeadroom : Nat → Nat
  live : List Reservation
  notifyWaitersCalls : Nat
  permit : Bool
  waiting : List Nat
  notifiedOne : List Nat
  nextWaiter : Nat

/-- The arguments of an acquisition. -/
structure Request where
  pool : Nat
  bytes : Nat
  emergency : Bool
deriving DecidableEq, Repr

/-- What an acquisition is for: a new reservation, a larger one, or an attempt of a waiting
call, whose notification was set up after `calls` calls of `notify_waiters`. -/
inductive Purpose where
  | reserve
  | grow (reservation : Reservation)
  | wait (calls : Nat)
deriving DecidableEq, Repr

/-- Where a thread is; an idle one has the result of its last call. -/
inductive Thread where
  | idle (result : Except Error Unit)
  | acquiring (purpose : Purpose) (request : Request) (acquired todo : List Nat)
      (headroom : Option Nat)
  | rollback (purpose : Purpose) (request : Request) (error : Error) (todo : List Nat)
  | releasing (keep : Option Reservation) (bytes : Nat) (result : Except Error Unit)
      (todo : List Nat)
  | notifying (keep : Option Reservation) (result : Except Error Unit)
  | looping (request : Request)
  | polling (request : Request) (calls : Nat)
  | parked (request : Request) (waiter : Nat)

/-- What a step does not take from the state: the call that an idle thread makes, and whether
a waiting call is cancelled. -/
inductive Choice where
  | tryReserve (request : Request)
  | tryGrow (index bytes : Nat)
  | shrink (index bytes : Nat)
  | tryResize (index bytes : Nat)
  | splitOff (index bytes : Nat)
  | absorb (index other : Nat)
  | drop (index : Nat)
  | reserveWait (pool bytes heldBytes : Nat)
  | protect (pool bytes : Nat)
  | cancel
  | proceed
deriving DecidableEq, Repr

/-! ## Nodes and the notifier -/

namespace Pools

/-- No reservations and no waiters. -/
def new (emergencyHeadroom : Nat → Nat) : Pools where
  used := fun _ => 0
  emergencyHeadroom
  live := []
  notifyWaitersCalls := 0
  permit := false
  waiting := []
  notifiedOne := []
  nextWaiter := 0

/-- What ordinary requests may use of a pool. -/
def allocatableLimit (tree : Tree) (s : Pools) (node : Nat) : Nat :=
  tree.limit node - s.emergencyHeadroom node

/-- The state with another charge of a pool. -/
def setUsed (s : Pools) (node used : Nat) : Pools :=
  { s with used := fun other => if other = node then used else s.used other }

/-- A pool gets bytes back; more than it has used change nothing. -/
def releaseNode (s : Pools) (node bytes : Nat) : Pools :=
  if bytes ≤ s.used node then s.setUsed node (s.used node - bytes) else s

/-- `notify_waiters` of `tokio::sync::Notify`, by its contract: every waiter is woken, also one
that has been created and not polled yet, and no permit is stored. -/
def notifyWaiters (s : Pools) : Pools :=
  { s with notifyWaitersCalls := s.notifyWaitersCalls + 1, waiting := [] }

/-- `notify_one` of `tokio::sync::Notify`, by its contract: the first waiter is woken; without a
waiter one permit is stored. -/
def notifyOne (s : Pools) : Pools :=
  match s.waiting with
  | waiter :: waiting => { s with waiting, notifiedOne := waiter :: s.notifiedOne }
  | [] => { s with permit := true }

/-- A call has finished with a reservation. -/
def putBack (s : Pools) (reservation : Option Reservation) : Pools :=
  { s with live := reservation.toList ++ s.live }

/-- A call takes a reservation. -/
def take (s : Pools) (index : Nat) : Pools := { s with live := s.live.eraseIdx index }

end Pools

/-! ## Calls -/

namespace Thread

variable (tree : Tree)

/-- The error of a pool without room for a request. -/
def exhaustedError (node bytes used limit : Nat) : Error :=
  let name := tree.name node
  .resourceExhausted
    s!"memory pool '{name}' cannot reserve {bytes} bytes (used {used}, limit {limit})"

/-- The start of `MemoryPool::acquire`. -/
def acquire (s : Pools) (purpose : Purpose) (request : Request) : Pools × Thread :=
  (s, .acquiring purpose request [] (tree.ancestorsRootFirst request.pool) none)

/-- `MemoryPool::release` of some bytes of a reservation, of which `keep` is left. -/
def release (s : Pools) (pool : Nat) (keep : Option Reservation) (bytes : Nat)
    (result : Except Error Unit) : Pools × Thread :=
  if bytes = 0 then (s.putBack keep, .idle result)
  else (s, .releasing keep bytes result (tree.ancestorsRootFirst pool).reverse)

/-- `MemoryReservation::try_grow`. -/
def tryGrow (s : Pools) (index : Nat) (reservation : Reservation) (bytes : Nat) :
    Pools × Thread :=
  if bytes = 0 then (s, .idle (.ok ()))
  else
    acquire tree (s.take index) (.grow reservation)
      { pool := reservation.pool, bytes, emergency := false }

/-- `MemoryReservation::shrink`. -/
def shrink (s : Pools) (index : Nat) (reservation : Reservation) (bytes : Nat) :
    Pools × Thread :=
  let released := min bytes reservation.bytes
  release tree (s.take index) reservation.pool
    (some { reservation with bytes := reservation.bytes - released }) released (.ok ())

/-- A reservation is dropped and its bytes are given back. -/
def dropReservation (s : Pools) (index : Nat) (reservation : Reservation)
    (result : Except Error Unit) : Pools × Thread :=
  release tree (s.take index) reservation.pool none reservation.bytes result

/-- `MemoryReservation::split_off`. -/
def splitOff (s : Pools) (index : Nat) (reservation : Reservation) (bytes : Nat) :
    Pools × Thread :=
  if reservation.bytes < bytes then
    let size := reservation.bytes
    (s, .idle (.error (.internal
      s!"cannot split {bytes} bytes from a {size}-byte memory reservation")))
  else
    (((s.take index).putBack (some { reservation with bytes })).putBack
      (some { reservation with bytes := reservation.bytes - bytes }), .idle (.ok ()))

/-- `MemoryReservation::absorb` of the reservation `other`, which stands at the index `index`
of the others. -/
def absorb (s : Pools) (index : Nat) (reservation other : Reservation) : Pools × Thread :=
  if reservation.pool ≠ other.pool then
    dropReservation tree (s.putBack (some reservation)) (index + 1) other
      (.error (.internal "cannot transfer memory between different pools"))
  else if usizeLimit ≤ reservation.bytes + other.bytes then
    dropReservation tree (s.putBack (some reservation)) (index + 1) other
      (.error (.internal "memory reservation size overflow"))
  else
    ((s.take index).putBack
      (some { reservation with bytes := reservation.bytes + other.bytes }), .idle (.ok ()))

/-- The check of `reserve_wait` before its loop. -/
def reserveWait (s : Pools) (request : Request) (heldBytes : Nat) : Pools × Thread :=
  let single := min (request.bytes + heldBytes) (usizeLimit - 1)
  match (tree.ancestorsRootFirst request.pool).find?
      fun node => s.allocatableLimit tree node < single with
  | some node =>
    let name := tree.name node
    let bytes := request.bytes
    let limit := s.allocatableLimit tree node
    (s, .idle (.error (.resourceExhausted
      (s!"memory pool '{name}' cannot satisfy one operation requiring {bytes} workspace " ++
        s!"bytes while retaining {heldBytes} bytes (limit {limit})"))))
  | none => (s, .looping request)

/-- The call that an idle thread makes.  A call that names no pool or no live reservation does
nothing: such a handle does not exist in the source. -/
def call (s : Pools) (last : Except Error Unit) (choice : Choice) : Pools × Thread :=
  match choice with
  | .tryReserve request =>
    if tree.size ≤ request.pool then (s, .idle last)
    else if request.bytes = 0 then
      (s.putBack (some { pool := request.pool, bytes := 0 }), .idle (.ok ()))
    else acquire tree s .reserve request
  | .tryGrow index bytes =>
    match s.live[index]? with
    | some reservation => tryGrow tree s index reservation bytes
    | none => (s, .idle last)
  | .shrink index bytes =>
    match s.live[index]? with
    | some reservation => shrink tree s index reservation bytes
    | none => (s, .idle last)
  | .tryResize index bytes =>
    match s.live[index]? with
    | some reservation =>
      if reservation.bytes < bytes then
        tryGrow tree s index reservation (bytes - reservation.bytes)
      else shrink tree s index reservation (reservation.bytes - bytes)
    | none => (s, .idle last)
  | .splitOff index bytes =>
    match s.live[index]? with
    | some reservation => splitOff s index reservation bytes
    | none => (s, .idle last)
  | .absorb index other =>
    match s.live[index]? with
    | some reservation =>
      match (s.take index).live[other]? with
      | some absorbed => absorb tree (s.take index) other reservation absorbed
      | none => (s, .idle last)
    | none => (s, .idle last)
  | .drop index =>
    match s.live[index]? with
    | some reservation => dropReservation tree s index reservation (.ok ())
    | none => (s, .idle last)
  | .reserveWait pool bytes heldBytes =>
    if tree.size ≤ pool then (s, .idle last)
    else reserveWait tree s { pool, bytes, emergency := false } heldBytes
  | .protect pool bytes =>
    if tree.limit pool < bytes then
      let name := tree.name pool
      let limit := tree.limit pool
      (s, .idle (.error (.resourceExhausted
        s!"memory pool '{name}' cannot protect {bytes} emergency bytes (limit {limit})")))
    else
      ({ s with emergencyHeadroom := fun node =>
          if node = pool then max (s.emergencyHeadroom node) bytes
          else s.emergencyHeadroom node }, .idle (.ok ()))
  | .cancel => (s, .idle last)
  | .proceed => (s, .idle last)

/-! ## Steps -/

/-- `Node::acquire`, with the emergency headroom that was read. -/
def acquireNode (s : Pools) (purpose : Purpose) (request : Request) (acquired : List Nat)
    (node : Nat) (todo : List Nat) (headroom : Nat) : Pools × Thread :=
  let limit := tree.limit node - headroom
  if request.bytes ≤ limit - s.used node then
    (s.setUsed node (s.used node + request.bytes),
      .acquiring purpose request (acquired ++ [node]) todo none)
  else
    (s, .rollback purpose request (exhaustedError tree node request.bytes (s.used node) limit)
      acquired.reverse)

/-- An acquisition has charged all its nodes. -/
def acquired (s : Pools) (purpose : Purpose) (request : Request) : Pools × Thread :=
  match purpose with
  | .grow reservation =>
    (s.putBack (some { reservation with
      bytes := min (reservation.bytes + request.bytes) (usizeLimit - 1) }), .idle (.ok ()))
  | _ => (s.putBack (some { pool := request.pool, bytes := request.bytes }), .idle (.ok ()))

/-- An acquisition has failed. -/
def refused (s : Pools) (purpose : Purpose) (request : Request) (error : Error) :
    Pools × Thread :=
  match purpose with
  | .reserve => (s, .idle (.error error))
  | .grow reservation => (s.putBack (some reservation), .idle (.error error))
  | .wait calls => (s, .polling request calls)

/-- The first poll of the notification of a waiting call, by the contract of `Notified`: it is
ready if a permit is stored, which it takes, or if `notify_waiters` has been called since it was
created; otherwise it waits behind the others. -/
def poll (s : Pools) (request : Request) (calls : Nat) : Pools × Thread :=
  if s.permit then ({ s with permit := false }, .looping request)
  else if s.notifyWaitersCalls ≠ calls then (s, .looping request)
  else
    ({ s with waiting := s.waiting ++ [s.nextWaiter], nextWaiter := s.nextWaiter + 1 },
      .parked request s.nextWaiter)

/-- A parked call is cancelled, by the contract of a dropped `Notified`: it leaves the queue,
and a notification of `notify_one` that was meant for it goes to the next waiter. -/
def cancelParked (s : Pools) (waiter : Nat) : Pools × Thread :=
  let gone := { s with
    waiting := s.waiting.filter fun other => other ≠ waiter
    notifiedOne := s.notifiedOne.filter fun other => other ≠ waiter }
  (if waiter ∈ s.notifiedOne then gone.notifyOne else gone, .idle (.error .cancelled))

/-- The next step of a thread, with one access to the shared state.  A reservation charges its pools
one by one from the root, so other threads see it half made, and half taken back. -/
def step (s : Pools) (thread : Thread) (choice : Choice) : Pools × Thread :=
  match thread with
  | .idle last => call tree s last choice
  | .acquiring purpose request acquired (node :: todo) none =>
    let headroom := if request.emergency then 0 else s.emergencyHeadroom node
    (s, .acquiring purpose request acquired (node :: todo) (some headroom))
  | .acquiring purpose request acquired (node :: todo) (some headroom) =>
    acquireNode tree s purpose request acquired node todo headroom
  | .acquiring purpose request _ [] _ => acquired s purpose request
  | .rollback purpose request error (node :: todo) =>
    (s.releaseNode node request.bytes, .rollback purpose request error todo)
  | .rollback purpose request error [] => refused s purpose request error
  | .releasing keep bytes result (node :: todo) =>
    (s.releaseNode node bytes, .releasing keep bytes result todo)
  | .releasing keep _ result [] => (s.notifyWaiters, .notifying keep result)
  | .notifying keep result => (s.notifyOne.putBack keep, .idle result)
  | .looping request =>
    if choice = .cancel then (s, .idle (.error .cancelled))
    else if request.bytes = 0 then
      (s.putBack (some { pool := request.pool, bytes := 0 }), .idle (.ok ()))
    else acquire tree s (.wait s.notifyWaitersCalls) request
  | .polling request calls =>
    if choice = .cancel then (s, .idle (.error .cancelled)) else poll s request calls
  | .parked request waiter =>
    if choice = .cancel then cancelParked s waiter
    else if waiter ∈ s.waiting then (s, .parked request waiter)
    else
      ({ s with notifiedOne := s.notifiedOne.filter fun other => other ≠ waiter },
        .looping request)

end Thread

/-- The pools of a tree, used by a number of threads, after the schedule. -/
def runPools (tree : Tree) (emergencyHeadroom : Nat → Nat) (threads : Nat)
    (schedule : List (Nat × Choice)) : Threads Pools Thread :=
  runFrom (turn (Thread.step tree))
    { shared := .new emergencyHeadroom, threads := replicate threads (.idle (.ok ())) }
    schedule

end RustDb.Runtime.Memory
