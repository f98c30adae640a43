import RustDb.Runtime.MemoryPool

/-!
# Accounting of the memory pools

The counter of a node is what the live reservations of its subtree and the calls under way
have charged to it.

* `Thread.charge`: what a thread has charged to a node.
* `Thread.Shape`: the nodes that a thread has charged are a way down from the root.
* `PoolsInv`: the counters add up and are within the limits, after every step.
* `memory_accounting_is_exact`: what follows for every run.
-/

namespace RustDb.Runtime.Memory

open RustDb.Lib List Reservation Thread Pools
open RustDb.Execution (Error)

variable {tree : Tree}

/-! ## Charges -/

/-- What a reservation charges to a pool. -/
def Reservation.chargeAt (tree : Tree) (node : Nat) (reservation : Reservation) : Nat :=
  if node ∈ tree.ancestorsRootFirst reservation.pool then reservation.bytes else 0

/-- What a call that gives bytes back keeps of its reservation at a pool. -/
def keptAt (tree : Tree) (node : Nat) (keep : Option Reservation) : Nat :=
  (keep.toList.map (chargeAt tree node)).sum

/-- What the reservations that no call is using charge to a node. -/
def Pools.liveAt (tree : Tree) (node : Nat) (s : Pools) : Nat :=
  (s.live.map (chargeAt tree node)).sum

/-- What an acquisition holds already. -/
def Purpose.chargeAt (tree : Tree) (node : Nat) : Purpose → Nat
  | .grow reservation => reservation.chargeAt tree node
  | _ => 0

/-- What a call under way has charged to a node. -/
def Thread.charge (tree : Tree) (node : Nat) : Thread → Nat
  | .acquiring purpose request acquired _ _ =>
    purpose.chargeAt tree node + if node ∈ acquired then request.bytes else 0
  | .rollback purpose request _ todo =>
    purpose.chargeAt tree node + if node ∈ todo then request.bytes else 0
  | .releasing keep bytes _ todo =>
    keptAt tree node keep + if node ∈ todo then bytes else 0
  | .notifying keep _ => keptAt tree node keep
  | _ => 0

/-- A call that grows a reservation asks for bytes of its pool. -/
def Purpose.Fits (pool : Nat) : Purpose → Prop
  | .grow reservation => reservation.pool = pool
  | _ => True

/-- The nodes that a thread has charged are a way down from the root, and an acquisition is
for some bytes. -/
def Thread.Shape (tree : Tree) : Thread → Prop
  | .acquiring purpose request acquired todo _ =>
    acquired ++ todo = tree.ancestorsRootFirst request.pool ∧ purpose.Fits request.pool ∧
      request.bytes ≠ 0
  | .rollback purpose request _ todo =>
    (∃ rest, todo.reverse ++ rest = tree.ancestorsRootFirst request.pool) ∧
      purpose.Fits request.pool ∧ request.bytes ≠ 0
  | .polling request _ | .parked request _ => request.bytes ≠ 0
  | .releasing _ _ _ todo =>
    ∃ pool rest, todo.reverse ++ rest = tree.ancestorsRootFirst pool
  | _ => True

/-! ## Reservations that change hands -/

@[simp] theorem keptAt_none (node : Nat) : keptAt tree node none = 0 := rfl

@[simp] theorem keptAt_some (node : Nat) (reservation : Reservation) :
    keptAt tree node (some reservation) = reservation.chargeAt tree node := by
  simp [keptAt]

@[simp] theorem liveAt_putBack (node : Nat) (s : Pools) (keep : Option Reservation) :
    (s.putBack keep).liveAt tree node = keptAt tree node keep + s.liveAt tree node := by
  simp [liveAt, putBack, keptAt]

variable {s : Pools} {reservation : Reservation}

theorem liveAt_take (tree : Tree) {index : Nat} (h : s.live[index]? = some reservation)
    (node : Nat) :
    s.liveAt tree node =
      reservation.chargeAt tree node + (s.take index).liveAt tree node := by
  obtain ⟨hlt, rfl⟩ := List.getElem?_eq_some_iff.mp h
  have hperm := (getElem_cons_eraseIdx_perm hlt).symm
  have hsum := (hperm.map (chargeAt tree node)).sum_nat
  simpa [Pools.liveAt, Pools.take] using hsum

theorem chargeAt_add {pool : Nat} (node a b : Nat) :
    chargeAt tree node { pool, bytes := a + b } =
      chargeAt tree node { pool, bytes := a } +
        chargeAt tree node { pool, bytes := b } := by
  unfold chargeAt
  simp only
  split <;> omega

variable {bytes : Nat}

theorem chargeAt_sub (h : bytes ≤ reservation.bytes) (node : Nat) :
    reservation.chargeAt tree node =
      chargeAt tree node { reservation with bytes := reservation.bytes - bytes } +
        chargeAt tree node { reservation with bytes } := by
  rw [← chargeAt_add, Nat.sub_add_cancel h]

namespace Thread

/-- A call moves charges between its reservations and itself, and no counter changes. -/
structure Moves (tree : Tree) (s : Pools) (result : Pools × Thread) (extra : Nat → Nat) :
    Prop where
  used : result.1.used = s.used
  charges : ∀ node, result.1.liveAt tree node + result.2.charge tree node =
    s.liveAt tree node + extra node
  shape : result.2.Shape tree

theorem release_moves (s : Pools) (pool : Nat) (keep : Option Reservation) (bytes : Nat)
    (result : Except Error Unit) :
    Moves tree s (release tree s pool keep bytes result) fun node =>
      keptAt tree node keep + chargeAt tree node { pool, bytes } := by
  unfold release
  split_ifs with hzero
  · refine ⟨rfl, fun node => ?_, trivial⟩
    simp only [liveAt_putBack, charge, hzero, chargeAt]
    split <;> omega
  · refine ⟨rfl, fun node => ?_, pool, [], by simp⟩
    simp only [charge, mem_reverse, chargeAt]

variable {purpose : Purpose} {request : Request}

theorem acquire_moves (s : Pools) (hfits : purpose.Fits request.pool) (hbytes : request.bytes ≠ 0) :
    Moves tree s (acquire tree s purpose request) fun node => purpose.chargeAt tree node := by
  refine ⟨rfl, fun node => ?_, rfl, hfits, hbytes⟩
  simp [acquire, charge]

variable {s : Pools} {reservation : Reservation} {index : Nat} {result : Pools × Thread}
  {extra : Nat → Nat}

section

variable (h : s.live[index]? = some reservation)
include h

/-- A reservation that is taken and then used makes up for what it charged. -/
theorem Moves.of_take (hmoves : Moves tree (s.take index) result extra)
    (hextra : ∀ node, extra node = reservation.chargeAt tree node) :
    Moves tree s result fun _ => 0 := by
  refine ⟨hmoves.used, fun node => ?_, hmoves.shape⟩
  have htake := liveAt_take tree h node
  have hcharges := hmoves.charges node
  rw [hextra] at hcharges
  omega

theorem tryGrow_moves (bytes : Nat) :
    Moves tree s (tryGrow tree s index reservation bytes) fun _ => 0 := by
  unfold tryGrow
  split_ifs with hzero
  · exact ⟨rfl, fun node => rfl, trivial⟩
  · exact .of_take h (acquire_moves (s.take index) rfl hzero) fun node => rfl

theorem shrink_moves (bytes : Nat) :
    Moves tree s (shrink tree s index reservation bytes) fun _ => 0 := by
  unfold shrink
  refine .of_take h (release_moves ..) fun node => ?_
  rw [keptAt_some, ← chargeAt_sub (min_le_right _ _)]

theorem dropReservation_moves (result : Except Error Unit) :
    Moves tree s (dropReservation tree s index reservation result) fun _ => 0 := by
  unfold dropReservation
  refine .of_take h (release_moves ..) fun node => ?_
  rw [keptAt_none, zero_add]

theorem splitOff_moves (bytes : Nat) :
    Moves tree s (splitOff s index reservation bytes) fun _ => 0 := by
  unfold splitOff
  split_ifs with hlt
  · exact ⟨rfl, fun node => rfl, trivial⟩
  · refine ⟨rfl, fun node => ?_, trivial⟩
    have htake := liveAt_take tree h node
    have hsplit : reservation.chargeAt tree node = _ :=
      chargeAt_sub (Nat.le_of_not_lt hlt) node
    simp only [liveAt_putBack, keptAt_some, charge]
    omega

end

/-- The reservation that `absorb` was given is counted with the others. -/
theorem absorb_moves {other : Reservation} (h : s.live[index]? = some other) :
    Moves tree s (absorb tree s index reservation other) fun node =>
      reservation.chargeAt tree node := by
  have hback : (s.putBack (some reservation)).live[index + 1]? = some other := by
    simpa [putBack] using h
  have hdrop (error : Error) : Moves tree s
      (dropReservation tree (s.putBack (some reservation)) (index + 1) other (.error error))
      fun node => reservation.chargeAt tree node := by
    have hmoves : Moves tree _ _ _ := dropReservation_moves hback (.error error)
    refine ⟨hmoves.used, fun node => ?_, hmoves.shape⟩
    rw [hmoves.charges, liveAt_putBack, keptAt_some]
    omega
  unfold absorb
  split_ifs with hpool hlarge
  · exact hdrop _
  · exact hdrop _
  · refine ⟨rfl, fun node => ?_, trivial⟩
    have hsame : reservation.pool = other.pool := not_not.mp hpool
    have htake := liveAt_take tree h node
    have hsum : chargeAt tree node
        { reservation with bytes := reservation.bytes + other.bytes } =
        reservation.chargeAt tree node + other.chargeAt tree node := by
      rw [chargeAt_add, hsame]
      simp only [chargeAt, hsame]
    simp only [liveAt_putBack, keptAt_some, charge, hsum]
    omega

theorem Moves.refl (s : Pools) (last : Except Error Unit) :
    Moves tree s (s, .idle last) fun _ => 0 :=
  ⟨rfl, fun _ => rfl, trivial⟩

theorem empty_moves (s : Pools) (pool : Nat) :
    Moves tree s (s.putBack (some { pool, bytes := 0 }), .idle (.ok ())) fun _ => 0 := by
  refine ⟨rfl, fun node => ?_, trivial⟩
  simp [charge, chargeAt]

/-- The calls, with the reservations that they use. -/
theorem call_cases {P : Pools × Thread → Prop} (s : Pools) (last : Except Error Unit)
    (choice : Choice) (idle : ∀ result, P (s, .idle result))
    (reserve : ∀ request, request.pool < tree.size →
      P (if request.bytes = 0 then (s.putBack (some ⟨request.pool, 0⟩), .idle (.ok ()))
        else acquire tree s .reserve request))
    (grow : ∀ index reservation bytes, s.live[index]? = some reservation →
      P (tryGrow tree s index reservation bytes))
    (shrink : ∀ index reservation bytes, s.live[index]? = some reservation →
      P (shrink tree s index reservation bytes))
    (split : ∀ index reservation bytes, s.live[index]? = some reservation →
      P (splitOff s index reservation bytes))
    (absorb : ∀ index reservation other absorbed, s.live[index]? = some reservation →
      (s.take index).live[other]? = some absorbed →
      P (absorb tree (s.take index) other reservation absorbed))
    (drop : ∀ index reservation, s.live[index]? = some reservation →
      P (dropReservation tree s index reservation (.ok ())))
    (wait : ∀ pool bytes heldBytes, pool < tree.size →
      P (reserveWait tree s ⟨pool, bytes, false⟩ heldBytes))
    (protect : ∀ pool bytes, choice = .protect pool bytes → P (call tree s last choice)) :
    P (call tree s last choice) := by
  cases choice with
  | tryReserve request =>
    simp only [call]
    split
    · exact idle last
    · exact reserve request (by omega)
  | tryGrow index | shrink index | splitOff index | drop index =>
    simp only [call]
    split
    · first
        | exact grow index _ _ ‹_›
        | exact shrink index _ _ ‹_›
        | exact split index _ _ ‹_›
        | exact drop index _ ‹_›
    · exact idle last
  | tryResize index bytes =>
    simp only [call]
    split
    · split
      · exact grow index _ _ ‹_›
      · exact shrink index _ _ ‹_›
    · exact idle last
  | absorb index other =>
    simp only [call]
    split
    · split
      · exact absorb index _ other _ ‹_› ‹_›
      · exact idle last
    · exact idle last
  | reserveWait pool bytes heldBytes =>
    simp only [call]
    split
    · exact idle last
    · exact wait pool bytes heldBytes (by omega)
  | protect pool bytes => exact protect pool bytes rfl
  | cancel => exact idle last
  | proceed => exact idle last

theorem call_moves (s : Pools) (last : Except Error Unit) (choice : Choice) :
    Moves tree s (call tree s last choice) fun _ => 0 := by
  refine call_cases (P := (Moves tree s · fun _ => 0)) s last choice (.refl s) (fun request _ => ?_)
    (fun _ _ bytes h => tryGrow_moves h bytes) (fun _ _ bytes h => shrink_moves h bytes)
    (fun _ _ bytes h => splitOff_moves h bytes)
    (fun _ _ _ _ h hother => .of_take h (absorb_moves hother) fun _ => rfl)
    (fun _ _ h => dropReservation_moves h _) (fun pool bytes heldBytes _ => ?_)
    fun pool bytes hprotect => ?_
  · split_ifs with hzero
    · exact empty_moves s request.pool
    · exact acquire_moves s trivial hzero
  · rw [reserveWait]
    split
    · exact .refl s _
    · exact ⟨rfl, fun _ => rfl, trivial⟩
  · rw [hprotect, call]
    split_ifs with hlimit
    · exact .refl s _
    · exact ⟨rfl, fun _ => rfl, trivial⟩

/-! ## Steps -/

/-- What a step must do to the books. -/
structure Accounts (tree : Tree) (s : Pools) (thread : Thread) (result : Pools × Thread) :
    Prop where
  charges : ∀ node, result.1.liveAt tree node + result.2.charge tree node + s.used node =
    s.liveAt tree node + thread.charge tree node + result.1.used node
  within : ∀ node, result.1.used node ≤ tree.limit node
  shape : result.2.Shape tree

variable {thread : Thread}

theorem Moves.accounts (hmoves : Moves tree s result extra)
    (hextra : ∀ node, extra node = thread.charge tree node)
    (hwithin : ∀ node, s.used node ≤ tree.limit node) : Accounts tree s thread result := by
  refine ⟨fun node => ?_, fun node => ?_, hmoves.shape⟩
  · have hcharges := hmoves.charges node
    rw [hextra] at hcharges
    rw [hmoves.used]
    omega
  · rw [hmoves.used]
    exact hwithin node

variable {first : Nat} {todo : List Nat}

theorem owed_cons (node bytes : Nat) (h : (first :: todo).Nodup) :
    (if node ∈ first :: todo then bytes else 0) =
      (if node = first then bytes else 0) + if node ∈ todo then bytes else 0 := by
  by_cases heq : node = first
  · subst heq
    have hnot : node ∉ todo := (nodup_cons.mp h).1
    simp [hnot]
  · simp [heq]

variable {bytes : Nat}

theorem used_releaseNode (h : bytes ≤ s.used first) (node : Nat) :
    (s.releaseNode first bytes).used node + (if node = first then bytes else 0) =
      s.used node := by
  rw [releaseNode, if_pos h]
  simp only [setUsed]
  by_cases heq : node = first
  · subst heq
    simp only [if_true]
    omega
  · simp [heq]

@[simp] theorem liveAt_releaseNode (s : Pools) (first bytes node : Nat) :
    (s.releaseNode first bytes).liveAt tree node = s.liveAt tree node := by
  unfold releaseNode
  split <;> rfl

variable {pool : Nat}

/-- The way to a node that a thread still has to give back has no node twice. -/
theorem nodup_of_ancestors {rest : List Nat}
    (h : todo.reverse ++ rest = tree.ancestorsRootFirst pool) : todo.Nodup := by
  have hnodup := tree.nodup_ancestors pool
  rw [← h] at hnodup
  exact nodup_reverse.mp (nodup_append.mp hnodup).1

variable {done : List Nat} {node : Nat}

/-- The next node on the way down is not charged yet. -/
theorem next_not_mem (h : done ++ node :: todo = tree.ancestorsRootFirst pool) : node ∉ done := by
  have hnodup := tree.nodup_ancestors pool
  rw [← h] at hnodup
  intro hmem
  exact (nodup_append.mp hnodup).2.2 node hmem node (by simp) rfl

/-- Giving back at one node, in a release as in a rollback. -/
theorem releaseNode_accounts {next : Thread} {base : Nat → Nat} (hnodup : (first :: todo).Nodup)
    (hthread : ∀ node, thread.charge tree node =
      base node + if node ∈ first :: todo then bytes else 0)
    (hnext : ∀ node, next.charge tree node = base node + if node ∈ todo then bytes else 0)
    (hshape : next.Shape tree) (hcharge : ∀ node, thread.charge tree node ≤ s.used node)
    (hwithin : ∀ node, s.used node ≤ tree.limit node) :
    bytes ≤ s.used first ∧ Accounts tree s thread (s.releaseNode first bytes, next) := by
  have hheld : bytes ≤ s.used first := by
    have hfirst := hcharge first
    rw [hthread, if_pos mem_cons_self] at hfirst
    omega
  refine ⟨hheld, fun node => ?_, fun node => ?_, hshape⟩
  · have hused := used_releaseNode hheld node
    have hcons := owed_cons node bytes hnodup
    simp only [liveAt_releaseNode, hthread, hnext, hcons]
    omega
  · have hused := used_releaseNode hheld node
    have hlimit := hwithin node
    simp only
    omega

theorem acquireNode_accounts {headroom : Nat}
    (hshape : (acquiring purpose request done (node :: todo) (some headroom)).Shape tree)
    (hwithin : ∀ node, s.used node ≤ tree.limit node) :
    Accounts tree s (.acquiring purpose request done (node :: todo) (some headroom))
      (acquireNode tree s purpose request done node todo headroom) := by
  obtain ⟨hpath, hfits, hbytes⟩ := hshape
  unfold acquireNode
  by_cases hroom : request.bytes ≤ tree.limit node - headroom - s.used node
  · simp only [if_pos hroom]
    have hnot : node ∉ done := next_not_mem hpath
    refine ⟨fun other => ?_, fun other => ?_, by simpa using hpath, hfits, hbytes⟩
    · simp only [charge, setUsed, liveAt, mem_append, mem_singleton]
      by_cases heq : other = node
      · subst heq
        simp only [hnot, false_or, if_true, if_false]
        omega
      · simp only [heq, or_false, if_false]
    · simp only [setUsed]
      have hother := hwithin other
      by_cases heq : other = node
      · subst heq
        simp only [if_true]
        omega
      · simpa only [heq, if_false] using hother
  · simp only [if_neg hroom]
    refine ⟨fun other => ?_, hwithin, ⟨node :: todo, by simpa using hpath⟩, hfits, hbytes⟩
    simp only [charge, mem_reverse]

/-- A reservation that has grown is charged for what it had and what it got, which no pool
could hold if it did not fit a machine word. -/
theorem acquired_moves {headroom : Option Nat}
    (hshape : (acquiring purpose request done [] headroom).Shape tree)
    (hroot : (acquiring purpose request done [] headroom).charge tree 0 ≤ tree.limit 0) :
    Moves tree s (acquired s purpose request) fun node =>
      (acquiring purpose request done [] headroom).charge tree node := by
  obtain ⟨hpath, hfits, -⟩ := hshape
  rw [append_nil] at hpath
  have hnew : Moves tree s
      (s.putBack (some { pool := request.pool, bytes := request.bytes }), .idle (.ok ()))
      fun node => if node ∈ done then request.bytes else 0 := by
    refine ⟨rfl, fun node => ?_, trivial⟩
    simp only [liveAt_putBack, keptAt_some, charge, hpath, chargeAt]
    omega
  cases purpose with
  | reserve | wait calls => simpa [acquired, charge, Purpose.chargeAt] using hnew
  | grow reservation =>
    have hpool : reservation.pool = request.pool := hfits
    obtain ⟨rest, hrest⟩ := tree.exists_ancestors_eq request.pool
    have hfit : reservation.bytes + request.bytes ≤ usizeLimit - 1 := by
      have hlimit := tree.limit_lt 0
      simp only [charge, Purpose.chargeAt, chargeAt, hpath, hpool, hrest,
        mem_cons, true_or, if_true] at hroot
      omega
    refine ⟨rfl, fun node => ?_, trivial⟩
    simp only [acquired, liveAt_putBack, keptAt_some, charge, Purpose.chargeAt,
      min_eq_left hfit, chargeAt, hpool, hpath]
    split <;> omega

theorem refused_moves {error : Error} (hbytes : request.bytes ≠ 0) :
    Moves tree s (refused s purpose request error) fun node => purpose.chargeAt tree node := by
  cases purpose with
  | reserve => exact ⟨rfl, fun _ => rfl, trivial⟩
  | wait calls => exact ⟨rfl, fun _ => rfl, hbytes⟩
  | grow reservation =>
    refine ⟨rfl, fun node => ?_, trivial⟩
    simp only [refused, liveAt_putBack, keptAt_some, charge, Purpose.chargeAt]
    omega

/-- What a thread gives back in its next step: the node and the bytes. -/
def nextRelease : Thread → Option (Nat × Nat)
  | .rollback _ request _ (node :: _) => some (node, request.bytes)
  | .releasing _ bytes _ (node :: _) => some (node, bytes)
  | _ => none

theorem poll_moves (s : Pools) (hbytes : request.bytes ≠ 0) (calls : Nat) :
    Moves tree s (poll s request calls) fun _ => 0 := by
  unfold poll
  split_ifs with hpermit hcalls
  · exact ⟨rfl, fun _ => rfl, trivial⟩
  · exact ⟨rfl, fun _ => rfl, trivial⟩
  · exact ⟨rfl, fun _ => rfl, hbytes⟩

@[simp] theorem liveAt_notifyOne (s : Pools) (node : Nat) :
    s.notifyOne.liveAt tree node = s.liveAt tree node := by
  unfold notifyOne
  split <;> rfl

@[simp] theorem used_notifyOne (s : Pools) : s.notifyOne.used = s.used := by
  unfold notifyOne
  split <;> rfl

theorem cancelParked_moves (s : Pools) (waiter : Nat) :
    Moves tree s (cancelParked s waiter) fun _ => 0 := by
  unfold cancelParked
  split_ifs with hmem
  · simp only []
    exact ⟨used_notifyOne _, fun _ => liveAt_notifyOne _ _, trivial⟩
  · simp only []
    exact ⟨rfl, fun _ => rfl, trivial⟩

/-- Every step keeps the books, and gives back no more than is charged. -/
theorem step_accounts (choice : Choice) (hshape : thread.Shape tree)
    (hcharge : ∀ node, thread.charge tree node ≤ s.used node)
    (hwithin : ∀ node, s.used node ≤ tree.limit node) :
    Accounts tree s thread (step tree s thread choice) := by
  cases thread with
  | idle last => exact (call_moves s last choice).accounts (fun _ => rfl) hwithin
  | acquiring purpose request done todo headroom =>
    cases todo with
    | nil =>
      have hroot := le_trans (hcharge 0) (hwithin 0)
      exact (acquired_moves hshape hroot).accounts (fun _ => rfl) hwithin
    | cons node todo =>
      cases headroom with
      | none => exact ⟨fun _ => rfl, hwithin, hshape⟩
      | some headroom => exact acquireNode_accounts hshape hwithin
  | rollback purpose request error todo =>
    obtain ⟨⟨rest, hrest⟩, hfits, hbytes⟩ := hshape
    cases todo with
    | nil => exact (refused_moves hbytes).accounts (fun _ => rfl) hwithin
    | cons node todo =>
      have hnext : (rollback purpose request error todo).Shape tree :=
        ⟨⟨node :: rest, by simpa using hrest⟩, hfits, hbytes⟩
      exact (releaseNode_accounts (nodup_of_ancestors hrest) (fun _ => rfl) (fun _ => rfl)
        hnext hcharge hwithin).2
  | releasing keep bytes result todo =>
    obtain ⟨pool, rest, hrest⟩ := hshape
    cases todo with
    | nil => exact ⟨fun _ => rfl, hwithin, trivial⟩
    | cons node todo =>
      have hnext : (releasing keep bytes result todo).Shape tree :=
        ⟨pool, node :: rest, by simpa using hrest⟩
      exact (releaseNode_accounts (nodup_of_ancestors hrest) (fun _ => rfl) (fun _ => rfl)
        hnext hcharge hwithin).2
  | notifying keep result =>
    have hmoves : Moves tree s (s.notifyOne.putBack keep, .idle result) fun node =>
        keptAt tree node keep := by
      refine ⟨used_notifyOne s, fun node => ?_, trivial⟩
      simp only [liveAt_putBack, charge, liveAt_notifyOne]
      omega
    exact hmoves.accounts (fun _ => rfl) hwithin
  | looping request =>
    simp only [step]
    split_ifs with hcancel hzero
    · exact (Moves.refl s _).accounts (fun _ => rfl) hwithin
    · exact (empty_moves s request.pool).accounts (fun _ => rfl) hwithin
    · have hmoves : Moves tree s (acquire tree s (.wait s.notifyWaitersCalls) request) _ :=
        acquire_moves s trivial hzero
      exact hmoves.accounts (fun _ => rfl) hwithin
  | polling request calls =>
    simp only [step]
    split_ifs with hcancel
    · exact (Moves.refl s _).accounts (fun _ => rfl) hwithin
    · exact (poll_moves s hshape calls).accounts (fun _ => rfl) hwithin
  | parked request waiter =>
    simp only [step]
    split_ifs with hcancel hwaiting
    · exact (cancelParked_moves s waiter).accounts (fun _ => rfl) hwithin
    · exact ⟨fun _ => rfl, hwithin, hshape⟩
    · exact ⟨fun _ => rfl, hwithin, trivial⟩

end Thread

/-! ## Runs -/

/-- The books of the pools. -/
structure PoolsInv (tree : Tree) (c : Threads Pools Thread) : Prop where
  shape : ∀ thread ∈ c.threads, thread.Shape tree
  balance : ∀ node,
    c.shared.liveAt tree node + (c.threads.map (Thread.charge tree node)).sum =
      c.shared.used node
  within : ∀ node, c.shared.used node ≤ tree.limit node

namespace PoolsInv

variable {c : Threads Pools Thread} {thread : Thread}

theorem charge_le (h : PoolsInv tree c) (hthread : thread ∈ c.threads) (node : Nat) :
    thread.charge tree node ≤ c.shared.used node := by
  have hmem : thread.charge tree node ≤ (c.threads.map (charge tree node)).sum :=
    le_sum_of_mem (mem_map_of_mem hthread)
  have hbalance := h.balance node
  omega

theorem accounts (h : PoolsInv tree c) (hthread : thread ∈ c.threads) (choice : Choice) :
    Thread.Accounts tree c.shared thread (Thread.step tree c.shared thread choice) :=
  step_accounts choice (h.shape thread hthread) (h.charge_le hthread) h.within

theorem turn (h : PoolsInv tree c) (e : Nat × Choice) :
    PoolsInv tree (turn (Thread.step tree) c e) := by
  have hstep (thread : Thread) (hget : c.threads[e.1]? = some thread) :=
    h.accounts (mem_of_getElem? hget) e.2
  refine ⟨?_, fun node => ?_, fun node => ?_⟩
  · exact @forall_turn _ _ _ _ _ (fun _ thread => thread.Shape tree) h.shape e
      (fun thread hget => (hstep thread hget).shape) fun other _ _ hother => h.shape other hother
  · exact balance_turn (f := liveAt tree node) (g := charge tree node)
      (h := fun s => s.used node) e (h.balance node)
      fun thread hget => (hstep thread hget).charges node
  · cases hget : c.threads[e.1]? with
    | none =>
      rw [turn_of_none hget]
      exact h.within node
    | some thread =>
      rw [turn_of_some hget]
      exact (hstep thread hget).within node

end PoolsInv

theorem poolsInv_runPools (tree : Tree) (emergencyHeadroom : Nat → Nat) (threads : Nat)
    (schedule : List (Nat × Choice)) :
    PoolsInv tree (runPools tree emergencyHeadroom threads schedule) := by
  apply runFrom_invariant _ fun _ e hc => hc.turn e
  refine ⟨fun thread hthread => ?_, fun node => ?_, fun node => Nat.zero_le _⟩
  · rw [eq_of_mem_replicate hthread]
    trivial
  · simp [liveAt, new, charge]

/-! ## The result -/

/-- An acquisition or a release is under way. -/
def Thread.InProgress : Thread → Prop
  | .acquiring .. | .rollback .. | .releasing .. | .notifying .. => True
  | _ => False

instance : DecidablePred Thread.InProgress
  | .acquiring .. | .rollback .. | .releasing .. | .notifying .. => isTrue trivial
  | .idle _ | .looping _ | .polling .. | .parked .. => isFalse id

variable {thread : Thread}

theorem Thread.charge_of_not_inProgress (h : ¬ thread.InProgress) (node : Nat) :
    thread.charge tree node = 0 := by
  cases thread <;> first | rfl | exact absurd trivial h

variable {node : Nat}

theorem PoolsInv.release_le {c : Threads Pools Thread} (h : PoolsInv tree c)
    (hthread : thread ∈ c.threads) (hnext : thread.nextRelease = some (node, bytes)) :
    bytes ≤ c.shared.used node := by
  have hcharge := h.charge_le hthread node
  cases thread with
  | rollback purpose request error todo | releasing keep size result todo =>
    cases todo with
    | nil => cases hnext
    | cons first todo =>
      cases hnext
      simp only [charge, mem_cons_self, if_true] at hcharge
      omega
  | _ => cases hnext

theorem liveAt_eq_sum_filter (s : Pools) (node : Nat) :
    s.liveAt tree node =
      ((s.live.filter fun reservation =>
        node ∈ tree.ancestorsRootFirst reservation.pool).map Reservation.bytes).sum := by
  unfold liveAt
  induction s.live with
  | nil => rfl
  | cons reservation live ih =>
    rw [map_cons, sum_cons, ih, filter_cons, chargeAt]
    by_cases hmem : node ∈ tree.ancestorsRootFirst reservation.pool
    · simp [hmem]
    · simp [hmem]

/-- A node that takes an acquisition has room for it below the limit that the thread saw. -/
theorem Thread.used_acquireNode {purpose : Purpose} {request : Request} {done todo : List Nat}
    {headroom : Nat} (hbytes : request.bytes ≠ 0)
    (h : (acquireNode tree s purpose request done node todo headroom).2 =
      .acquiring purpose request (done ++ [node]) todo none) :
    (acquireNode tree s purpose request done node todo headroom).1.used node ≤
      tree.limit node - headroom := by
  unfold acquireNode at h ⊢
  by_cases hroom : request.bytes ≤ tree.limit node - headroom - s.used node
  · simp only [if_pos hroom, setUsed, if_true]
    omega
  · simp only [if_neg hroom] at h
    cases h

/-- A pool of a query below the pool of the engine. -/
def twoPools : Tree where
  size := 2
  name := fun pool => if pool = 0 then "engine" else "query"
  limit := fun pool => if pool = 0 then 100 else 60
  parent := fun _ => 0
  parent_lt := fun _ h => Nat.pos_of_ne_zero h
  limit_lt := fun pool => by
    by_cases h : pool = 0
    · simp [h, usizeLimit]
    · simp [h, usizeLimit]

/-- Two reservations, with a refused one of another thread in between. -/
def twoPoolsSchedule : List (Nat × Choice) :=
  [(0, .tryReserve ⟨1, 40, false⟩), (1, .tryReserve ⟨1, 30, false⟩)] ++
    List.replicate 5 (0, .proceed) ++ List.replicate 6 (1, .proceed) ++
    [(0, .tryReserve ⟨0, 20, false⟩)] ++ List.replicate 3 (0, .proceed)

end RustDb.Runtime.Memory
