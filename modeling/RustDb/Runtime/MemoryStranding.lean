import Mathlib.Data.Nat.Find
import RustDb.Runtime.MemoryWaiters

/-!
# A waiter that is stranded

An acquisition that a pool below the root refuses has charged the root in the meantime.  A
call that finds the root full then parks, and the rollback, which makes room at the root
again, notifies nobody.

* `Alone`: what one thread can do by itself.
* `alone_acquire`, `alone_giveBack`: the walks down to a pool and back.
* `exists_stranded`: the waiter that is left, in every tree where a pool below the root can
  refuse what the root took.
* `waiters_are_stranded_unless_root_binds`: exactly these trees.
-/

namespace RustDb.Runtime.Memory

open RustDb.Lib List Thread Pools
open RustDb.Execution (Error)

variable {tree : Tree}

/-! ## One thread by itself -/

/-- One thread can go from one state to another by itself. -/
def Alone (tree : Tree) (s : Pools) (thread : Thread) (s' : Pools) (thread' : Thread) : Prop :=
  ∃ choices : List Choice, (∀ choice ∈ choices, ∀ pool bytes, choice ≠ .protect pool bytes) ∧
    solo (step tree) s thread choices = (s', thread')

section

variable {s s' s'' : Pools} {thread thread' thread'' : Thread}

theorem Alone.refl (s : Pools) (thread : Thread) : Alone tree s thread s thread :=
  ⟨[], fun _ hmem => absurd hmem not_mem_nil, rfl⟩

theorem Alone.trans (h : Alone tree s thread s' thread')
    (h' : Alone tree s' thread' s'' thread'') : Alone tree s thread s'' thread'' := by
  obtain ⟨choices, hstatic, hrun⟩ := h
  obtain ⟨choices', hstatic', hrun'⟩ := h'
  refine ⟨choices ++ choices', fun choice hmem => ?_, ?_⟩
  · rcases mem_append.mp hmem with hmem | hmem
    · exact hstatic choice hmem
    · exact hstatic' choice hmem
  · rw [solo, runFrom_append]
    rw [solo] at hrun
    rw [hrun]
    exact hrun'

theorem Alone.step {choice : Choice} (hstatic : ∀ pool bytes, choice ≠ .protect pool bytes)
    (h : step tree s thread choice = (s', thread')) :
    Alone tree s thread s' thread' := by
  refine ⟨[choice], fun other hmem => ?_, h⟩
  rw [mem_singleton.mp hmem]
  exact hstatic

theorem Alone.proceed (h : Thread.step tree s thread .proceed = (s', thread')) :
    Alone tree s thread s' thread' :=
  .step (fun _ _ => Choice.noConfusion) h

theorem Alone.next (h : Alone tree (Thread.step tree s thread .proceed).1
    (Thread.step tree s thread .proceed).2 s' thread') : Alone tree s thread s' thread' :=
  (Alone.proceed rfl).trans h

end

/-- The threads can go from one state to another. -/
def Reaches (tree : Tree) (c c' : Threads Pools Thread) : Prop :=
  ∃ schedule, Static schedule ∧ runFrom (turn (step tree)) c schedule = c'

theorem Reaches.trans {c c' c'' : Threads Pools Thread} (h : Reaches tree c c')
    (h' : Reaches tree c' c'') : Reaches tree c c'' := by
  obtain ⟨schedule, hstatic, hrun⟩ := h
  obtain ⟨schedule', hstatic', hrun'⟩ := h'
  refine ⟨schedule ++ schedule', fun e hmem => ?_, ?_⟩
  · rcases mem_append.mp hmem with hmem | hmem
    · exact hstatic e hmem
    · exact hstatic' e hmem
  · rw [runFrom_append, hrun, hrun']

theorem Alone.reaches {c : Threads Pools Thread} {s' : Pools} {thread thread' : Thread}
    {i : Nat} (h : Alone tree c.shared thread s' thread')
    (hget : c.threads[i]? = some thread) :
    Reaches tree c { shared := s', threads := c.threads.set i thread' } := by
  obtain ⟨choices, hstatic, hrun⟩ := h
  refine ⟨choices.map fun choice => (i, choice), fun e hmem => ?_, ?_⟩
  · obtain ⟨choice, hchoice, rfl⟩ := mem_map.mp hmem
    exact hstatic choice hchoice
  · rw [run_solo hget, hrun]

/-! ## The walks -/

namespace Pools

/-- The bytes are charged to some pools at once. -/
def charge (s : Pools) (nodes : List Nat) (bytes : Nat) : Pools :=
  { s with used := fun node => s.used node + if node ∈ nodes then bytes else 0 }

/-- The bytes are given back by some pools at once. -/
def discharge (s : Pools) (nodes : List Nat) (bytes : Nat) : Pools :=
  { s with used := fun node => s.used node - if node ∈ nodes then bytes else 0 }

theorem charge_nil (s : Pools) (bytes : Nat) : s.charge [] bytes = s := by
  simp [charge]

theorem charge_zero (s : Pools) (nodes : List Nat) : s.charge nodes 0 = s := by
  simp [charge]

theorem discharge_nil (s : Pools) (bytes : Nat) : s.discharge [] bytes = s := by
  simp [discharge]

variable {node bytes : Nat} {nodes : List Nat}

theorem charge_setUsed (s : Pools) (h : node ∉ nodes) :
    (s.setUsed node (s.used node + bytes)).charge nodes bytes =
      s.charge (node :: nodes) bytes := by
  simp only [charge, setUsed, mem_cons]
  congr 1
  funext other
  by_cases heq : other = node
  · simp [heq, h]
  · simp [heq]

theorem discharge_setUsed (s : Pools) (h : node ∉ nodes) :
    (s.setUsed node (s.used node - bytes)).discharge nodes bytes =
      s.discharge (node :: nodes) bytes := by
  simp only [discharge, setUsed, mem_cons]
  congr 1
  funext other
  by_cases heq : other = node
  · simp [heq, h]
  · simp [heq]

end Pools

/-- The headroom that an acquisition leaves alone. -/
def Request.headroom (s : Pools) (request : Request) (node : Nat) : Nat :=
  if request.emergency then 0 else s.emergencyHeadroom node

variable {s : Pools} {purpose : Purpose} {request : Request}

/-- The walk down to a pool that has room at every node. -/
theorem alone_acquire {done todo rest : List Nat} (hnodup : todo.Nodup) (hroom : ∀ node ∈ todo,
      request.bytes ≤ tree.limit node - request.headroom s node - s.used node) :
    Alone tree s (.acquiring purpose request done (todo ++ rest) none)
      (s.charge todo request.bytes)
      (.acquiring purpose request (done ++ todo) rest none) := by
  induction todo generalizing s done with
  | nil =>
    rw [charge_nil, nil_append, append_nil]
    exact .refl s _
  | cons node todo ih =>
    obtain ⟨hnot, hnodup⟩ := nodup_cons.mp hnodup
    have htake : acquireNode tree s purpose request done node (todo ++ rest)
        (request.headroom s node) = (s.setUsed node (s.used node + request.bytes),
          .acquiring purpose request (done ++ [node]) (todo ++ rest) none) :=
      if_pos (hroom node mem_cons_self)
    have hnext := @ih (s.setUsed node (s.used node + request.bytes)) (done ++ [node]) hnodup (by
        intro other hother
        have hne : other ≠ node := fun heq => hnot (heq ▸ hother)
        simp only [setUsed, if_neg hne]
        exact hroom other (mem_cons_of_mem node hother))
    rw [charge_setUsed s hnot, append_assoc] at hnext
    exact .next (.trans (.proceed htake) hnext)

variable {last : Except Error Unit} {bytes : Nat}

/-- The way back, in a rollback and in a release. -/
theorem alone_giveBack {todo : List Nat} (thread : List Nat → Thread)
    (hstep : ∀ s node todo, step tree s (thread (node :: todo)) .proceed =
      (s.releaseNode node bytes, thread todo)) (hnodup : todo.Nodup)
    (hheld : ∀ node ∈ todo, bytes ≤ s.used node) :
    Alone tree s (thread todo) (s.discharge todo bytes) (thread []) := by
  induction todo generalizing s with
  | nil =>
    rw [discharge_nil]
    exact .refl s _
  | cons node todo ih =>
    obtain ⟨hnot, hnodup⟩ := nodup_cons.mp hnodup
    have hfirst : Alone tree s (thread (node :: todo))
        (s.setUsed node (s.used node - bytes)) (thread todo) := by
      apply Alone.proceed
      rw [hstep, releaseNode, if_pos (hheld node mem_cons_self)]
    have hnext := @ih (s.setUsed node (s.used node - bytes)) hnodup (by
      intro other hother
      have hne : other ≠ node := fun heq => hnot (heq ▸ hother)
      simp only [setUsed, if_neg hne]
      exact hheld other (mem_cons_of_mem node hother))
    rw [discharge_setUsed s hnot] at hnext
    exact hfirst.trans hnext

/-- A node that has no room refuses. -/
theorem alone_refused {done todo : List Nat} {node : Nat}
    (hfull : ¬ request.bytes ≤ tree.limit node - request.headroom s node - s.used node) :
    ∃ error, Alone tree s (.acquiring purpose request done (node :: todo) none) s
      (.rollback purpose request error done.reverse) :=
  ⟨_, .next (.proceed (if_neg hfull))⟩

/-! ## Calls -/

/-- A reservation of a pool that has room at every node. -/
theorem alone_tryReserve (hsize : request.pool < tree.size)
    (hroom : ∀ node ∈ tree.ancestorsRootFirst request.pool,
      request.bytes ≤ tree.limit node - request.headroom s node - s.used node) :
    Alone tree s (.idle last)
      ((s.charge (tree.ancestorsRootFirst request.pool) request.bytes).putBack
        (some { pool := request.pool, bytes := request.bytes }))
      (.idle (.ok ())) := by
  have hstatic : ∀ pool bytes, Choice.tryReserve request ≠ .protect pool bytes :=
    fun _ _ => Choice.noConfusion
  by_cases hzero : request.bytes = 0
  · apply Alone.step hstatic
    simp only [step, call]
    rw [if_neg (not_le.mpr hsize), if_pos hzero, hzero, charge_zero]
  · have hstart : Alone tree s (.idle last) s
        (.acquiring .reserve request [] (tree.ancestorsRootFirst request.pool ++ []) none) := by
      apply Alone.step hstatic
      simp only [step, call]
      rw [if_neg (not_le.mpr hsize), if_neg hzero, append_nil]
      rfl
    have hwalk := hstart.trans (alone_acquire (tree.nodup_ancestors request.pool) hroom)
    exact hwalk.trans (.proceed rfl)

/-- The drop of a reservation while nobody is parked. -/
theorem alone_drop {pool bytes : Nat} {live : List Reservation}
    (hlive : s.live = .mk pool bytes :: live) (hwaiting : s.waiting = [])
    (hheld : ∀ node ∈ tree.ancestorsRootFirst pool, bytes ≤ s.used node) :
    ∃ s', Alone tree s (.idle last) s' (.idle (.ok ())) ∧
      s'.used = (s.discharge (tree.ancestorsRootFirst pool) bytes).used ∧ s'.live = live ∧
      s'.waiting = [] ∧ s'.emergencyHeadroom = s.emergencyHeadroom := by
  have hget : s.live[0]? = some (.mk pool bytes) := by rw [hlive]; rfl
  have htake : (s.take 0).live = live := by rw [Pools.take, hlive]; rfl
  have hcall : step tree s (.idle last) (.drop 0) =
      release tree (s.take 0) pool none bytes (.ok ()) := by
    simp only [step, call, hget, dropReservation]
  have hstatic : ∀ pool bytes, Choice.drop 0 ≠ .protect pool bytes :=
    fun _ _ => Choice.noConfusion
  by_cases hzero : bytes = 0
  · refine ⟨(s.take 0).putBack none, .step hstatic ?_, ?_, htake, hwaiting, rfl⟩
    · rw [hcall, release, if_pos hzero]
    · funext node
      simp [Pools.putBack, Pools.take, Pools.discharge, hzero]
  · have hstart : Alone tree s (.idle last) (s.take 0)
        (.releasing none bytes (.ok ()) (tree.ancestorsRootFirst pool).reverse) := by
      apply Alone.step hstatic
      rw [hcall, release, if_neg hzero]
    have hwalk : Alone tree (s.take 0)
        (.releasing none bytes (.ok ()) (tree.ancestorsRootFirst pool).reverse)
        ((s.take 0).discharge (tree.ancestorsRootFirst pool).reverse bytes)
        (.releasing none bytes (.ok ()) []) :=
      alone_giveBack (.releasing none bytes (.ok ())) (fun _ _ _ => rfl)
        (nodup_reverse.mpr (tree.nodup_ancestors pool))
        fun node hnode => hheld node (mem_reverse.mp hnode)
    refine ⟨_, ((hstart.trans hwalk).trans (.proceed rfl)).trans (.proceed rfl), ?_, ?_, ?_, ?_⟩
    · funext node
      simp [Pools.notifyOne, Pools.notifyWaiters, Pools.putBack, Pools.take, Pools.discharge]
    · exact htake
    · rfl
    · rfl

/-- An attempt of a waiting call that finds the root full. -/
theorem alone_attempt (hbytes : bytes ≠ 0)
    (hfull : ¬ bytes ≤ tree.limit 0 - s.emergencyHeadroom 0 - s.used 0) :
    Alone tree s (.looping { pool := 0, bytes, emergency := false }) s
      (.polling { pool := 0, bytes, emergency := false } s.notifyWaitersCalls) := by
  have hstart : Alone tree s (.looping { pool := 0, bytes, emergency := false }) s
      (.acquiring (.wait s.notifyWaitersCalls) { pool := 0, bytes, emergency := false } [] [0]
        none) := by
    apply Alone.proceed
    simp only [step]
    rw [if_neg Choice.noConfusion, if_neg hbytes]
    rfl
  obtain ⟨error, hrefused⟩ : ∃ error, Alone tree s
      (.acquiring (.wait s.notifyWaitersCalls) { pool := 0, bytes, emergency := false } [] [0]
        none) s (.rollback (.wait s.notifyWaitersCalls) _ error []) := alone_refused hfull
  exact (hstart.trans hrefused).trans (.proceed rfl)

/-- A call that waits for the root while it is full parks. -/
theorem alone_reserveWait (hsize : 0 < tree.size)
    (hbytes : bytes ≠ 0) (hlimit : bytes ≤ tree.limit 0 - s.emergencyHeadroom 0)
    (hfull : ¬ bytes ≤ tree.limit 0 - s.emergencyHeadroom 0 - s.used 0) :
    ∃ s' waiter, Alone tree s (.idle last) s'
        (.parked { pool := 0, bytes, emergency := false } waiter) ∧
      waiter ∈ s'.waiting ∧ s'.used = s.used ∧ s'.emergencyHeadroom = s.emergencyHeadroom := by
  have hcall : Alone tree s (.idle last) s (.looping { pool := 0, bytes, emergency := false }) := by
    have hstatic : ∀ pool size, Choice.reserveWait 0 bytes 0 ≠ .protect pool size :=
      fun _ _ => Choice.noConfusion
    apply Alone.step hstatic
    have hsingle : ¬ s.allocatableLimit tree 0 < min (bytes + 0) (usizeLimit - 1) := by
      rw [allocatableLimit]
      omega
    simp only [step, call]
    rw [if_neg (not_le.mpr hsize), reserveWait, Tree.ancestorsRootFirst_zero]
    simp only [find?, decide_eq_false hsingle]
  have hpark (s : Pools) (hpermit : s.permit = false) :
      Alone tree s (.polling { pool := 0, bytes, emergency := false } s.notifyWaitersCalls)
        { s with waiting := s.waiting ++ [s.nextWaiter], nextWaiter := s.nextWaiter + 1 }
        (.parked { pool := 0, bytes, emergency := false } s.nextWaiter) := by
    apply Alone.proceed
    simp only [step, poll, hpermit]
    simp
  have hfirst := hcall.trans (alone_attempt hbytes hfull)
  cases hpermit : s.permit with
  | false =>
    exact ⟨_, _, hfirst.trans (hpark s hpermit), by simp, rfl, rfl⟩
  | true =>
    -- the permit of an earlier release is for a second attempt
    have hpoll : Alone tree s
        (.polling { pool := 0, bytes, emergency := false } s.notifyWaitersCalls)
        { s with permit := false } (.looping { pool := 0, bytes, emergency := false }) := by
      apply Alone.proceed
      simp only [step, poll, hpermit]
      simp
    have hsecond : Alone tree { s with permit := false }
        (.looping { pool := 0, bytes, emergency := false }) { s with permit := false }
        (.polling { pool := 0, bytes, emergency := false } s.notifyWaitersCalls) :=
      alone_attempt hbytes hfull
    exact ⟨_, _, ((hfirst.trans hpoll).trans hsecond).trans (hpark _ rfl), by simp, rfl, rfl⟩

/-! ## The stranded waiter -/

section

variable {emergencyHeadroom : Nat → Nat} {pool : Nat}

/-- The first pool below the root that can refuse what the root took. -/
structure Refuses (tree : Tree) (emergencyHeadroom : Nat → Nat) (pool : Nat) : Prop where
  ne_root : pool ≠ 0
  size : pool < tree.size
  small : tree.limit pool - emergencyHeadroom pool < tree.limit 0
  least : ∀ node, node ≠ 0 → node < pool →
    tree.limit 0 ≤ tree.limit node - emergencyHeadroom node

theorem exists_refuses (h : ¬ RootBinds tree emergencyHeadroom) :
    tree.limit 0 - emergencyHeadroom 0 ≠ 0 ∧ ∃ pool, Refuses tree emergencyHeadroom pool := by
  obtain ⟨hroot, hsmall⟩ := not_or.mp h
  have hexists : ∃ pool, pool ≠ 0 ∧ pool < tree.size ∧
      tree.limit pool - emergencyHeadroom pool < tree.limit 0 := by
    by_contra hnone
    apply hsmall
    intro node hnode hsize
    by_contra hlt
    exact hnone ⟨node, hnode, hsize, by omega⟩
  refine ⟨hroot, Nat.find hexists, ?_⟩
  obtain ⟨hne, hsize, hlt⟩ := Nat.find_spec hexists
  refine ⟨hne, hsize, hlt, fun node hnode hless => ?_⟩
  by_contra hnot
  exact Nat.find_min hexists hless ⟨hnode, by omega, by omega⟩

section

variable (h : Refuses tree emergencyHeadroom pool)
include h

/-- The nodes above the pool have room for one byte, and for what the pool has room for
besides. -/
theorem Refuses.room (hroot : tree.limit 0 - emergencyHeadroom 0 ≠ 0) {node : Nat}
    (hnode : node ∈ tree.ancestorsRootFirst (tree.parent pool)) :
    node < pool ∧ 1 ≤ tree.limit node - emergencyHeadroom node ∧
      tree.limit pool - emergencyHeadroom pool + 1 ≤ tree.limit node := by
  have hle := Tree.le_of_mem_ancestors hnode
  have hparent := tree.parent_lt pool h.ne_root
  have hsmall := h.small
  by_cases hzero : node = 0
  · subst hzero
    omega
  · have hleast := h.least node hzero (by omega)
    omega

theorem Refuses.path :
    tree.ancestorsRootFirst pool = tree.ancestorsRootFirst (tree.parent pool) ++ [pool] :=
  Tree.ancestorsRootFirst_of_ne h.ne_root

theorem Refuses.not_mem : pool ∉ tree.ancestorsRootFirst (tree.parent pool) := by
  intro hmem
  have hle := Tree.le_of_mem_ancestors hmem
  have hparent := tree.parent_lt pool h.ne_root
  omega

/-- An acquisition of one byte has charged all nodes above the pool. -/
theorem Refuses.charged (hroot : tree.limit 0 - emergencyHeadroom 0 ≠ 0) :
    Alone tree (.new emergencyHeadroom) (.idle (.ok ()))
      ((new emergencyHeadroom).charge (tree.ancestorsRootFirst (tree.parent pool)) 1)
      (.acquiring .reserve { pool, bytes := 1, emergency := false }
        (tree.ancestorsRootFirst (tree.parent pool)) [pool] none) := by
  have hpath := h.path
  have hstart : Alone tree (.new emergencyHeadroom) (.idle (.ok ())) (.new emergencyHeadroom)
      (.acquiring .reserve { pool, bytes := 1, emergency := false } []
        (tree.ancestorsRootFirst (tree.parent pool) ++ [pool]) none) := by
    have hstatic : ∀ other bytes,
        Choice.tryReserve { pool, bytes := 1, emergency := false } ≠ .protect other bytes :=
      fun _ _ => Choice.noConfusion
    apply Alone.step hstatic
    simp only [step, call]
    rw [if_neg (not_le.mpr h.size), if_neg Nat.one_ne_zero, acquire, hpath]
  refine hstart.trans (alone_acquire (tree.nodup_ancestors _) fun node hnode => ?_)
  have hroom := (h.room hroot hnode).2.1
  simpa [Request.headroom, new] using hroom

end

/-- One byte is charged above the pool, and a reservation fills the pool. -/
def filledPools (tree : Tree) (emergencyHeadroom : Nat → Nat) (pool : Nat) : Pools :=
  (((new emergencyHeadroom).charge (tree.ancestorsRootFirst (tree.parent pool)) 1).charge
    (tree.ancestorsRootFirst pool) (tree.limit pool - emergencyHeadroom pool)).putBack
      (some { pool, bytes := tree.limit pool - emergencyHeadroom pool })

/-- Another thread takes all that the pool has for ordinary acquisitions. -/
theorem Refuses.filled (h : Refuses tree emergencyHeadroom pool)
    (hroot : tree.limit 0 - emergencyHeadroom 0 ≠ 0) :
    Alone tree
      ((new emergencyHeadroom).charge (tree.ancestorsRootFirst (tree.parent pool)) 1)
      (.idle (.ok ())) (filledPools tree emergencyHeadroom pool) (.idle (.ok ())) := by
  let request : Request :=
    { pool, bytes := tree.limit pool - emergencyHeadroom pool, emergency := true }
  have hsize : request.pool < tree.size := h.size
  refine alone_tryReserve hsize fun node hnode => ?_
  simp only [Request.headroom, Pools.charge, Pools.new, request, if_true, zero_add]
  rw [h.path, mem_append, mem_singleton] at hnode
  rcases hnode with hnode | hnode
  · have hroom := (h.room hroot hnode).2.2
    rw [if_pos hnode]
    omega
  · rw [hnode, if_neg h.not_mem]
    omega

/-- The pool, filled, refuses the byte. -/
theorem Refuses.refused (h : Refuses tree emergencyHeadroom pool) (done : List Nat) :
    ∃ error, Alone tree (filledPools tree emergencyHeadroom pool)
      (.acquiring .reserve { pool, bytes := 1, emergency := false } done [pool] none)
      (filledPools tree emergencyHeadroom pool)
      (.rollback .reserve { pool, bytes := 1, emergency := false } error done.reverse) := by
  have hused : (filledPools tree emergencyHeadroom pool).used pool =
      tree.limit pool - emergencyHeadroom pool := by
    simp [filledPools, Pools.putBack, Pools.charge, Pools.new, h.not_mem, h.path]
  apply alone_refused
  show ¬ 1 ≤ tree.limit pool - emergencyHeadroom pool - _
  rw [hused]
  omega

/-- A refused acquisition is rolled back, and notifies nobody. -/
theorem alone_rollback {error : Error} {done : List Nat}
    (hnodup : done.Nodup) (hheld : ∀ node ∈ done, request.bytes ≤ s.used node) :
    Alone tree s (.rollback .reserve request error done.reverse)
      (s.discharge done.reverse request.bytes) (.idle (.error error)) := by
  have hwalk : Alone tree s (.rollback .reserve request error done.reverse)
      (s.discharge done.reverse request.bytes) (.rollback .reserve request error []) :=
    alone_giveBack (.rollback .reserve request error) (fun _ _ _ => rfl)
      (nodup_reverse.mpr hnodup) fun node hnode => hheld node (mem_reverse.mp hnode)
  exact hwalk.trans (.proceed rfl)

/-- The acquisition is about to be rolled back, and nothing else is charged. -/
theorem Refuses.halfway (h : Refuses tree emergencyHeadroom pool)
    (hroot : tree.limit 0 - emergencyHeadroom 0 ≠ 0) :
    ∃ s error, Reaches tree (runPools tree emergencyHeadroom 2 [])
        { shared := s
          threads :=
            [.rollback .reserve { pool, bytes := 1, emergency := false } error
                (tree.ancestorsRootFirst (tree.parent pool)).reverse,
              .idle (.ok ())] } ∧
      (∀ node, s.used node =
        if node ∈ tree.ancestorsRootFirst (tree.parent pool) then 1 else 0) ∧
      s.emergencyHeadroom = emergencyHeadroom := by
  have hcharged : Reaches tree (runPools tree emergencyHeadroom 2 []) _ :=
    Alone.reaches (i := 0) (h.charged hroot) rfl
  have hfilled := hcharged.trans (Alone.reaches (i := 1) (h.filled hroot) rfl)
  obtain ⟨error, hrefused⟩ := h.refused (tree.ancestorsRootFirst (tree.parent pool))
  have hback := hfilled.trans (Alone.reaches (i := 0) hrefused rfl)
  have hheld : ∀ node ∈ tree.ancestorsRootFirst pool, tree.limit pool - emergencyHeadroom pool ≤
        (filledPools tree emergencyHeadroom pool).used node := by
    intro node hnode
    simp only [filledPools, Pools.putBack, Pools.charge, if_pos hnode]
    omega
  have hlive : (filledPools tree emergencyHeadroom pool).live =
      [.mk pool (tree.limit pool - emergencyHeadroom pool)] := rfl
  obtain ⟨s, hdrop, hused, -, -, hheadroom⟩ := alone_drop hlive rfl hheld
  refine ⟨s, error, hback.trans (Alone.reaches (i := 1) hdrop rfl), fun node => ?_, hheadroom⟩
  rw [hused]
  simp only [filledPools, Pools.discharge, Pools.putBack, Pools.charge, Pools.new]
  omega

/-- Where a pool below the root can refuse what the root took, a waiter can be stranded. -/
theorem exists_stranded (h : ¬ RootBinds tree emergencyHeadroom) :
    ∃ schedule, Static schedule ∧
      Stranded tree (runPools tree emergencyHeadroom 2 schedule) := by
  obtain ⟨hroot, pool, hpool⟩ := exists_refuses h
  obtain ⟨s, error, hreach, hused, hheadroom⟩ := hpool.halfway hroot
  have hmem : 0 ∈ tree.ancestorsRootFirst (tree.parent pool) := by
    obtain ⟨rest, hrest⟩ := tree.exists_ancestors_eq (tree.parent pool)
    rw [hrest]
    exact mem_cons_self
  have hzero : s.used 0 = 1 := by rw [hused, if_pos hmem]
  have hlimit : tree.limit 0 - emergencyHeadroom 0 ≤
      tree.limit 0 - s.emergencyHeadroom 0 := by rw [hheadroom]
  have hfull : ¬ tree.limit 0 - emergencyHeadroom 0 ≤
      tree.limit 0 - s.emergencyHeadroom 0 - s.used 0 := by
    rw [hheadroom, hzero]
    omega
  have hsize : 0 < tree.size := Nat.zero_lt_of_lt hpool.size
  obtain ⟨s', waiter, hwait, hwaiter, hused', hheadroom'⟩ :=
    @alone_reserveWait tree s (.ok ()) _ hsize hroot hlimit hfull
  have hroll : Alone tree s' (.rollback .reserve { pool, bytes := 1, emergency := false } error
        (tree.ancestorsRootFirst (tree.parent pool)).reverse)
      (s'.discharge (tree.ancestorsRootFirst (tree.parent pool)).reverse 1)
      (.idle (.error error)) := by
    apply alone_rollback (tree.nodup_ancestors _)
    intro node hnode
    rw [hused', hused, if_pos hnode]
  obtain ⟨schedule, hstatic, hrun⟩ :=
    (hreach.trans (Alone.reaches (i := 1) hwait rfl)).trans (Alone.reaches (i := 0) hroll rfl)
  have hfinal : runPools tree emergencyHeadroom 2 schedule =
      { shared := s'.discharge (tree.ancestorsRootFirst (tree.parent pool)).reverse 1
        threads :=
          [.idle (.error error),
            .parked ⟨0, tree.limit 0 - emergencyHeadroom 0, false⟩ waiter] } := hrun
  refine ⟨schedule, hstatic, ?_⟩
  rw [hfinal]
  refine ⟨?_, ⟨0, tree.limit 0 - emergencyHeadroom 0, false⟩, waiter, by simp, hwaiter, ?_⟩
  · intro thread hthread
    simp only [mem_cons, not_mem_nil, or_false] at hthread
    rcases hthread with hthread | hthread <;> rw [hthread] <;> trivial
  · intro node hnode
    rw [Tree.ancestorsRootFirst_zero, mem_singleton] at hnode
    subst hnode
    simp only [allocatableLimit, discharge, hused', hheadroom', hheadroom, hzero,
      mem_reverse, if_pos hmem]
    omega

/-- Waiters are never stranded, whatever the calls on the pools and their interleaving,
exactly when nobody can wait for the root or every other pool has room for all that the root
can take. -/
theorem waiters_are_stranded_unless_root_binds (tree : Tree) (emergencyHeadroom : Nat → Nat) :
    (∀ threads schedule, Static schedule →
      ¬ Stranded tree (runPools tree emergencyHeadroom threads schedule)) ↔
      RootBinds tree emergencyHeadroom := by
  constructor
  · intro hnever
    by_contra hnot
    obtain ⟨schedule, hstatic, hstranded⟩ := exists_stranded hnot
    exact hnever 2 schedule hstatic hstranded
  · intro hbinds threads schedule hstatic
    exact not_stranded_of_rootBinds hbinds hstatic

end

/-- Two pools below the root, of which the second is smaller than the root. -/
def threePools : Tree where
  size := 3
  name := fun pool => if pool = 0 then "engine" else if pool = 1 then "left" else "right"
  limit := fun pool => if pool = 2 then 5 else 10
  parent := fun _ => 0
  parent_lt := fun _ h => Nat.pos_of_ne_zero h
  limit_lt := fun pool => by
    by_cases h : pool = 2
    · simp [h, usizeLimit]
    · simp [h, usizeLimit]

/-- The first thread asks the small pool for 8 bytes and has charged the root when the second
one, which waits for 5 bytes of the other pool, finds the root full; the rollback comes when
the waiter has parked. -/
def strandingSchedule : List (Nat × Choice) :=
  [(0, .tryReserve ⟨2, 8, false⟩), (0, .proceed), (0, .proceed), (1, .reserveWait 1 5 0)] ++
    List.replicate 5 (1, .proceed) ++ List.replicate 4 (0, .proceed)

theorem rollback_strands_a_waiter :
    Static strandingSchedule ∧
      Stranded threePools (runPools threePools (fun _ => 0) 2 strandingSchedule) := by
  refine ⟨?_, ?_, ⟨1, 5, false⟩, 0, ?_, ?_, ?_⟩
  · intro e he
    simp only [strandingSchedule, mem_append, mem_cons, mem_replicate, not_mem_nil, or_false] at he
    rcases he with ((he | he | he | he) | he) | he
    all_goals simp [he]
  · decide +kernel
  · exact mem_of_getElem? (i := 1) rfl
  · decide +kernel
  · decide +kernel

end RustDb.Runtime.Memory
