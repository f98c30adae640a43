import Mathlib.Algebra.Order.BigOperators.Group.List
import Mathlib.Tactic.Abel
import RustDb.Lib.Run

/-!
# Threads over a shared state

Several threads take turns on one shared state.  A turn is a step of one thread; an
event names the thread and what its step does not take from the state.

* `turn` and `runFrom (turn step)`: any interleaving is a list of events.
* `AllThreads.turn`: a turn keeps what its thread keeps and does not disturb in the others.
* `balance_turn`, `sum_run`: what one step moves between the shared state and its thread is
  conserved.
* `Owed`: what the shared state calls for, some thread is about to do.
* `exists_run_of_rank`: when each thread can always lower its rank on its own until it is
  done, every run can be continued to one after which all threads are done.
-/

namespace RustDb.Lib

open List

variable {σ τ ε : Type}

/-- Threads and the state they share. -/
structure Threads (σ τ : Type) where
  shared : σ
  threads : List τ
deriving DecidableEq, Repr

/-- A turn of the thread that the event names. -/
def turn (step : σ → τ → ε → σ × τ) (c : Threads σ τ) (e : Nat × ε) : Threads σ τ :=
  match c.threads[e.1]? with
  | none => c
  | some t =>
    { shared := (step c.shared t e.2).1
      threads := c.threads.set e.1 (step c.shared t e.2).2 }

section

variable {step : σ → τ → ε → σ × τ} {c : Threads σ τ} {e : Nat × ε}

theorem turn_of_none (h : c.threads[e.1]? = none) : turn step c e = c := by
  rw [turn, h]

variable {t : τ}

theorem turn_of_some (h : c.threads[e.1]? = some t) :
    turn step c e =
      { shared := (step c.shared t e.2).1
        threads := c.threads.set e.1 (step c.shared t e.2).2 } := by
  rw [turn, h]

@[simp] theorem length_threads_turn (e : Nat × ε) :
    (turn step c e).threads.length = c.threads.length := by
  cases h : c.threads[e.1]? with
  | none => rw [turn_of_none h]
  | some t => rw [turn_of_some h, length_set]

@[simp] theorem length_threads_run (events : List (Nat × ε)) :
    (runFrom (turn step) c events).threads.length = c.threads.length := by
  induction events generalizing c with
  | nil => rfl
  | cons e events ih => rw [runFrom, ih, length_threads_turn]

variable {P : σ → Prop}

theorem shared_turn (hP : P c.shared) (hkeep : ∀ s t e, P s → P (step s t e).1) (e : Nat × ε) :
    P (turn step c e).shared := by
  cases hget : c.threads[e.1]? with
  | none => rwa [turn_of_none hget]
  | some t =>
    rw [turn_of_some hget]
    exact hkeep _ _ _ hP

/-- What every step keeps of the shared state holds after every run. -/
theorem shared_run (hP : P c.shared) (hkeep : ∀ s t e, P s → P (step s t e).1)
    (events : List (Nat × ε)) : P (runFrom (turn step) c events).shared :=
  runFrom_invariant (I := fun c : Threads σ τ => P c.shared) hP fun _ e hc => shared_turn hc hkeep e

variable {M : Type} {threads : List τ} {g : τ → M}

theorem sum_map_eq_zero [AddCommMonoid M] (h : ∀ t ∈ threads, g t = 0) :
    (threads.map g).sum = 0 := by
  apply sum_eq_zero
  intro x hx
  obtain ⟨t, ht, rfl⟩ := mem_map.mp hx
  exact h t ht

variable {i : Nat} {u : τ}

/-- Replacing one member of a list replaces its share of a sum. -/
theorem sum_map_set [AddCommMonoid M] (h : threads[i]? = some t) :
    ((threads.set i u).map g).sum + g t = (threads.map g).sum + g u := by
  induction threads generalizing i with
  | nil => simp at h
  | cons v threads ih =>
    cases i with
    | zero =>
      simp only [getElem?_cons_zero, Option.some.injEq] at h
      subst h
      simp only [set_cons_zero, map_cons, sum_cons]
      abel
    | succ i =>
      have hrest := ih (by simpa using h)
      simp only [set_cons_succ, map_cons, sum_cons, add_assoc, hrest]

/-- The room that one member leaves is left by the sum. -/
theorem sum_map_add_le {α : Type} {f g : α → Nat} {l : List α} {a : α} {k : Nat}
    (h : ∀ b ∈ l, f b ≤ g b) (ha : a ∈ l) (hk : f a + k ≤ g a) :
    (l.map f).sum + k ≤ (l.map g).sum := by
  induction l with
  | nil => cases ha
  | cons b l ih =>
    have hb := h b mem_cons_self
    have hrest : ∀ c ∈ l, f c ≤ g c := fun c hc => h c (mem_cons_of_mem b hc)
    simp only [map_cons, sum_cons]
    rcases mem_cons.mp ha with heq | hmem
    · subst heq
      have hsum : (l.map f).sum ≤ (l.map g).sum := sum_le_sum hrest
      omega
    · have hsum := ih hrest hmem
      omega

/-- A step that adds as much to the shared state and its thread as to the account keeps
the account balanced. -/
theorem balance_turn [AddCancelCommMonoid M] {f h : σ → M} (e : Nat × ε)
    (hc : f c.shared + (c.threads.map g).sum = h c.shared)
    (hstep : ∀ t, c.threads[e.1]? = some t →
      f (step c.shared t e.2).1 + g (step c.shared t e.2).2 + h c.shared =
        f c.shared + g t + h (step c.shared t e.2).1) :
    f (turn step c e).shared + ((turn step c e).threads.map g).sum =
      h (turn step c e).shared := by
  cases hget : c.threads[e.1]? with
  | none => rwa [turn_of_none hget]
  | some t =>
    have hset := sum_map_set (g := g) (u := (step c.shared t e.2).2) hget
    rw [turn_of_some hget]
    apply add_right_cancel (b := g t + h c.shared)
    calc f (step c.shared t e.2).1 +
          ((c.threads.set e.1 (step c.shared t e.2).2).map g).sum + (g t + h c.shared)
        = f (step c.shared t e.2).1 + (((c.threads.set e.1 (step c.shared t e.2).2).map g).sum +
            g t) + h c.shared := by abel
      _ = f (step c.shared t e.2).1 + g (step c.shared t e.2).2 + h c.shared +
            (c.threads.map g).sum := by rw [hset]; abel
      _ = f c.shared + (c.threads.map g).sum + (g t + h (step c.shared t e.2).1) := by
          rw [hstep t hget]; abel
      _ = h (step c.shared t e.2).1 + (g t + h c.shared) := by rw [hc]; abel

/-- What one step moves between the shared state and its thread is conserved. -/
theorem sum_run {f : σ → Nat} {g : τ → Nat} (hP : P c.shared)
    (hkeep : ∀ s t e, P s → P (step s t e).1)
    (h : ∀ s t e, P s → f (step s t e).1 + g (step s t e).2 = f s + g t) (events : List (Nat × ε)) :
    f (runFrom (turn step) c events).shared +
        ((runFrom (turn step) c events).threads.map g).sum =
      f c.shared + (c.threads.map g).sum := by
  let total := f c.shared + (c.threads.map g).sum
  have hrun : P (runFrom (turn step) c events).shared ∧ f (runFrom (turn step) c events).shared +
        ((runFrom (turn step) c events).threads.map g).sum = total := by
    apply runFrom_invariant (I := fun c' : Threads σ τ =>
        P c'.shared ∧ f c'.shared + (c'.threads.map g).sum = total) ⟨hP, rfl⟩
    intro c' e hc'
    refine ⟨shared_turn hc'.1 hkeep e, balance_turn (h := fun _ => total) e hc'.2 ?_⟩
    intro t _
    rw [h c'.shared t e.2 hc'.1]
  exact hrun.2

/-- A thread other than the one whose turn it is stays. -/
theorem mem_threads_turn (hget : c.threads[e.1]? = some u) (ht : t ∈ c.threads) (hne : t ≠ u) :
    t ∈ (turn step c e).threads := by
  obtain ⟨i, hi⟩ := mem_iff_getElem?.mp ht
  have hother : e.1 ≠ i := by
    intro heq
    rw [← heq, hget] at hi
    exact hne (Option.some.inj hi).symm
  rw [turn_of_some hget]
  exact mem_iff_getElem?.mpr ⟨i, (getElem?_set_ne hother).trans hi⟩

theorem mem_threads_turn_self (hget : c.threads[e.1]? = some u) :
    (step c.shared u e.2).2 ∈ (turn step c e).threads := by
  have hlt := (List.getElem?_eq_some_iff.mp hget).1
  rw [turn_of_some hget]
  exact mem_iff_getElem?.mpr ⟨e.1, getElem?_set_self hlt⟩

/-- What is owed in the shared state, some thread is about to do. -/
def Owed (W : σ → Prop) (D : τ → Prop) (c : Threads σ τ) : Prop :=
  W c.shared → ∃ t ∈ c.threads, D t

variable {D : τ → Prop}

/-- A thread that makes a debt takes it on, and one that drops its debts has paid. -/
theorem Owed.turn {W : σ → Prop} (hc : Owed W D c) (e : Nat × ε)
    (hstep : ∀ t, W (step c.shared t e.2).1 →
      D (step c.shared t e.2).2 ∨ (W c.shared ∧ ¬ D t)) : Owed W D (turn step c e) := by
  cases hget : c.threads[e.1]? with
  | none => rwa [turn_of_none hget]
  | some t =>
    intro hW
    rw [turn_of_some hget] at hW
    rcases hstep t hW with hnext | ⟨hold, hnot⟩
    · exact ⟨_, mem_threads_turn_self hget, hnext⟩
    · obtain ⟨u, hu, hD⟩ := hc hold
      have hne : u ≠ t := fun heq => hnot (heq ▸ hD)
      exact ⟨u, mem_threads_turn hget hu hne, hD⟩

/-- A turn keeps what its step gives its own thread and leaves to the others. -/
theorem forall_turn {Inv : σ → τ → Prop} (hc : ∀ t ∈ c.threads, Inv c.shared t) (e : Nat × ε)
    (own : ∀ t, c.threads[e.1]? = some t →
      Inv (step c.shared t e.2).1 (step c.shared t e.2).2)
    (others : ∀ t u, c.threads[e.1]? = some u → t ∈ c.threads →
      Inv (step c.shared u e.2).1 t) :
    ∀ t ∈ (turn step c e).threads, Inv (turn step c e).shared t := by
  cases hget : c.threads[e.1]? with
  | none => rwa [turn_of_none hget]
  | some u =>
    rw [turn_of_some hget]
    intro t ht
    rcases mem_or_eq_of_mem_set ht with hold | hnew
    · exact others t u hget hold
    · rw [hnew]
      exact own u hget

/-- Every thread has kept `Inv`. -/
def AllThreads (Inv : Nat → σ → τ → Prop) (c : Threads σ τ) : Prop :=
  ∀ i t, c.threads[i]? = some t → Inv i c.shared t

theorem AllThreads.turn {Inv : Nat → σ → τ → Prop} (hc : AllThreads Inv c)
    (own : ∀ i s t e, Inv i s t → Inv i (step s t e).1 (step s t e).2)
    (others : ∀ i j s t u e, i ≠ j → Inv i s t → Inv j s u → Inv i (step s u e).1 t)
    (e : Nat × ε) : AllThreads Inv (turn step c e) := by
  cases hget : c.threads[e.1]? with
  | none => rwa [turn_of_none hget]
  | some u =>
    rw [turn_of_some hget]
    intro i t ht
    by_cases hi : e.1 = i
    · subst hi
      have hlt := (List.getElem?_eq_some_iff.mp hget).1
      rw [getElem?_set_self hlt] at ht
      cases ht
      exact own e.1 c.shared u e.2 (hc e.1 u hget)
    · rw [getElem?_set_ne hi] at ht
      exact others i e.1 c.shared t u e.2 (Ne.symm hi) (hc i t ht) (hc e.1 u hget)

/-- A thread that runs alone. -/
def solo (step : σ → τ → ε → σ × τ) (s : σ) (t : τ) (events : List ε) : σ × τ :=
  runFrom (fun p e => step p.1 p.2 e) (s, t) events

theorem run_solo (h : c.threads[i]? = some t) (events : List ε) :
    runFrom (turn step) c (events.map fun e => (i, e)) =
      { shared := (solo step c.shared t events).1
        threads := c.threads.set i (solo step c.shared t events).2 } := by
  induction events generalizing c t with
  | nil =>
    obtain ⟨hlt, rfl⟩ := List.getElem?_eq_some_iff.mp h
    show c = { shared := c.shared, threads := c.threads.set i c.threads[i] }
    rw [set_getElem_self]
  | cons e events ih =>
    have hlt := (List.getElem?_eq_some_iff.mp h).1
    have hturn : turn step c (i, e) = _ := turn_of_some h
    have hnext : (turn step c (i, e)).threads[i]? = some (step c.shared t e).2 := by
      rw [hturn]
      exact getElem?_set_self hlt
    rw [map_cons, runFrom, ih hnext, hturn]
    simp only [set_set]
    rfl

/-- When every thread can lower its rank on its own until it is done, every run can be
continued to one after which all threads are done. -/
theorem exists_run_of_rank {P : Threads σ τ → Prop} {r : τ → Nat} (hc : P c)
    (hkeep : ∀ c e, P c → P (turn step c e))
    (hrank : ∀ (c : Threads σ τ) (i : Nat) (t : τ), P c → c.threads[i]? = some t → ¬ D t →
      ∃ events, r (solo step c.shared t events).2 < r t) :
    ∃ events, ∀ t ∈ (runFrom (turn step) c events).threads, D t := by
  induction hn : (c.threads.map r).sum using Nat.strong_induction_on generalizing c with
  | h n ih =>
    by_cases hall : ∀ t ∈ c.threads, D t
    · exact ⟨[], hall⟩
    · obtain ⟨t, ht⟩ := not_forall.mp hall
      obtain ⟨hmem, hnot⟩ := Classical.not_imp.mp ht
      obtain ⟨i, hget⟩ := mem_iff_getElem?.mp hmem
      obtain ⟨events, hless⟩ := hrank c i t hc hget hnot
      have hsolo : runFrom (turn step) c (events.map fun e => (i, e)) = _ :=
        run_solo hget events
      have hfall : ((runFrom (turn step) c (events.map fun e => (i, e))).threads.map r).sum <
          n := by
        have hset := sum_map_set (g := r) (u := (solo step c.shared t events).2) hget
        rw [hsolo]
        show ((c.threads.set i (solo step c.shared t events).2).map r).sum < n
        omega
      have hkept : P (runFrom (turn step) c (events.map fun e => (i, e))) :=
        runFrom_invariant hc hkeep
      obtain ⟨more, hmore⟩ := ih _ hfall hkept rfl
      exact ⟨events.map (fun e => (i, e)) ++ more, by rwa [runFrom_append]⟩

end

end RustDb.Lib
