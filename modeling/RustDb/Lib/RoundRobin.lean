import Mathlib.Algebra.Order.Field.Rat
import Mathlib.Data.List.Basic

/-!
# Round robin

Keys that wait for service stand in a list.  A key joins at the back; the key at the front
is served and goes to the back, or leaves.

* `Turn`: the events of such a list, newest first in a log.
* `since k log`: what happened since the key `k` joined or was last served.
* `Fair`: since then, no other key was served twice, and no key that stands before `k` was
  served at all.
* `Fair.join`, `Fair.serve`, `Fair.sublist`: each operation keeps the list fair.
-/

namespace RustDb.Lib

open List

variable {κ : Type} [DecidableEq κ]

/-- A key starts to wait, or is served. -/
inductive Turn (κ : Type) where
  | joined (key : κ)
  | served (key : κ)
deriving DecidableEq, Repr

/-- Whose turn it is. -/
def Turn.key : Turn κ → κ
  | .joined key => key
  | .served key => key

/-- The events after the last one of the key `k`. -/
def since (k : κ) (log : List (Turn κ)) : List (Turn κ) :=
  log.takeWhile fun event => event.key ≠ k

theorem since_cons_self {k : κ} {event : Turn κ} (log : List (Turn κ)) (h : event.key = k) :
    since k (event :: log) = [] := by
  simp [since, h]

theorem since_cons_of_ne {k : κ} {event : Turn κ} (log : List (Turn κ)) (h : event.key ≠ k) :
    since k (event :: log) = event :: since k log := by
  simp [since, h]

/-- Service by turns. -/
structure Fair (ready : List κ) (log : List (Turn κ)) : Prop where
  nodup : ready.Nodup
  ahead : ready.Pairwise fun j k => Turn.served j ∉ since k log
  once : ∀ k ∈ ready, ∀ j, (since k log).count (.served j) ≤ 1

variable {ready ready' : List κ} {log : List (Turn κ)} {k : κ}

theorem fair_nil (log : List (Turn κ)) : Fair ([] : List κ) log :=
  ⟨nodup_nil, List.Pairwise.nil, nofun⟩

/-- Keys may leave at any time. -/
theorem Fair.sublist (h : Fair ready log) (hsub : ready'.Sublist ready) : Fair ready' log :=
  ⟨h.nodup.sublist hsub, h.ahead.sublist hsub, fun k hk => h.once k (hsub.subset hk)⟩

/-- A key about which the log ends stands at the back. -/
theorem Fair.concat (h : Fair ready log) (hk : k ∉ ready) (hlog : since k log = []) :
    Fair (ready ++ [k]) log := by
  constructor
  · simpa [nodup_append] using ⟨h.nodup, fun j hj heq => hk (heq ▸ hj)⟩
  · apply pairwise_append.mpr
    refine ⟨h.ahead, pairwise_singleton .., fun j _ j' hj' => ?_⟩
    rw [mem_singleton.mp hj', hlog]
    exact not_mem_nil
  · intro j hj i
    rcases mem_append.mp hj with hj | hj
    · exact h.once j hj i
    · rw [mem_singleton.mp hj, hlog]
      simp

/-- A key that does not wait joins at the back. -/
theorem Fair.join (h : Fair ready log) (hk : k ∉ ready) :
    Fair (ready ++ [k]) (.joined k :: log) := by
  have hother : ∀ j ∈ ready, since j (.joined k :: log) = .joined k :: since j log := by
    intro j hj
    apply since_cons_of_ne
    intro heq
    have hkj : k = j := heq
    exact hk (hkj ▸ hj)
  apply Fair.concat _ hk (since_cons_self log rfl)
  constructor
  · exact h.nodup
  · apply h.ahead.imp_of_mem
    intro i j _ hj hnot
    rw [hother j hj]
    simpa using hnot
  · intro j hj i
    rw [hother j hj, count_cons_of_ne (by simp)]
    exact h.once j hj i

/-- The key at the front is served and leaves. -/
theorem Fair.serve (h : Fair (k :: ready) log) : Fair ready (.served k :: log) := by
  have hnodup := nodup_cons.mp h.nodup
  have hahead := pairwise_cons.mp h.ahead
  have hother : ∀ j ∈ ready, since j (.served k :: log) = .served k :: since j log := by
    intro j hj
    apply since_cons_of_ne
    intro heq
    have hkj : k = j := heq
    exact hnodup.1 (hkj ▸ hj)
  constructor
  · exact hnodup.2
  · apply hahead.2.imp_of_mem
    intro i j hi hj hnot
    rw [hother j hj]
    have hne : i ≠ k := fun heq => hnodup.1 (heq ▸ hi)
    simpa [hne] using hnot
  · intro j hj i
    rw [hother j hj]
    by_cases hi : i = k
    · have hzero : (since j log).count (.served k) = 0 :=
        count_eq_zero.mpr (hahead.1 j hj)
      rw [hi, count_cons_self, hzero]
    · have hne : Turn.served k ≠ .served i := fun heq => hi (Turn.served.inj heq).symm
      rw [count_cons_of_ne hne]
      exact h.once j (mem_cons_of_mem k hj) i

/-- The key at the front is served and goes to the back. -/
theorem Fair.rotate (h : Fair (k :: ready) log) : Fair (ready ++ [k]) (.served k :: log) :=
  h.serve.concat (nodup_cons.mp h.nodup).1 (since_cons_self log rfl)

end RustDb.Lib
