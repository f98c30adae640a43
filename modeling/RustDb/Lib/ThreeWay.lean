import Mathlib.Data.Set.Basic

/-!
# Three-way merges of sets

Two versions, `current` and `other`, come from one `base`.  The elements of `base`
belong to a part `old` that both versions know; outside of it a version only adds.

* `merge` is what `current` shows after the changes of `other` relative to `base`.
* `merge_comm`: when neither version brings back an element of `old` that `base`
  does not have, it does not matter which version is merged into which.
-/

namespace RustDb.Lib.ThreeWay

variable {α : Type} {old base current other : Set α}

/-- `current` without what `other` removed from `base`, and with what `other`
added. -/
def merge (old base current other : Set α) : Set α :=
  {x | (x ∈ current ∧ ¬ (x ∈ base ∧ x ∉ other)) ∨ (x ∈ other ∧ x ∉ old)}

/-- A version that brings back nothing that `base` has lost. -/
def Shrinks (old base version : Set α) : Prop :=
  ∀ x ∈ version, x ∈ old → x ∈ base

theorem mem_merge {x : α} : x ∈ merge old base current other ↔
    (x ∈ current ∧ ¬ (x ∈ base ∧ x ∉ other)) ∨ (x ∈ other ∧ x ∉ old) :=
  Iff.rfl

/-- On the common part a merge shows what both versions show. -/
theorem mem_merge_of_mem_old {x : α} (hcurrent : Shrinks old base current)
    (hx : x ∈ old) : x ∈ merge old base current other ↔ x ∈ current ∧ x ∈ other := by
  rw [mem_merge]
  constructor
  · rintro (⟨hc, hkeep⟩ | ⟨-, hnew⟩)
    · by_contra hboth
      exact hkeep ⟨hcurrent x hc hx, fun ho => hboth ⟨hc, ho⟩⟩
    · exact absurd hx hnew
  · rintro ⟨hc, ho⟩
    exact .inl ⟨hc, fun h => h.2 ho⟩

/-- Outside of it a merge shows what either version shows. -/
theorem mem_merge_of_notMem_old {x : α} (hbase : base ⊆ old) (hx : x ∉ old) :
    x ∈ merge old base current other ↔ x ∈ current ∨ x ∈ other := by
  rw [mem_merge]
  constructor
  · rintro (⟨hc, -⟩ | ⟨ho, -⟩)
    · exact .inl hc
    · exact .inr ho
  · rintro (hc | ho)
    · exact .inl ⟨hc, fun h => hx (hbase h.1)⟩
    · exact .inr ⟨ho, hx⟩

theorem merge_comm (hbase : base ⊆ old) (hcurrent : Shrinks old base current)
    (hother : Shrinks old base other) :
    merge old base current other = merge old base other current := by
  ext x
  by_cases hx : x ∈ old
  · rw [mem_merge_of_mem_old hcurrent hx, mem_merge_of_mem_old hother hx, and_comm]
  · rw [mem_merge_of_notMem_old hbase hx, mem_merge_of_notMem_old hbase hx, or_comm]

end RustDb.Lib.ThreeWay
