import Mathlib.Algebra.Order.Field.Rat
import Mathlib.Data.List.Nodup

/-!
# Multiplicities in lists

How often an element occurs in lists without duplicates and in lists of copies.
-/

namespace RustDb.Lib

open List

variable {α : Type} [BEq α] [LawfulBEq α]

theorem nodup_eraseDups (l : List α) : l.eraseDups.Nodup := by
  induction hlength : l.length using Nat.strong_induction_on generalizing l with
  | _ n ih =>
    cases l with
    | nil => simp
    | cons a l =>
      rw [eraseDups_cons, nodup_cons]
      refine ⟨by simp, ih _ ?_ _ rfl⟩
      have hle := length_filter_le (fun b => !b == a) l
      rw [length_cons] at hlength
      omega

/-- The only element of a list without duplicates that equals `a`. -/
theorem filter_eq_of_nodup [DecidableEq α] {l : List α} (hl : l.Nodup) (a : α) :
    l.filter (fun b => decide (a = b)) = if a ∈ l then [a] else [] := by
  have hsymm : (fun b => decide (a = b)) = fun b => decide (b = a) := by
    funext b
    exact decide_eq_decide.mpr eq_comm
  rw [hsymm, filter_eq, hl.count]
  split <;> rfl

omit [BEq α] [LawfulBEq α] in
theorem flatMap_ite_singleton {β : Type} (l : List α) (p : α → Prop) [DecidablePred p]
    (f : α → β) :
    (l.flatMap fun a => if p a then [f a] else []) = (l.filter fun a => decide (p a)).map f := by
  induction l with
  | nil => rfl
  | cons a l ih =>
    rw [flatMap_cons, ih, filter_cons]
    by_cases h : p a <;> simp [h]

/-- Copies of distinct elements. -/
theorem count_flatMap_replicate {l : List α} (hl : l.Nodup) (copies : α → Nat) (a : α) :
    (l.flatMap fun b => List.replicate (copies b) b).count a =
      if a ∈ l then copies a else 0 := by
  induction l with
  | nil => simp
  | cons b l ih =>
    obtain ⟨hb, hl⟩ := nodup_cons.mp hl
    rw [flatMap_cons, count_append, ih hl, count_replicate]
    cases hab : b == a with
    | true =>
      rw [beq_iff_eq] at hab
      subst hab
      simp [hb]
    | false =>
      have hba : a ≠ b := fun h => beq_eq_false_iff_ne.mp hab h.symm
      simp [hba]

end RustDb.Lib
