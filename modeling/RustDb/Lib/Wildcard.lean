import Mathlib.Algebra.Order.Field.Rat
import Mathlib.Data.List.Basic

/-!
# Wildcard patterns

Patterns of literal elements, of `one` for any single element and of `any` for any
sequence, over an arbitrary alphabet.

* `Wildcard.Matches`: what a pattern matches, with rules for the pattern's end
  (`matches_snoc_any_snoc` and its companions), as a table filled row by row needs them.
* `findSublist`: the leftmost occurrence of a list in a list.
* `Wildcard.Floating`, `Wildcard.Anchored`: what a pattern without `one` matches, in terms
  of its literal segments.
* `Wildcard.floating_cons_iff`: taking the leftmost occurrence of a segment is enough.
-/

namespace RustDb.Lib

open List

/-- A token of a pattern: any symbols, one symbol, or this symbol. -/
inductive Wildcard (α : Type) where
  | any
  | one
  | literal (a : α)
deriving DecidableEq, Repr

namespace Wildcard

variable {α : Type} {ts us : List (Wildcard α)} {v w p : List α} {a b : α}

/-- The pattern matches the list. -/
def Matches : List (Wildcard α) → List α → Prop
  | [], v => v = []
  | any :: ts, v => ∃ g w, v = g ++ w ∧ Matches ts w
  | one :: ts, v => ∃ a w, v = a :: w ∧ Matches ts w
  | literal a :: ts, v => ∃ w, v = a :: w ∧ Matches ts w

theorem matches_append :
    Matches (ts ++ us) v ↔ ∃ x y, v = x ++ y ∧ Matches ts x ∧ Matches us y := by
  induction ts generalizing v with
  | nil => simp [Matches]
  | cons t ts ih =>
    cases t with
    | any =>
      simp only [cons_append, Matches, ih]
      constructor
      · rintro ⟨g, _, rfl, x, y, rfl, hx, hy⟩
        exact ⟨g ++ x, y, (append_assoc ..).symm, ⟨g, x, rfl, hx⟩, hy⟩
      · rintro ⟨_, y, rfl, ⟨g, x, rfl, hx⟩, hy⟩
        exact ⟨g, x ++ y, append_assoc .., x, y, rfl, hx, hy⟩
    | one =>
      simp only [cons_append, Matches, ih]
      constructor
      · rintro ⟨a, _, rfl, x, y, rfl, hx, hy⟩
        exact ⟨a :: x, y, rfl, ⟨a, x, rfl, hx⟩, hy⟩
      · rintro ⟨_, y, rfl, ⟨a, x, rfl, hx⟩, hy⟩
        exact ⟨a, x ++ y, rfl, x, y, rfl, hx, hy⟩
    | literal a =>
      simp only [cons_append, Matches, ih]
      constructor
      · rintro ⟨_, rfl, x, y, rfl, hx, hy⟩
        exact ⟨a :: x, y, rfl, ⟨x, rfl, hx⟩, hy⟩
      · rintro ⟨_, y, rfl, ⟨x, rfl, hx⟩, hy⟩
        exact ⟨x ++ y, rfl, x, y, rfl, hx, hy⟩

/-- Two `any` in a row are one. -/
theorem matches_any_any : Matches (any :: any :: ts) v ↔ Matches (any :: ts) v := by
  constructor
  · rintro ⟨g, _, rfl, g', w, rfl, hw⟩
    exact ⟨g ++ g', w, (append_assoc ..).symm, hw⟩
  · intro h
    exact ⟨[], v, rfl, h⟩

theorem matches_map_literal :
    Matches (p.map literal ++ ts) v ↔ ∃ w, v = p ++ w ∧ Matches ts w := by
  induction p generalizing v with
  | nil => simp
  | cons a p ih =>
    simp only [map_cons, cons_append, Matches, ih]
    constructor
    · rintro ⟨_, rfl, w, rfl, hw⟩
      exact ⟨w, rfl, hw⟩
    · rintro ⟨w, rfl, hw⟩
      exact ⟨p ++ w, rfl, w, rfl, hw⟩

theorem matches_literals : Matches (p.map literal) v ↔ v = p := by
  rw [← append_nil (p.map literal), matches_map_literal]
  simp [Matches]

/-! ## The end of a pattern -/

theorem matches_snoc_any : Matches (ts ++ [any]) v ↔ ∃ x y, v = x ++ y ∧ Matches ts x := by
  rw [matches_append]
  constructor
  · rintro ⟨x, y, rfl, hx, -⟩
    exact ⟨x, y, rfl, hx⟩
  · rintro ⟨x, y, rfl, hx⟩
    exact ⟨x, y, rfl, hx, y, [], (append_nil y).symm, rfl⟩

theorem matches_snoc_any_nil : Matches (ts ++ [any]) [] ↔ Matches ts [] := by
  rw [matches_snoc_any]
  constructor
  · rintro ⟨x, y, hnil, hx⟩
    obtain ⟨rfl, rfl⟩ := append_eq_nil_iff.mp hnil.symm
    exact hx
  · intro h
    exact ⟨[], [], rfl, h⟩

theorem matches_snoc_any_snoc :
    Matches (ts ++ [any]) (v ++ [a]) ↔
      Matches (ts ++ [any]) v ∨ Matches ts (v ++ [a]) := by
  simp only [matches_snoc_any]
  constructor
  · rintro ⟨x, y, heq, hx⟩
    rcases eq_nil_or_concat y with rfl | ⟨y, b, rfl⟩
    · rw [append_nil] at heq
      exact .inr (heq ▸ hx)
    · rw [concat_eq_append, ← append_assoc] at heq
      exact .inl ⟨x, y, (append_inj' heq rfl).1, hx⟩
  · rintro (⟨x, y, rfl, hx⟩ | h)
    · exact ⟨x, y ++ [a], append_assoc .., hx⟩
    · exact ⟨v ++ [a], [], (append_nil _).symm, h⟩

theorem matches_snoc_one_snoc : Matches (ts ++ [one]) (v ++ [a]) ↔ Matches ts v := by
  rw [matches_append]
  constructor
  · rintro ⟨x, _, heq, hx, b, _, rfl, rfl⟩
    exact (append_inj' heq rfl).1 ▸ hx
  · intro h
    exact ⟨v, [a], rfl, h, a, [], rfl, rfl⟩

theorem matches_snoc_literal_snoc :
    Matches (ts ++ [literal b]) (v ++ [a]) ↔ Matches ts v ∧ a = b := by
  rw [matches_append]
  constructor
  · rintro ⟨x, _, heq, hx, _, rfl, rfl⟩
    obtain ⟨rfl, hlast⟩ := append_inj' heq rfl
    exact ⟨hx, cons.inj hlast |>.1⟩
  · rintro ⟨h, rfl⟩
    exact ⟨v, [a], rfl, h, [], rfl, rfl⟩

theorem not_matches_snoc_one_nil : ¬ Matches (ts ++ [one]) [] := by
  rw [matches_append]
  rintro ⟨x, _, heq, -, b, _, rfl, -⟩
  simp at heq

theorem not_matches_snoc_literal_nil : ¬ Matches (ts ++ [literal b]) [] := by
  rw [matches_append]
  rintro ⟨x, _, heq, -, _, rfl, -⟩
  simp at heq

/-- Writing a token at the end of a pattern, but no `any` after an `any`. -/
def push [DecidableEq α] (ts : List (Wildcard α)) (t : Wildcard α) : List (Wildcard α) :=
  if t ≠ any ∨ ts.getLast? ≠ some any then ts ++ [t] else ts

theorem matches_push [DecidableEq α] {t : Wildcard α} :
    Matches (push ts t ++ us) v ↔ Matches (ts ++ t :: us) v := by
  unfold push
  split
  · rw [append_assoc, singleton_append]
  · next hnot =>
    obtain ⟨ht, hlast⟩ := not_or.mp hnot
    rw [not_not] at ht hlast
    subst ht
    obtain ⟨front, rfl⟩ := getLast?_eq_some_iff.mp hlast
    rw [append_assoc, append_assoc, matches_append, matches_append]
    simp only [singleton_append, matches_any_any]

end Wildcard

/-- The leftmost position where the needle occurs. -/
def findSublist {α : Type} [DecidableEq α] (needle : List α) : List α → Option Nat
  | [] => if needle = [] then some 0 else none
  | a :: l => if needle.isPrefixOf (a :: l) then some 0
      else (findSublist needle l).map (· + 1)

section Find

variable {α : Type} [DecidableEq α] {needle l g w : List α} {i : Nat}

theorem findSublist_of_isPrefixOf (h : needle.isPrefixOf l = true) :
    findSublist needle l = some 0 := by
  cases l with
  | nil =>
    have hnil : needle = [] := by simpa using h
    simp [findSublist, hnil]
  | cons a l => rw [findSublist, if_pos h]

/-- What is found is an occurrence. -/
theorem append_of_findSublist (h : findSublist needle l = some i) :
    ∃ g, g.length = i ∧ l = g ++ (needle ++ l.drop (i + needle.length)) := by
  induction l generalizing i with
  | nil =>
    rw [findSublist] at h
    split at h
    · next hnil =>
      cases h
      exact ⟨[], rfl, by simp [hnil]⟩
    · cases h
  | cons a l ih =>
    rw [findSublist] at h
    split at h
    · next hprefix =>
      cases h
      obtain ⟨rest, hrest⟩ := isPrefixOf_iff_prefix.mp hprefix
      refine ⟨[], rfl, ?_⟩
      rw [← hrest, zero_add, drop_left]
      rfl
    · obtain ⟨j, hj, rfl⟩ := Option.map_eq_some_iff.mp h
      obtain ⟨g, hg, hl⟩ := ih hj
      refine ⟨a :: g, by simp [hg], ?_⟩
      have hdrop : (a :: l).drop (j + 1 + needle.length) = l.drop (j + needle.length) := by
        rw [add_right_comm, drop_succ_cons]
      rw [hdrop, cons_append, ← hl]

/-- No occurrence lies to the left of the one that is found. -/
theorem findSublist_le (hl : l = g ++ (needle ++ w)) :
    ∃ i ≤ g.length, findSublist needle l = some i := by
  subst hl
  induction g with
  | nil =>
    have hprefix : needle.isPrefixOf (needle ++ w) = true :=
      isPrefixOf_iff_prefix.mpr (prefix_append needle w)
    exact ⟨0, le_refl 0, findSublist_of_isPrefixOf hprefix⟩
  | cons a g ih =>
    obtain ⟨i, hi, hfound⟩ := ih
    rw [cons_append, findSublist]
    split
    · exact ⟨0, Nat.zero_le _, rfl⟩
    · refine ⟨i + 1, ?_, by rw [hfound, Option.map_some]⟩
      simp only [length_cons]
      omega

end Find

namespace Wildcard

variable {α : Type} {ts : List (Wildcard α)} {parts : List (List α)} {v w g p : List α}
  {trailing : Bool}

/-- The segments occur one after the other, with gaps between them and in front, and up to
the end unless the pattern ends with `any`. -/
def Floating (trailing : Bool) : List (List α) → List α → Prop
  | [], _ => True
  | [p], v => ∃ g w, v = g ++ (p ++ w) ∧ (trailing = true ∨ w = [])
  | p :: parts, v => ∃ g w, v = g ++ (p ++ w) ∧ Floating trailing parts w

/-- The first segment stands at the start. -/
def Anchored (trailing : Bool) : List (List α) → List α → Prop
  | [], v => v = []
  | [p], v => ∃ w, v = p ++ w ∧ (trailing = true ∨ w = [])
  | p :: parts, v => ∃ w, v = p ++ w ∧ Floating trailing parts w

/-- What stands in front belongs to the first gap. -/
theorem Floating.append_left (h : Floating trailing parts v) :
    Floating trailing parts (g ++ v) := by
  match parts, h with
  | [], _ => trivial
  | [p], ⟨g', w, hv, hend⟩ =>
    exact ⟨g ++ g', w, by rw [hv, append_assoc], hend⟩
  | p :: p' :: parts, ⟨g', w, hv, hrest⟩ =>
    exact ⟨g ++ g', w, by rw [hv, append_assoc], hrest⟩

theorem floating_cons (h : parts = [] → trailing = true) :
    Floating trailing (p :: parts) v ↔
      ∃ g w, v = g ++ (p ++ w) ∧ Floating trailing parts w := by
  cases parts with
  | nil => simp [Floating, h rfl]
  | cons p' parts => exact Iff.rfl

theorem anchored_cons (h : parts = [] → trailing = true) :
    Anchored trailing (p :: parts) v ↔ ∃ w, v = p ++ w ∧ Floating trailing parts w := by
  cases parts with
  | nil => simp [Anchored, Floating, h rfl]
  | cons p' parts => exact Iff.rfl

/-- With segments to come, the leftmost occurrence of a segment is as good as any. -/
theorem floating_cons_iff [DecidableEq α] (hparts : parts ≠ []) :
    Floating trailing (p :: parts) v ↔
      ∃ i, findSublist p v = some i ∧ Floating trailing parts (v.drop (i + p.length)) := by
  obtain ⟨p', parts, rfl⟩ := exists_cons_of_ne_nil hparts
  constructor
  · rintro ⟨g, w, hv, hrest⟩
    obtain ⟨i, hi, hfound⟩ := findSublist_le hv
    refine ⟨i, hfound, ?_⟩
    -- the rest after the leftmost occurrence is `w` with something in front
    have hsuffix : w = (v.drop (i + p.length)).drop (g.length - i) := by
      have hlength : i + p.length + (g.length - i) = (g ++ p).length := by
        simp only [length_append]
        omega
      rw [drop_drop, hlength, hv, ← append_assoc, drop_left]
    rw [← take_append_drop (g.length - i) (v.drop (i + p.length)), ← hsuffix]
    exact hrest.append_left
  · rintro ⟨i, hfound, hrest⟩
    obtain ⟨g, -, hv⟩ := append_of_findSublist hfound
    exact ⟨g, _, hv, hrest⟩

/-- A last segment that need not reach the end. -/
theorem floating_singleton_trailing [DecidableEq α] :
    Floating true [p] v ↔ (findSublist p v).isSome = true := by
  constructor
  · rintro ⟨g, w, hv, -⟩
    obtain ⟨i, -, hfound⟩ := findSublist_le hv
    rw [hfound]
    rfl
  · intro h
    obtain ⟨i, hfound⟩ := Option.isSome_iff_exists.mp h
    obtain ⟨g, -, hv⟩ := append_of_findSublist hfound
    exact ⟨g, _, hv, .inl rfl⟩

/-- A last segment that has to reach the end. -/
theorem floating_singleton_suffix : Floating false [p] v ↔ p <:+ v := by
  constructor
  · rintro ⟨g, w, rfl, hend⟩
    obtain rfl := hend.resolve_left (by simp)
    exact ⟨g, by rw [append_nil]⟩
  · rintro ⟨g, rfl⟩
    exact ⟨g, [], by rw [append_nil], .inr rfl⟩

end Wildcard

end RustDb.Lib
