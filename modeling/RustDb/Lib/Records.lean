import Mathlib.Algebra.Order.Field.Rat
import Mathlib.Data.List.Basic

/-!
# Records of a stream

An automaton reads a stream and says at which elements a record ends; after such an
element it is in its start state again.

* `Delimiter.EndsAt`: a record ends at a position of a list.
* `Delimiter.Group limit`: a list that ends at the first end of a record at or after
  the position `limit`.
* `Delimiter.Open limit`: a list in which no record ends at or after `limit`.
* `Delimiter.groups_unique`: a list is cut into groups in at most one way.
-/

namespace RustDb.Lib

open List

/-- An automaton that finds the ends of records. -/
structure Delimiter (α : Type) where
  State : Type
  start : State
  step : State → α → State
  ends : State → α → Prop
  step_of_ends : ∀ {s a}, ends s a → step s a = start

namespace Delimiter

variable {α : Type} (d : Delimiter α)

/-- The state behind some symbols. -/
def after (l : List α) : d.State :=
  l.foldl d.step d.start

/-- A record ends at the position `i`. -/
def EndsAt (l : List α) (i : Nat) : Prop :=
  ∃ a, l[i]? = some a ∧ d.ends (d.after (l.take i)) a

/-- No record ends at or after the position `limit`. -/
def Open (limit : Nat) (l : List α) : Prop :=
  ∀ i, limit ≤ i → ¬ d.EndsAt l i

/-- The position `n` is the first one at or after `limit` where a record ends. -/
def FirstEnd (limit : Nat) (l : List α) (n : Nat) : Prop :=
  limit ≤ n ∧ d.EndsAt l n ∧ ∀ i, limit ≤ i → i < n → ¬ d.EndsAt l i

/-- The list ends at its first end of a record at or after `limit`. -/
def Group (limit : Nat) (l : List α) : Prop :=
  ∃ n, l.length = n + 1 ∧ d.FirstEnd limit l n

variable {d} {l r : List α} {a : α} {i n limit : Nat}

theorem after_append : d.after (l ++ r) = r.foldl d.step (d.after l) :=
  foldl_append

theorem after_append_of_start (h : d.after l = d.start) : d.after (l ++ r) = d.after r := by
  rw [after_append, h, after]

theorem after_take_succ (h : l[i]? = some a) :
    d.after (l.take (i + 1)) = d.step (d.after (l.take i)) a := by
  rw [take_add_one, h, Option.toList_some, after_append]
  rfl

/-- A state that every element of a stretch keeps is the state after the stretch. -/
theorem after_take_add {s : d.State} (hs : d.after (l.take i) = s)
    (hkeep : ∀ k b, i ≤ k → k < i + n → l[k]? = some b → d.step s b = s) :
    ∀ m ≤ n, d.after (l.take (i + m)) = s := by
  intro m hm
  induction m with
  | zero => exact hs
  | succ m ih =>
    have hprev := ih (by omega)
    cases hget : l[i + m]? with
    | some b =>
      rw [← add_assoc, after_take_succ hget, hprev]
      exact hkeep (i + m) b (by omega) (by omega) hget
    | none =>
      rw [← add_assoc, take_add_one, hget, Option.toList_none, append_nil]
      exact hprev

theorem FirstEnd.unique {n' : Nat} (h : d.FirstEnd limit l n) (h' : d.FirstEnd limit l n') :
    n = n' := by
  obtain ⟨hle, hends, hfirst⟩ := h
  obtain ⟨hle', hends', hfirst'⟩ := h'
  rcases lt_trichotomy n n' with hlt | heq | hgt
  · exact absurd hends (hfirst' n hle hlt)
  · exact heq
  · exact absurd hends' (hfirst n' hle' hgt)

theorem EndsAt.lt_length (h : d.EndsAt l i) : i < l.length := by
  obtain ⟨a, hget, -⟩ := h
  exact (List.getElem?_eq_some_iff.mp hget).1

/-- Whether a record ends at a position depends on the list up to there. -/
theorem endsAt_append_left (hi : i < l.length) : d.EndsAt (l ++ r) i ↔ d.EndsAt l i := by
  have htake : (l ++ r).take i = l.take i := take_append_of_le_length (by omega)
  unfold EndsAt
  rw [getElem?_append_left hi, htake]

/-- The ends of records after a prefix that leads back to the start. -/
theorem endsAt_append_right (h : d.after l = d.start) :
    d.EndsAt (l ++ r) (l.length + i) ↔ d.EndsAt r i := by
  have htake : (l ++ r).take (l.length + i) = l ++ r.take i := take_length_add_append i
  have hget : (l ++ r)[l.length + i]? = r[i]? := by
    rw [getElem?_append_right (by omega), Nat.add_sub_cancel_left]
  unfold EndsAt
  rw [hget, htake, after_append_of_start h]

theorem after_of_endsAt_last (hlength : l.length = n + 1) (h : d.EndsAt l n) :
    d.after l = d.start := by
  obtain ⟨a, hget, hends⟩ := h
  have hall : d.after (l.take (n + 1)) = d.start := by
    rw [after_take_succ hget]
    exact d.step_of_ends hends
  rwa [take_of_length_le (by omega)] at hall

theorem Group.after_eq (h : d.Group limit l) : d.after l = d.start := by
  obtain ⟨n, hlength, -, hends, -⟩ := h
  exact after_of_endsAt_last hlength hends

theorem Group.ne_nil (h : d.Group limit l) : l ≠ [] := by
  obtain ⟨n, hlength, -⟩ := h
  intro hnil
  rw [hnil] at hlength
  simp at hlength

theorem after_flatten {groups : List (List α)} (h : ∀ g ∈ groups, d.Group limit g) :
    d.after groups.flatten = d.start := by
  induction groups with
  | nil => rfl
  | cons g groups ih =>
    rw [flatten_cons, after_append_of_start (h g mem_cons_self).after_eq]
    exact ih fun g hg => h g (mem_cons_of_mem _ hg)

/-- A list that starts with a group is not open. -/
theorem Group.not_open (h : d.Group limit l) : ¬ d.Open limit (l ++ r) := by
  obtain ⟨n, hlength, hle, hends, -⟩ := h
  intro hopen
  exact hopen n hle ((endsAt_append_left (by omega)).mpr hends)

/-- Two groups that start one list are equal. -/
theorem Group.length_le {l' r' : List α} (h : d.Group limit l) (h' : d.Group limit l')
    (heq : l ++ r = l' ++ r') : l.length ≤ l'.length := by
  obtain ⟨n, hlength, -, -, hfirst⟩ := h
  obtain ⟨n', hlength', hle', hends', -⟩ := h'
  by_contra hlt
  have hends : d.EndsAt (l' ++ r') n' := (endsAt_append_left (by omega)).mpr hends'
  rw [← heq, endsAt_append_left (by omega)] at hends
  exact hfirst n' hle' (by omega) hends

theorem Group.eq_of_append {l' r' : List α} (h : d.Group limit l) (h' : d.Group limit l')
    (heq : l ++ r = l' ++ r') : l = l' ∧ r = r' := by
  have hlength : l.length = l'.length :=
    le_antisymm (h.length_le h' heq) (h'.length_le h heq.symm)
  exact append_inj heq hlength

/-- A list is cut into groups and an open rest in at most one way. -/
theorem groups_unique {groups groups' : List (List α)} {rest rest' : List α}
    (hgroups : ∀ g ∈ groups, d.Group limit g) (hrest : d.Open limit rest)
    (hgroups' : ∀ g ∈ groups', d.Group limit g) (hrest' : d.Open limit rest')
    (heq : groups.flatten ++ rest = groups'.flatten ++ rest') :
    groups = groups' ∧ rest = rest' := by
  induction groups generalizing groups' with
  | nil =>
    cases groups' with
    | nil => exact ⟨rfl, heq⟩
    | cons g' groups' =>
      have hg' := hgroups' g' mem_cons_self
      simp only [flatten_nil, nil_append, flatten_cons, append_assoc] at heq
      rw [heq] at hrest
      exact absurd hrest hg'.not_open
  | cons g groups ih =>
    have hg := hgroups g mem_cons_self
    cases groups' with
    | nil =>
      simp only [flatten_nil, nil_append, flatten_cons, append_assoc] at heq
      rw [← heq] at hrest'
      exact absurd hrest' hg.not_open
    | cons g' groups' =>
      have hg' := hgroups' g' mem_cons_self
      simp only [flatten_cons, append_assoc] at heq
      obtain ⟨rfl, htail⟩ := hg.eq_of_append hg' heq
      obtain ⟨rfl, rfl⟩ := ih (fun g hg => hgroups g (mem_cons_of_mem _ hg))
        (fun g hg => hgroups' g (mem_cons_of_mem _ hg)) htail
      exact ⟨rfl, rfl⟩

/-- The end of a group inside a stream, after a prefix that leads back to the start. -/
theorem Group.firstEnd_append {front : List α} (h : d.Group limit l)
    (hfront : d.after front = d.start) :
    d.FirstEnd (front.length + limit) (front ++ l ++ r) (front.length + l.length - 1) := by
  obtain ⟨n, hlength, hle, hends, hfirst⟩ := h
  have hlast : front.length + l.length - 1 = front.length + n := by omega
  rw [hlast, append_assoc]
  refine ⟨by omega, ?_, ?_⟩
  · rw [endsAt_append_right hfront, endsAt_append_left (by omega)]
    exact hends
  · intro i hi hlt
    obtain ⟨j, rfl⟩ : ∃ j, i = front.length + j := ⟨i - front.length, by omega⟩
    rw [endsAt_append_right hfront, endsAt_append_left (by omega)]
    exact hfirst j (by omega) (by omega)

end Delimiter

end RustDb.Lib
