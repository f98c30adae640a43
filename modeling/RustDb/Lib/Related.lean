import Mathlib.Data.List.Sort
import RustDb.Lib.PartialLists

/-!
# Related results of partial functions

Two runs of partial functions on related lists either both fail or give related results.
`Option.Rel R` says so of two results.

* `rel_bind`, `rel_mapM`, `rel_tryFilter`, `rel_tryFlatMap`: the rules of sequencing, maps,
  filters and concatenations.
* `forall₂_insertionSort`, `forall₂_zip`: lists of related elements stay related when both are
  sorted or zipped in the same way.
-/

namespace RustDb.Lib

open List

variable {α β γ δ : Type} {R : α → β → Prop} {S : γ → δ → Prop}

/-! ## Results -/

variable {x : Option α} {y : Option β} {f : α → Option γ} {l : List α} {l' : List β}

theorem rel_bind_of_eq {g : β → Option δ}
    (h : Option.Rel R x y) (hfg : ∀ a b, x = some a → R a b → Option.Rel S (f a) (g b)) :
    Option.Rel S (x.bind f) (y.bind g) := by
  cases h with
  | some hab => exact hfg _ _ rfl hab
  | none => exact .none

theorem rel_bind {g : β → Option δ}
    (h : Option.Rel R x y) (hfg : ∀ a b, R a b → Option.Rel S (f a) (g b)) :
    Option.Rel S (x.bind f) (y.bind g) :=
  rel_bind_of_eq h fun a b _ => hfg a b

/-- Two computations that start alike. -/
theorem rel_bind_same {g : α → Option δ} (hfg : ∀ a, Option.Rel S (f a) (g a)) :
    Option.Rel S (x.bind f) (x.bind g) := by
  cases x with
  | some a => exact hfg a
  | none => exact .none

theorem rel_map {f : α → γ} {g : β → δ}
    (h : Option.Rel R x y) (hfg : ∀ a b, R a b → S (f a) (g b)) :
    Option.Rel S (x.map f) (y.map g) := by
  cases h with
  | some hab => exact .some (hfg _ _ hab)
  | none => exact .none

theorem rel_imp {S : α → β → Prop} (h : Option.Rel R x y)
    (himp : ∀ a b, R a b → S a b) : Option.Rel S x y := by
  cases h with
  | some hab => exact .some (himp _ _ hab)
  | none => exact .none

theorem rel_of_eq {y : Option α} {R : α → α → Prop} (h : x = y) (hrefl : ∀ a, R a a) :
    Option.Rel R x y := by
  subst h
  cases x with
  | none => exact .none
  | some a => exact .some (hrefl a)

/-- Related results that a function makes equal. -/
theorem map_eq_of_rel {f : α → γ} {g : β → γ}
    (h : Option.Rel R x y) (hfg : ∀ a b, R a b → f a = g b) : x.map f = y.map g := by
  cases h with
  | some hab => exact congrArg some (hfg _ _ hab)
  | none => rfl

theorem bind_eq_of_rel {g : β → Option γ}
    (h : Option.Rel R x y) (hfg : ∀ a b, R a b → f a = g b) : x.bind f = y.bind g := by
  cases h with
  | some hab => exact hfg _ _ hab
  | none => rfl

/-! ## Lists -/

section

variable (h : List.Forall₂ R l l')
include h

theorem rel_mapM {g : β → Option δ} (hfg : ∀ a b, R a b → Option.Rel S (f a) (g b)) :
    Option.Rel (List.Forall₂ S) (l.mapM f) (l'.mapM g) := by
  induction h with
  | nil => exact .some .nil
  | @cons a b l l' hab _ ih =>
    rw [mapM_cons, mapM_cons]
    refine rel_bind (hfg a b hab) fun c d hcd => ?_
    exact rel_bind ih fun cs ds hrest => .some (.cons hcd hrest)

/-- A function with the same results on related elements. -/
theorem mapM_eq_of_forall₂ {g : β → Option γ} (hfg : ∀ a b, R a b → f a = g b) :
    l.mapM f = l'.mapM g := by
  induction h with
  | nil => rfl
  | @cons a b l l' hab _ ih => rw [mapM_cons, mapM_cons, hfg a b hab, ih]

theorem map_eq_of_forall₂ {f : α → γ} {g : β → γ} (hfg : ∀ a b, R a b → f a = g b) :
    l.map f = l'.map g := by
  induction h with
  | nil => rfl
  | @cons a b l l' hab _ ih => rw [map_cons, map_cons, hfg a b hab, ih]

theorem rel_tryFilter {p : α → Option Bool} {q : β → Option Bool} (hpq : ∀ a b, R a b → p a = q b) :
    Option.Rel (List.Forall₂ R) (tryFilter p l) (tryFilter q l') := by
  have hall : l.all (fun a => (p a).isSome) = l'.all fun b => (q b).isSome := by
    induction h with
    | nil => rfl
    | @cons a b l l' hab _ ih => rw [all_cons, all_cons, hpq a b hab, ih]
  rw [tryFilter, tryFilter, hall]
  split
  · exact .some (rel_filter (fun a b hab => by simp only [hpq a b hab]) h)
  · exact .none

theorem rel_tryFlatMap {f : α → Option (List γ)} {g : β → Option (List δ)}
    (hfg : ∀ a b, R a b → Option.Rel (List.Forall₂ S) (f a) (g b)) :
    Option.Rel (List.Forall₂ S) (tryFlatMap f l) (tryFlatMap g l') :=
  rel_map (rel_mapM h hfg) rel_flatten

end

/-! ## Order -/

theorem forall₂_orderedInsert {r : α → α → Prop} {s : β → β → Prop} [DecidableRel r]
    [DecidableRel s] (hrs : ∀ a b a' b', R a b → R a' b' → (r a a' ↔ s b b'))
    (h : List.Forall₂ R l l') {a : α} {b : β} (hab : R a b) :
    List.Forall₂ R (l.orderedInsert r a) (l'.orderedInsert s b) := by
  induction h with
  | nil => exact .cons hab .nil
  | @cons c d l l' hcd hrest ih =>
    rw [orderedInsert_cons, orderedInsert_cons]
    by_cases hr : r a c
    · rw [if_pos hr, if_pos ((hrs a b c d hab hcd).mp hr)]
      exact .cons hab (.cons hcd hrest)
    · rw [if_neg hr, if_neg fun hs => hr ((hrs a b c d hab hcd).mpr hs)]
      exact .cons hcd ih

/-- Elements that compare alike are sorted alike. -/
theorem forall₂_insertionSort {r : α → α → Prop} {s : β → β → Prop} [DecidableRel r]
    [DecidableRel s] (hrs : ∀ a b a' b', R a b → R a' b' → (r a a' ↔ s b b'))
    (h : List.Forall₂ R l l') :
    List.Forall₂ R (l.insertionSort r) (l'.insertionSort s) := by
  induction h with
  | nil => exact .nil
  | cons hab _ ih => exact forall₂_orderedInsert hrs ih hab

/-- The same list zipped with related lists. -/
theorem forall₂_zip (keys : List γ) (h : List.Forall₂ R l l') :
    List.Forall₂ (fun a b => a.1 = b.1 ∧ R a.2 b.2) (keys.zip l) (keys.zip l') := by
  induction h generalizing keys with
  | nil =>
    rw [zip_nil_right, zip_nil_right]
    exact .nil
  | cons hab _ ih =>
    cases keys with
    | nil => exact .nil
    | cons key keys => exact .cons ⟨rfl, hab⟩ (ih keys)

end RustDb.Lib
