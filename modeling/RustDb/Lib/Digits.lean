import Mathlib.Data.Nat.Digits.Lemmas

/-!
# Numbers as digit strings

Digits stand with the most significant one first.

* `compare_strictMono`, `compare_strictAnti`: comparisons after a monotone map.
* `numberOf`: the number that a digit string denotes.
* `digitsOf`: the digits of a positive number, without zeros in front.
* `firstDifference`: the order of the first two digits that differ; for strings of one
  length this is the order of the numbers (`firstDifference_eq`).
-/

namespace RustDb.Lib

open List

/-! ## Comparisons -/

/-- An order-preserving map does not change a comparison. -/
theorem compare_strictMono {α β : Type} [LinearOrder α] [LinearOrder β] {f : α → β}
    (hf : StrictMono f) (x y : α) : compare (f x) (f y) = compare x y := by
  rcases lt_trichotomy x y with h | h | h
  · rw [compare_lt_iff_lt.mpr h, compare_lt_iff_lt.mpr (hf h)]
  · rw [h, compare_eq_iff_eq.mpr rfl, compare_eq_iff_eq.mpr rfl]
  · rw [compare_gt_iff_gt.mpr h, compare_gt_iff_gt.mpr (hf h)]

/-- An order-reversing map turns a comparison around. -/
theorem compare_strictAnti {α β : Type} [LinearOrder α] [LinearOrder β] {f : α → β}
    (hf : StrictAnti f) (x y : α) : compare (f x) (f y) = (compare x y).swap := by
  rcases lt_trichotomy x y with h | h | h
  · rw [compare_lt_iff_lt.mpr h, compare_gt_iff_gt.mpr (hf h)]
    rfl
  · rw [h, compare_eq_iff_eq.mpr rfl, compare_eq_iff_eq.mpr rfl]
    rfl
  · rw [compare_gt_iff_gt.mpr h, compare_lt_iff_lt.mpr (hf h)]
    rfl

/-! ## Digit strings -/

variable {b : Nat} {l r : List Nat}

/-- The number with the digits `l` in base `b`. -/
def numberOf (b : Nat) (l : List Nat) : Nat :=
  l.foldl (fun n d => n * b + d) 0

theorem foldl_digits (n : Nat) :
    l.foldl (fun n d => n * b + d) n = n * b ^ l.length + numberOf b l := by
  induction l generalizing n with
  | nil => simp [numberOf]
  | cons d l ih =>
    rw [numberOf, foldl_cons, foldl_cons, ih, ih (0 * b + d), length_cons, pow_succ]
    ring

@[simp]
theorem numberOf_nil : numberOf b [] = 0 := rfl

theorem numberOf_cons (d : Nat) : numberOf b (d :: l) = d * b ^ l.length + numberOf b l := by
  rw [numberOf, foldl_cons, foldl_digits]
  ring

theorem numberOf_append :
    numberOf b (l ++ r) = numberOf b l * b ^ r.length + numberOf b r := by
  rw [numberOf, foldl_append, foldl_digits]
  rfl

theorem numberOf_replicate_zero (k : Nat) : numberOf b (List.replicate k 0) = 0 := by
  induction k with
  | zero => rfl
  | succ k ih => rw [replicate_succ, numberOf_cons, ih, zero_mul]

theorem numberOf_lt (h : ∀ d ∈ l, d < b) : numberOf b l < b ^ l.length := by
  induction l with
  | nil => simp
  | cons d l ih =>
    have hd : d + 1 ≤ b := h d mem_cons_self
    have hl := ih fun d hd => h d (mem_cons_of_mem _ hd)
    calc numberOf b (d :: l) = d * b ^ l.length + numberOf b l := numberOf_cons d
      _ < d * b ^ l.length + b ^ l.length := Nat.add_lt_add_left hl _
      _ = (d + 1) * b ^ l.length := by ring
      _ ≤ b * b ^ l.length := Nat.mul_le_mul_right _ hd
      _ = b ^ (d :: l).length := by rw [length_cons, pow_succ, mul_comm]

/-- The digits of a number, without zeros in front. -/
def digitsOf (b n : Nat) : List Nat :=
  (Nat.digits b n).reverse

theorem numberOf_reverse (l : List Nat) : numberOf b l.reverse = Nat.ofDigits b l := by
  induction l with
  | nil => rfl
  | cons d l ih =>
    rw [reverse_cons, numberOf_append, ih, Nat.ofDigits_cons]
    simp [numberOf]
    ring

theorem numberOf_digitsOf (b n : Nat) : numberOf b (digitsOf b n) = n := by
  rw [digitsOf, numberOf_reverse, Nat.ofDigits_digits]

theorem lt_of_mem_digitsOf {n d : Nat} (hb : 1 < b) (h : d ∈ digitsOf b n) : d < b :=
  Nat.digits_lt_base hb (mem_reverse.mp h)

theorem lt_pow_length_digitsOf (hb : 1 < b) (n : Nat) : n < b ^ (digitsOf b n).length := by
  rw [digitsOf, length_reverse]
  exact Nat.lt_base_pow_length_digits hb

theorem pow_length_digitsOf_le {n : Nat} (hb : 1 < b) (hn : n ≠ 0) :
    b ^ ((digitsOf b n).length - 1) ≤ n := by
  rw [digitsOf, length_reverse, Nat.length_digits b n hb hn, Nat.add_sub_cancel]
  exact Nat.pow_log_le_self b hn

theorem length_digitsOf_pos {n : Nat} (hn : n ≠ 0) : 0 < (digitsOf b n).length := by
  rw [digitsOf, length_reverse, length_pos_iff]
  exact Nat.digits_ne_nil_iff_ne_zero.mpr hn

/-- The order of the first two digits that differ. -/
def firstDifference : List Nat → List Nat → Ordering
  | x :: l, y :: r => if x ≠ y then compare x y else firstDifference l r
  | _, _ => .eq

/-- The digit string with zeros behind it, up to the given length. -/
def padTo (width : Nat) (l : List Nat) : List Nat :=
  l ++ List.replicate (width - l.length) 0

theorem length_padTo {width : Nat} (h : l.length ≤ width) : (padTo width l).length = width := by
  rw [padTo, length_append, length_replicate]
  omega

theorem numberOf_padTo (width : Nat) :
    numberOf b (padTo width l) = numberOf b l * b ^ (width - l.length) := by
  rw [padTo, numberOf_append, numberOf_replicate_zero, length_replicate, add_zero]

theorem lt_of_mem_padTo {width d : Nat} (hb : 0 < b) (hl : ∀ d ∈ l, d < b)
    (h : d ∈ padTo width l) : d < b := by
  rcases mem_append.mp h with hmem | hmem
  · exact hl d hmem
  · rw [eq_of_mem_replicate hmem]
    exact hb

/-- Digit strings of one length are ordered by their first difference. -/
theorem firstDifference_eq (hlength : l.length = r.length) (hl : ∀ d ∈ l, d < b)
    (hr : ∀ d ∈ r, d < b) : firstDifference l r = compare (numberOf b l) (numberOf b r) := by
  induction l generalizing r with
  | nil =>
    cases r with
    | nil => rfl
    | cons y r => simp at hlength
  | cons x l ih =>
    cases r with
    | nil => simp at hlength
    | cons y r =>
      have hlength' : l.length = r.length := by simpa using hlength
      have hl' : ∀ d ∈ l, d < b := fun d hd => hl d (mem_cons_of_mem _ hd)
      have hr' : ∀ d ∈ r, d < b := fun d hd => hr d (mem_cons_of_mem _ hd)
      have hlowl := numberOf_lt hl'
      have hlowr := numberOf_lt hr'
      rw [firstDifference, numberOf_cons, numberOf_cons, hlength']
      rw [hlength'] at hlowl
      split
      · -- the leading digits decide, since the rest is less than one of their units
        next hne =>
        rcases lt_or_gt_of_ne hne with hlt | hgt
        · have hunit : (x + 1) * b ^ r.length ≤ y * b ^ r.length := Nat.mul_le_mul_right _ hlt
          rw [add_mul, Nat.one_mul] at hunit
          rw [Nat.compare_eq_lt.mpr hlt, Nat.compare_eq_lt.mpr (by omega)]
        · have hunit : (y + 1) * b ^ r.length ≤ x * b ^ r.length := Nat.mul_le_mul_right _ hgt
          rw [add_mul, Nat.one_mul] at hunit
          rw [Nat.compare_eq_gt.mpr hgt, Nat.compare_eq_gt.mpr (by omega)]
      · next heq =>
        rw [not_not] at heq
        subst heq
        rw [ih hlength' hl' hr']
        rcases lt_trichotomy (numberOf b l) (numberOf b r) with hlt | heq | hgt
        · rw [Nat.compare_eq_lt.mpr hlt, Nat.compare_eq_lt.mpr (by omega)]
        · rw [Nat.compare_eq_eq.mpr heq, Nat.compare_eq_eq.mpr (by omega)]
        · rw [Nat.compare_eq_gt.mpr hgt, Nat.compare_eq_gt.mpr (by omega)]

end RustDb.Lib
