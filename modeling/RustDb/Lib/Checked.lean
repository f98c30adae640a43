import RustDb.Lib.Collections

/-!
# Results that may also panic

The result of a function in a language that checks indices and arithmetic when it
runs: a value, an error that the function returns, or a panic.

* `index`, `slice`, `add`, `sub`, `mul` and `shiftLeft` panic where the language does.
* `Returns m Q`: `m` never panics, and a value that it returns has `Q`.
* `Matches m o`: `m` computes the optional value `o`.  It returns the value if there
  is one and an error if there is none, and it never panics.
-/

namespace RustDb.Lib

open List

variable {ε α β σ : Type}

/-- How a computation ends when it has no value. -/
inductive Failure (ε : Type) where
  | error (e : ε)
  | panic
deriving DecidableEq, Repr

/-- A value, an error or a panic. -/
abbrev Checked (ε α : Type) := Except (Failure ε) α

namespace Checked

/-- An error. -/
def fail (e : ε) : Checked ε α := .error (.error e)

/-- A panic. -/
def panic : Checked ε α := .error .panic

/-- The value, or the error when there is none. -/
def orFail (o : Option α) (e : ε) : Checked ε α :=
  match o with
  | some a => .ok a
  | none => fail e

/-- Fails with `e` when `c` holds. -/
def failIf (c : Prop) [Decidable c] (e : ε) : Checked ε Unit :=
  if c then fail e else .ok ()

/-- Panics unless `c` holds. -/
def require (c : Prop) [Decidable c] : Checked ε Unit :=
  if c then .ok () else panic

/-- `xs[i]`. -/
def index (xs : List α) (i : Nat) : Checked ε α :=
  match xs[i]? with
  | some a => .ok a
  | none => panic

/-- `xs.get(start..stop)`. -/
def range? (xs : List α) (start stop : Nat) : Option (List α) :=
  if start ≤ stop ∧ stop ≤ xs.length then some ((xs.take stop).drop start) else none

/-- `&xs[start..stop]`. -/
def slice (xs : List α) (start stop : Nat) : Checked ε (List α) :=
  match range? xs start stop with
  | some ys => .ok ys
  | none => panic

/-- A number that has to fit in `width` bits. -/
def fits (width n : Nat) : Option Nat :=
  if n < 2 ^ width then some n else none

/-- A result that has to fit in `width` bits, or the operation panics. -/
def inWidth (width n : Nat) : Checked ε Nat :=
  match fits width n with
  | some n => .ok n
  | none => panic

/-- An addition that panics beyond the width. -/
def add (width x y : Nat) : Checked ε Nat := inWidth width (x + y)

/-- A multiplication that panics beyond the width. -/
def mul (width x y : Nat) : Checked ε Nat := inWidth width (x * y)

/-- A subtraction that panics below zero. -/
def sub (x y : Nat) : Checked ε Nat :=
  if y ≤ x then .ok (x - y) else panic

/-- `x << n`: bits are lost at the top, and a shift by the width panics. -/
def shiftLeft (width x n : Nat) : Checked ε Nat :=
  if n < width then .ok (x <<< n % 2 ^ width) else panic

/-- `x >> n`. -/
def shiftRight (width x n : Nat) : Checked ε Nat :=
  if n < width then .ok (x >>> n) else panic

/-! ## Operations that do not panic -/

@[simp] theorem ok_bind (a : α) (f : α → Checked ε β) : (Except.ok a >>= f) = f a := rfl

@[simp] theorem fail_bind (e : ε) (f : α → Checked ε β) : (fail e >>= f) = fail e := rfl

variable {xs : List α} {a : α}

theorem index_eq {i : Nat} (h : xs[i]? = some a) : index (ε := ε) xs i = .ok a := by
  rw [index, h]

@[simp] theorem index_eq_ok {i : Nat} : index (ε := ε) xs i = .ok a ↔ xs[i]? = some a := by
  unfold index
  cases xs[i]? <;> simp [panic]

variable {start stop : Nat} {c : Prop} {x y : Nat} {ys : List α}

theorem range?_eq (h : start ≤ stop) (hstop : stop ≤ xs.length) :
    range? xs start stop = some ((xs.take stop).drop start) :=
  if_pos ⟨h, hstop⟩

theorem range?_eq_some :
    range? xs start stop = some ys ↔
      start ≤ stop ∧ stop ≤ xs.length ∧ ys = (xs.take stop).drop start := by
  unfold range?
  split
  · rename_i h
    simp [h, eq_comm]
  · rename_i h
    simp only [reduceCtorEq, false_iff]
    intro h'
    exact h ⟨h'.1, h'.2.1⟩

theorem length_of_range? (h : range? xs start stop = some ys) :
    ys.length = stop - start := by
  obtain ⟨-, hstop, rfl⟩ := range?_eq_some.mp h
  rw [length_drop, length_take, Nat.min_eq_left hstop]

theorem slice_eq (h : start ≤ stop) (hstop : stop ≤ xs.length) :
    slice (ε := ε) xs start stop = .ok ((xs.take stop).drop start) := by
  rw [slice, range?_eq h hstop]

variable {width : Nat}

theorem fits_eq {n : Nat} (h : n < 2 ^ width) : fits width n = some n :=
  if_pos h

@[simp] theorem fits_eq_some {n m : Nat} : fits width n = some m ↔ n < 2 ^ width ∧ m = n := by
  unfold fits
  split
  · rename_i h
    simp [h, eq_comm]
  · rename_i h
    simp [h]

theorem add_eq (h : x + y < 2 ^ width) : add (ε := ε) width x y = .ok (x + y) := by
  rw [add, inWidth, fits_eq h]

theorem mul_eq (h : x * y < 2 ^ width) : mul (ε := ε) width x y = .ok (x * y) := by
  rw [mul, inWidth, fits_eq h]

@[simp] theorem inWidth_eq_ok {n m : Nat} :
    inWidth (ε := ε) width n = .ok m ↔ n < 2 ^ width ∧ m = n := by
  unfold inWidth
  by_cases h : n < 2 ^ width
  · simp [fits_eq h, h, eq_comm]
  · simp [fits, h, panic]

@[simp] theorem add_eq_ok {x y z : Nat} :
    add (ε := ε) width x y = .ok z ↔ x + y < 2 ^ width ∧ z = x + y :=
  inWidth_eq_ok

@[simp] theorem mul_eq_ok {x y z : Nat} :
    mul (ε := ε) width x y = .ok z ↔ x * y < 2 ^ width ∧ z = x * y :=
  inWidth_eq_ok

theorem sub_eq (h : y ≤ x) : sub (ε := ε) x y = .ok (x - y) :=
  if_pos h

theorem shiftLeft_eq {x n : Nat} (h : n < width) :
    shiftLeft (ε := ε) width x n = .ok (x <<< n % 2 ^ width) :=
  if_pos h

theorem shiftRight_eq {x n : Nat} (h : n < width) :
    shiftRight (ε := ε) width x n = .ok (x >>> n) :=
  if_pos h

theorem require_eq [Decidable c] (h : c) : require (ε := ε) c = .ok () :=
  if_pos h

variable {e : ε}

theorem failIf_eq [Decidable c] (h : ¬ c) : failIf c e = .ok () :=
  if_neg h

@[simp] theorem failIf_eq_ok [Decidable c] {u : Unit} : failIf c e = .ok u ↔ ¬ c := by
  unfold failIf
  split <;> simp_all [fail]

/-- A step that succeeds. -/
theorem step {x : Checked ε α} {f : α → Checked ε β} {b : β} (hx : x = .ok a)
    (hf : f a = .ok b) : x >>= f = .ok b := by
  rw [hx, ok_bind, hf]

/-- A check that passes. -/
theorem pass [Decidable c] {f : Checked ε β} {b : β} (h : ¬ c) (hf : f = .ok b) :
    (failIf c e >>= fun _ => f) = .ok b :=
  step (failIf_eq h) hf

@[simp] theorem orFail_eq_ok {o : Option α} : orFail o e = .ok a ↔ o = some a := by
  cases o <;> simp [orFail, fail]

theorem toOption_eq_some {m : Checked ε α} : m.toOption = some a ↔ m = .ok a := by
  cases m <;> simp [Except.toOption]

/-! ## Computations that never panic -/

/-- `m` never panics, and a value that it returns has `Q`. -/
def Returns (m : Checked ε α) (Q : α → Prop) : Prop :=
  match m with
  | .ok a => Q a
  | .error (.error _) => True
  | .error .panic => False

namespace Returns

variable {m : Checked ε α} {Q R : α → Prop} {a : α}

theorem ok (h : Q a) : Returns (ε := ε) (.ok a) Q := h

variable {e : ε}

theorem fail : Returns (fail e) Q := trivial

theorem imp (h : Returns m Q) (himp : ∀ a, Q a → R a) : Returns m R := by
  rcases m with (e | _) | a
  · trivial
  · exact h
  · exact himp a h

theorem bind {f : α → Checked ε β} {R : β → Prop} (h : Returns m Q)
    (hf : ∀ a, Q a → Returns (f a) R) : Returns (m >>= f) R := by
  rcases m with (e | _) | a
  · trivial
  · exact h
  · exact hf a h

theorem failIf_bind {c : Prop} [Decidable c] {f : Checked ε β} {R : β → Prop}
    (hf : ¬ c → Returns f R) : Returns (failIf c e >>= fun _ => f) R := by
  unfold Checked.failIf
  split
  · trivial
  · rename_i h
    exact hf h

theorem orFail {o : Option α} : Returns (orFail o e) fun a => o = some a := by
  cases o
  · trivial
  · rfl

variable {xs : List α}

theorem index {i : Nat} (h : i < xs.length) :
    Returns (ε := ε) (index xs i) fun a => xs[i]? = some a := by
  have hget := getElem?_eq_getElem h
  rw [index_eq hget]
  exact hget

theorem slice {start stop : Nat} (h : start ≤ stop) (hstop : stop ≤ xs.length) :
    Returns (ε := ε) (slice xs start stop) fun ys => ys.length = stop - start := by
  rw [slice_eq h hstop]
  exact length_of_range? (range?_eq h hstop)

theorem of_eq_ok (h : Returns m Q) (hm : m = .ok a) : Q a := by
  rw [hm] at h
  exact h

end Returns

/-! ## Computations of an optional value -/

/-- `m` computes the optional value `o`, without a panic. -/
def Matches (m : Checked ε α) (o : Option α) : Prop :=
  match m with
  | .ok a => o = some a
  | .error (.error _) => o = none
  | .error .panic => False

namespace Matches

variable {m : Checked ε α} {o : Option α} {a : α}

theorem ok : Matches (ε := ε) (.ok a) (some a) := rfl

variable {e : ε}

theorem fail : Matches (α := α) (fail e) none := rfl

theorem orFail : Matches (orFail o e) o := by
  cases o <;> rfl

theorem bind {f : α → Checked ε β} {g : α → Option β} (h : Matches m o)
    (hf : ∀ a, o = some a → Matches (f a) (g a)) : Matches (m >>= f) (o.bind g) := by
  rcases m with (e | _) | a
  · rw [show o = none from h]
    rfl
  · exact h.elim
  · rw [show o = some a from h, Option.bind_some]
    exact hf a h

theorem map {f : α → β} (h : Matches m o) :
    Matches (m >>= fun a => .ok (f a)) (o.map f) := by
  rw [Option.map_eq_bind]
  exact h.bind fun a _ => ok

/-- A step that has a value under a condition, which the condition `d` on the whole
computation implies. -/
theorem guarded_bind {c d : Prop} [Decidable c] [Decidable d] {f : α → Checked ε β} {o : Option β}
    (h : Matches m (if c then some a else none)) (hdc : d → c)
    (hf : c → Matches (f a) (if d then o else none)) :
    Matches (m >>= f) (if d then o else none) := by
  by_cases hc : c
  · rw [if_pos hc] at h
    rcases m with (e | _) | b
    · cases h
    · exact h.elim
    · cases h
      exact hf hc
  · rw [if_neg hc] at h
    rw [if_neg fun hd => hc (hdc hd)]
    rcases m with (e | _) | b
    · rfl
    · exact h.elim
    · cases h

/-- `guarded_bind` for a check. -/
theorem guarded_failIf {c d : Prop} [Decidable c] [Decidable d] {f : Checked ε β} {o : Option β}
    (hdc : d → ¬ c) (hf : ¬ c → Matches f (if d then o else none)) :
    Matches (Checked.failIf c e >>= fun _ => f) (if d then o else none) := by
  by_cases hc : c
  · rw [Checked.failIf, if_pos hc, if_neg fun hd => hdc hd hc]
    rfl
  · rw [failIf_eq hc]
    exact hf hc

/-- The condition on the whole computation, once all steps have been taken. -/
theorem guarded {d : Prop} [Decidable d] (hd : d) (h : Matches m o) :
    Matches m (if d then o else none) := by
  rw [if_pos hd]
  exact h

theorem of_returns {Q : α → Prop} (h : Returns m Q) : Matches m m.toOption := by
  rcases m with (e | _) | a
  · rfl
  · exact h
  · rfl

theorem returns (h : Matches m o) : Returns m fun a => o = some a := by
  rcases m with (e | _) | a
  · trivial
  · exact h
  · exact h

/-- The computation returns exactly the values of `o`. -/
theorem eq_ok_iff (h : Matches m o) : m = .ok a ↔ o = some a := by
  rcases m with (e | _) | b
  · rw [show o = none from h]
    simp
  · exact h.elim
  · rw [show o = some b from h]
    simp

/-- Without a value the computation returns an error. -/
theorem exists_fail (h : Matches m o) (ho : o = none) : ∃ e, m = Checked.fail e := by
  rcases m with (e | _) | b
  · exact ⟨e, rfl⟩
  · exact h.elim
  · rw [ho] at h
    cases h

theorem ne_panic (h : Matches m o) : m ≠ Checked.panic := by
  rintro rfl
  exact h

/-- A loop over a list that stops at the first element without a value. -/
theorem mapM {l : List σ} {f : σ → Checked ε α} {g : σ → Option α}
    (h : ∀ x ∈ l, Matches (f x) (g x)) : Matches (l.mapM f) (l.mapM g) := by
  induction l with
  | nil => exact ok
  | cons x l ih =>
    rw [mapM_cons, mapM_cons]
    refine (h x (mem_cons_self ..)).bind fun a _ => ?_
    exact (ih fun y hy => h y (mem_cons_of_mem _ hy)).bind fun as _ => ok

/-- A loop whose body computes one value of each element and adds it to the state. -/
theorem foldlM {l : List σ} {body : α → σ → Checked ε α} (step : σ → Option β)
    (push : α → σ → β → α)
    (h : ∀ x ∈ l, ∀ a, Matches (body a x) ((step x).map (push a x))) (a : α) :
    Matches (l.foldlM body a)
      ((l.mapM step).map fun bs => (l.zip bs).foldl (fun a p => push a p.1 p.2) a) := by
  induction l generalizing a with
  | nil => exact ok
  | cons x l ih =>
    rw [foldlM_cons, mapM_cons]
    have hx := h x (mem_cons_self ..) a
    have hl := ih fun y hy => h y (mem_cons_of_mem _ hy)
    cases hstep : step x with
    | none =>
      rw [hstep] at hx
      obtain ⟨e, he⟩ := hx.exists_fail rfl
      rw [he]
      rfl
    | some b =>
      rw [hstep] at hx
      rw [hx.eq_ok_iff.mpr rfl, ok_bind]
      have hrest := hl (push a x b)
      cases hmap : l.mapM step with
      | none | some bs =>
        rw [hmap] at hrest
        exact hrest

end Matches

end Checked

end RustDb.Lib
