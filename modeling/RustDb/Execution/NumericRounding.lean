import Mathlib.Data.Rat.Floor
import RustDb.Execution.Decimal
import RustDb.Execution.Error
import RustDb.Lib.Checked

/-!
# ROUND, CEIL and FLOOR on integers and decimals

`execution/functions/numeric.rs`, row by row.  A value is divided by a power of ten that
has to fit its integer type, and a decimal is then moved to the scale of the result.
Arithmetic that is not checked panics on overflow.

* `integerRound`, `unsignedRound`, `decimalRow`: the three evaluations.
* `Rounding.roundTo`: the exact rounding of a rational number to some digits.
* `Exact`: what an evaluation promises.
-/

namespace RustDb.Execution

open RustDb.Lib RustDb.Lib.Checked

/-- The three functions that round. -/
inductive Rounding where
  | round
  | ceil
  | floor
deriving DecidableEq, Repr

/-- The integers of a signed type. -/
def InSigned (bits : Nat) (v : Int) : Prop := -2 ^ (bits - 1) ≤ v ∧ v < 2 ^ (bits - 1)

instance decidableInSigned (bits : Nat) (v : Int) : Decidable (InSigned bits v) :=
  inferInstanceAs (Decidable (_ ∧ _))

/-- A checked operation of a signed type. -/
def signed? (bits : Nat) (v : Int) (e : Error) : Checked Error Int :=
  if InSigned bits v then .ok v else fail e

/-- An operation on `i64` that is not checked. -/
def signed! (v : Int) : Checked Error Int :=
  if InSigned 64 v then .ok v else panic

/-- `checked_pow` of 10, below the limit of the type. -/
def checkedPow (limit exponent : Nat) : Option Nat :=
  if 10 ^ exponent < limit then some (10 ^ exponent) else none

/-- The error of more digits than a step has. -/
def scaleOutOfRange (kind : String) (digits : Int) : Error :=
  .execution s!"{kind} rounding scale {digits} is out of range"

/-! ## Steps of a signed type -/

/-- The largest multiple of the step that is not above. -/
def floorStep (bits : Nat) (v step : Int) : Checked Error Int :=
  signed? bits (v / step * step) (.execution "numeric floor overflow")

/-- The smallest multiple of the step that is not below. -/
def ceilStep (bits : Nat) (v step : Int) : Checked Error Int := do
  let quotient ←
    if v % step = 0 then .ok (v / step)
    else signed? bits (v / step + 1) (.execution "numeric ceil overflow")
  signed? bits (quotient * step) (.execution "numeric ceil overflow")

/-- The quotient of `round_step`, which is one more from a half on. -/
def roundQuotient (magnitude step : Nat) : Checked Error Nat :=
  let remainder := magnitude % step
  if step - remainder ≤ remainder then
    orFail (fits 128 (magnitude / step + 1)) (.execution "numeric round overflow")
  else .ok (magnitude / step)

/-- The nearest multiple of the step, away from zero in the middle. -/
def roundStep (bits : Nat) (v step : Int) : Checked Error Int := do
  let quotient ← roundQuotient v.natAbs step.toNat
  let rounded ← orFail (fits 128 (quotient * step.toNat)) (.execution "numeric round overflow")
  let rounded ← signed? bits rounded (.execution "numeric round overflow")
  if v < 0 then signed? bits (-rounded) (.execution "numeric round overflow") else .ok rounded

/-- One of the three, for signed numbers of some bits. -/
def signedStepRound (bits : Nat) (v step : Int) : Rounding → Checked Error Int
  | .floor => floorStep bits v step
  | .ceil => ceilStep bits v step
  | .round => roundStep bits v step

/-! ## Rows -/

/-- Rounding of an integer; only negative digits change it. -/
def integerRound (v digits : Int) (f : Rounding) : Checked Error Int := do
  if 0 ≤ digits then return v
  let power ← signed! (-digits)
  let step ← orFail (checkedPow (2 ^ 63) (min power.toNat (2 ^ 32 - 1)))
    (scaleOutOfRange "numeric" digits)
  signedStepRound 64 v step f

/-- The quotient of `unsigned_round`, before the check of its addition. -/
def Rounding.unsignedQuotient (f : Rounding) (v step : Nat) : Nat :=
  let remainder := v % step
  match f with
  | .round => if step - remainder ≤ remainder then v / step + 1 else v / step
  | .ceil => if remainder ≠ 0 then v / step + 1 else v / step
  | .floor => v / step

/-- Rounding of an unsigned integer; only negative digits change it. -/
def unsignedRound (v : Nat) (digits : Int) (f : Rounding) : Checked Error Nat := do
  if 0 ≤ digits then return v
  let power ← signed! (-digits)
  let step ← orFail (checkedPow (2 ^ 64) (min power.toNat (2 ^ 32 - 1)))
    (scaleOutOfRange "numeric" digits)
  let quotient ←
    orFail (fits 64 (f.unsignedQuotient v step)) (.execution "numeric rounding overflow")
  orFail (fits 64 (quotient * step)) (.execution "numeric rounding overflow")

/-- Rounding of the digits of a decimal, which keep their scale. -/
def decimalRound (v : Int) (sourceScale : Int8) (digits : Int) (f : Rounding) :
    Checked Error Int := do
  let exponent ← signed! (sourceScale.toInt - digits)
  if exponent ≤ 0 then return v
  let power ← orFail (fits 32 exponent.toNat) (scaleOutOfRange "decimal" digits)
  let step ← orFail (checkedPow (2 ^ 127) power) (scaleOutOfRange "decimal" digits)
  signedStepRound 128 v step f

/-- The same decimal at another scale; lost digits must be zero. -/
def rescaleDecimal (v : Int) (sourceScale outputScale : Int8) : Checked Error Int := do
  let difference := sourceScale.toInt - outputScale.toInt
  if difference = 0 then return v
  let factor ← orFail (checkedPow (2 ^ 127) difference.natAbs)
    (.execution "decimal function result scale is out of range")
  if 0 < difference then
    if v.tmod factor ≠ 0 then
      fail (.internal "rounded DECIMAL result cannot be represented at its output scale")
    else return v.tdiv factor
  else
    signed? 128 (v * factor) (.execution "decimal function result overflowed Decimal128")

/-- The result has no more digits than its type. -/
def validateDecimalPrecision (v : Int) (precision : UInt8) (row : Nat) : Checked Error Unit := do
  let limit ← orFail (checkedPow (2 ^ 127) precision.toNat)
    (.execution "DECIMAL precision is out of range")
  failIf (limit ≤ v.natAbs)
    (.execution s!"decimal function result exceeds precision {precision} at row {row}")

/-- The scale of the result, from `decimal_numeric_output` of the binder. -/
def outputScale (f : Rounding) (inputScale : Int8) (digits : Int) : Int8 :=
  match f with
  | .ceil | .floor => 0
  | .round => Int8.ofInt (min inputScale.toInt (max digits 0))

/-- A row of `decimal`, whose result has the precision of the argument. -/
def decimalRow (f : Rounding) (v digits : Int) (precision : UInt8) (scale : Int8) (row : Nat) :
    Checked Error Int := do
  let rounded ← decimalRound v scale digits f
  let result ← rescaleDecimal rounded scale (outputScale f scale digits)
  validateDecimalPrecision result precision row
  return result

/-! ## The exact result -/

/-- The integer for a rational number; `round` takes a tie away from zero. -/
def Rounding.integral : Rounding → ℚ → Int
  | .floor, q => ⌊q⌋
  | .ceil, q => ⌈q⌉
  | .round, q => if q < 0 then -⌊-q + 1 / 2⌋ else ⌊q + 1 / 2⌋

/-- The exact rounding to so many digits behind the point. -/
def Rounding.roundTo (f : Rounding) (q : ℚ) (digits : Int) : ℚ :=
  f.integral (q * 10 ^ digits) * 10 ^ (-digits)

/-- A result is exact, an error means that the step does not fit or that there is no such
result, and no arithmetic overflows. -/
structure Exact {α : Type} (stepFits : Prop) (number : α → ℚ) (allowed : α → Prop) (exact : ℚ)
    (result : Checked Error α) : Prop where
  value : ∀ x, result = .ok x → allowed x ∧ number x = exact
  error : ∀ e, result = fail e → ¬stepFits ∨ ¬∃ x, allowed x ∧ number x = exact
  checked : result ≠ panic

/-! ## Division by a step -/

variable {step : Nat}

theorem ceil_div (v : Int) (h : 0 < step) :
    ⌈(v : ℚ) / step⌉ = if v % step = 0 then v / step else v / step + 1 := by
  have hsign : (step : Int).sign = 1 := Int.sign_eq_one_of_pos (by omega)
  rw [Rat.ceil_intCast_div_natCast, Int.neg_ediv, hsign]
  simp only [Int.dvd_iff_emod_eq_zero]
  split <;> omega

theorem half_div (m : Nat) (h : 0 < step) :
    ⌊(m : ℚ) / step + 1 / 2⌋ =
      ((if step - m % step ≤ m % step then m / step + 1 else m / step : Nat) : Int) := by
  have hpos : (0 : ℚ) < step := by exact_mod_cast h
  have hr : (m % step : Nat) / (step : ℚ) < 1 := by
    rw [div_lt_one hpos]
    exact_mod_cast Nat.mod_lt m h
  have hm : (m : ℚ) / step = (m / step : Nat) + (m % step : Nat) / (step : ℚ) := by
    rw [div_eq_iff hpos.ne', add_mul, div_mul_cancel₀ _ hpos.ne', mul_comm]
    exact_mod_cast (Nat.div_add_mod m step).symm
  rw [hm, add_assoc, Int.floor_natCast_add]
  split
  · rename_i hup
    have hhalf : (1 : ℚ) / 2 ≤ (m % step : Nat) / (step : ℚ) := by
      rw [div_le_div_iff₀ two_pos hpos]
      exact_mod_cast (by omega : 1 * step ≤ m % step * 2)
    rw [Int.floor_eq_iff.mpr (show ((1 : Int) : ℚ) ≤ _ ∧ _ by push_cast; constructor <;> linarith)]
    push_cast
    rfl
  · rename_i hdown
    have hhalf : (m % step : Nat) / (step : ℚ) < 1 / 2 := by
      rw [div_lt_div_iff₀ hpos two_pos]
      exact_mod_cast (by omega : m % step * 2 < 1 * step)
    have h0 : (0 : ℚ) ≤ (m % step : Nat) / (step : ℚ) := by positivity
    rw [Int.floor_eq_iff.mpr (show ((0 : Int) : ℚ) ≤ _ ∧ _ by push_cast; constructor <;> linarith)]
    simp

theorem integral_intCast (f : Rounding) (n : Int) : f.integral n = n := by
  cases f with
  | floor => exact Int.floor_intCast n
  | ceil => exact Int.ceil_intCast n
  | round =>
    have hhalf : ∀ m : Int, ⌊(m : ℚ) + 1 / 2⌋ = m := by
      intro m
      rw [Int.floor_intCast_add]
      norm_num
    simp only [Rounding.integral]
    split
    · rw [← Int.cast_neg, hhalf, neg_neg]
    · exact hhalf n

/-- The multiple of `10 ^ k` that a value is rounded to. -/
def Rounding.multiple (f : Rounding) (v : Int) (k : Nat) : Int :=
  f.integral (v / (10 ^ k : Nat)) * (10 ^ k : Nat)

theorem multiple_zero (f : Rounding) (v : Int) : f.multiple v 0 = v := by
  simp [Rounding.multiple, integral_intCast]

variable {s d : Int}

/-- Nothing is to be rounded when there are fewer digits. -/
theorem roundTo_of_le (f : Rounding) (v : Int) (h : s ≤ d) :
    f.roundTo (v * 10 ^ (-s)) d = v * 10 ^ (-s) := by
  have hint : (v : ℚ) * 10 ^ (-s) * 10 ^ d = ((v * 10 ^ (d - s).toNat : Int) : ℚ) := by
    rw [mul_assoc, ← zpow_add₀ (by norm_num)]
    push_cast
    rw [← zpow_natCast, show ((d - s).toNat : Int) = -s + d by omega]
  rw [Rounding.roundTo, hint, integral_intCast, ← hint, mul_assoc, ← zpow_add₀ (by norm_num),
    add_neg_cancel, zpow_zero, mul_one]

theorem roundTo_eq (f : Rounding) (v s d : Int) :
    f.roundTo (v * 10 ^ (-s)) d = f.multiple v (s - d).toNat * 10 ^ (-s) := by
  by_cases h : s ≤ d
  · rw [roundTo_of_le f v h, Int.toNat_of_nonpos (by omega), multiple_zero]
  · obtain ⟨k, hk⟩ := Int.eq_ofNat_of_zero_le (show 0 ≤ s - d by omega)
    have hdiv : (v : ℚ) * 10 ^ (-s) * 10 ^ d = v / (10 ^ k : Nat) := by
      rw [mul_assoc, ← zpow_add₀ (by norm_num), div_eq_mul_inv,
        show -s + d = -(k : Int) by omega, zpow_neg, zpow_natCast]
      push_cast
      rfl
    rw [Rounding.roundTo, hdiv, hk, Int.toNat_natCast, Rounding.multiple]
    push_cast
    rw [mul_assoc, ← zpow_natCast, ← zpow_add₀ (by norm_num), show (k : Int) + -s = -d by omega]

theorem matches_signed? (bits : Nat) (v : Int) (e : Error) :
    Matches (signed? bits v e) (if InSigned bits v then some v else none) := by
  unfold signed?
  split <;> rfl

theorem matches_fits (width n : Nat) (e : Error) :
    Matches (orFail (fits width n) e) (if n < 2 ^ width then some n else none) := by
  exact Matches.orFail

variable {bits : Nat}

theorem inSigned_of_mul {q step : Int} (hstep : 1 ≤ step) (h : InSigned bits (q * step)) :
    InSigned bits q := by
  unfold InSigned at *
  have hq : q * step ≤ q ∨ 0 ≤ q := by
    by_cases hq : 0 ≤ q
    · exact .inr hq
    · exact .inl (by nlinarith)
  constructor <;> nlinarith

/-- The quotient of `round_step`. -/
def halfQuotient (m step : Nat) : Nat :=
  if step - m % step ≤ m % step then m / step + 1 else m / step

theorem round_div (v : Int) (h : 0 < step) :
    Rounding.integral .round ((v : ℚ) / step) =
      if v < 0 then -(halfQuotient v.natAbs step : Int) else halfQuotient v.natAbs step := by
  have hpos : (0 : ℚ) < step := by exact_mod_cast h
  have habs : ((v.natAbs : Nat) : ℚ) = |(v : ℚ)| := by
    rw [← Int.cast_abs, Int.abs_eq_natAbs, Int.cast_natCast]
  have hneg : (v : ℚ) / step < 0 ↔ v < 0 := by
    rw [div_lt_iff₀ hpos, zero_mul, Int.cast_lt_zero]
  simp only [Rounding.integral, hneg, halfQuotient, ← half_div _ h, habs]
  split
  · rename_i hv
    rw [abs_of_neg (by exact_mod_cast hv), neg_div]
  · rename_i hv
    rw [abs_of_nonneg (by exact_mod_cast Int.not_lt.mp hv)]

variable {v : Int}

theorem roundStep_matches (hbits : bits = 64 ∨ bits = 128) (hv : InSigned bits v)
    (hpos : 0 < step) (h10 : 10 ∣ step) :
    Matches (roundStep bits v step)
      (if InSigned bits (Rounding.integral .round (v / step) * step) then
        some (Rounding.integral .round (v / step) * step) else none) := by
  have hlimit : (2 : Int) ^ (bits - 1) ≤ 2 ^ 127 ∧ ¬10 ∣ (2 : Int) ^ (bits - 1) := by
    cases hbits with
    | inl h => subst h; decide
    | inr h => subst h; decide
  have hfirst : roundQuotient v.natAbs step = .ok (halfQuotient v.natAbs step) := by
    have hle : v.natAbs / step ≤ v.natAbs := Nat.div_le_self ..
    unfold InSigned at hv
    simp only [roundQuotient, halfQuotient]
    split
    · rw [fits_eq (by omega)]
      rfl
    · rfl
  obtain ⟨j, hj⟩ : 10 ∣ halfQuotient v.natAbs step * step := h10.mul_left _
  have hx : (if v < 0 then -(halfQuotient v.natAbs step : Int) else halfQuotient v.natAbs step) *
      (step : Int) = if v < 0 then -((10 * j : Nat) : Int) else (10 * j : Nat) := by
    rw [← hj]
    split <;> push_cast <;> ring
  rw [round_div v hpos, hx]
  simp only [roundStep, Int.toNat_natCast, hfirst, ok_bind, hj]
  refine (matches_fits ..).guarded_bind ?_ fun _ => (matches_signed? ..).guarded_bind ?_ fun h => ?_
  · unfold InSigned
    split <;> omega
  · unfold InSigned
    split <;> omega
  · by_cases hneg : v < 0
    · simp only [if_pos hneg]
      exact matches_signed? ..
    · simp only [if_neg hneg]
      exact Matches.guarded h .ok

variable {k : Nat}

/-- The step functions round exactly, or there is no such integer in the type. -/
theorem signedStepRound_matches (hbits : bits = 64 ∨ bits = 128) (hv : InSigned bits v)
    (hk : 0 < k) (f : Rounding) :
    Matches (signedStepRound bits v (10 ^ k : Nat) f)
      (if InSigned bits (f.multiple v k) then some (f.multiple v k) else none) := by
  have hpos : 0 < 10 ^ k := Nat.pow_pos (by omega)
  have h10 : 10 ∣ 10 ^ k := dvd_pow_self 10 (by omega)
  unfold Rounding.multiple
  generalize 10 ^ k = step at *
  cases f with
  | floor =>
    simp only [signedStepRound, floorStep, Rounding.integral, Rat.floor_intCast_div_natCast]
    exact matches_signed? ..
  | ceil =>
    simp only [signedStepRound, ceilStep, Rounding.integral, ceil_div v hpos]
    split
    · exact matches_signed? ..
    · exact (matches_signed? ..).guarded_bind (inSigned_of_mul (by omega)) fun _ =>
        matches_signed? ..
  | round => exact roundStep_matches hbits hv hpos h10

/-! ## Rows -/

theorem matches_checkedPow (limit exponent : Nat) (e : Error) :
    Matches (orFail (checkedPow limit exponent) e)
      (if 10 ^ exponent < limit then some (10 ^ exponent) else none) :=
  Matches.orFail

/-- An exponent that is cut off is too large in any case. -/
theorem checkedPow_min {limit : Nat} (h : limit ≤ 10 ^ 39) :
    checkedPow limit (min k (2 ^ 32 - 1)) = checkedPow limit k := by
  by_cases hk : k ≤ 2 ^ 32 - 1
  · rw [min_eq_left hk]
  · have hlarge : ∀ n, 39 ≤ n → checkedPow limit n = none := fun n hn =>
      if_neg (Nat.not_lt.mpr (h.trans (Nat.pow_le_pow_right (by omega) hn)))
    rw [hlarge _ (by omega), hlarge _ (by omega)]

variable {α : Type} {stepFits : Prop} {exact : ℚ} {result : Checked Error α} {allowed : α → Prop}
  {number : α → ℚ}

/-- An evaluation is exact that has a value if and only if there is one and the step fits. -/
theorem Exact.of_matches {o : Option α} (h : Matches result o)
    (hvalue : ∀ y, o = some y ↔ stepFits ∧ allowed y ∧ number y = exact) :
    Exact stepFits number allowed exact result := by
  refine ⟨fun x hx => ((hvalue x).mp (h.eq_ok_iff.mp hx)).2, fun e he => ?_, h.ne_panic⟩
  by_contra hcon
  rw [not_or, not_not, not_not] at hcon
  obtain ⟨hfits, x, hx⟩ := hcon
  rw [he] at h
  cases h.symm.trans ((hvalue x).mpr ⟨hfits, hx⟩)

theorem Exact.of_guarded {x : α}
    [Decidable stepFits] [Decidable (allowed x)]
    (h : Matches result (if stepFits ∧ allowed x then some x else none))
    (hnumber : ∀ y, number y = exact ↔ y = x) : Exact stepFits number allowed exact result := by
  apply Exact.of_matches h
  intro y
  rw [hnumber]
  constructor
  · intro hy
    split at hy
    · rename_i hx
      cases hy
      exact ⟨hx.1, hx.2, rfl⟩
    · cases hy
  · intro ⟨hfits, hallowed, hy⟩
    subst hy
    exact if_pos ⟨hfits, hallowed⟩

theorem integerRound_exact (hv : InSigned 64 v) (hd : InSigned 64 (-d)) (f : Rounding) :
    Exact (10 ^ (-d).toNat < 2 ^ 63) (fun x : Int => x) (InSigned 64) (f.roundTo v d)
      (integerRound v d f) := by
  have hexact : f.roundTo v d = f.multiple v (-d).toNat := by
    simpa using roundTo_eq f v 0 d
  refine Exact.of_guarded ?_ fun y => by rw [hexact, Int.cast_inj]
  by_cases hneg : 0 ≤ d
  · rw [Int.toNat_of_nonpos (by omega), multiple_zero, integerRound, if_pos hneg]
    exact .guarded ⟨by decide, hv⟩ .ok
  · simp only [integerRound, if_neg hneg, signed!, if_pos hd, ok_bind,
      checkedPow_min (show 2 ^ 63 ≤ 10 ^ 39 by decide)]
    refine (matches_checkedPow ..).guarded_bind And.left fun hstep => ?_
    simp only [hstep, true_and]
    exact signedStepRound_matches (.inl rfl) hv (by omega) f

theorem unsignedQuotient_eq (f : Rounding) (v : Nat) (h : 0 < step) :
    (f.unsignedQuotient v step : Int) = f.integral ((v : Int) / step) := by
  cases f with
  | floor => rw [Rounding.integral, Rat.floor_intCast_div_natCast]; rfl
  | ceil =>
    rw [Rounding.integral, ceil_div _ h, Rounding.unsignedQuotient]
    norm_cast
    split_ifs <;> rfl
  | round =>
    rw [round_div _ h, if_neg (by omega), Int.natAbs_natCast]
    rfl

theorem unsignedRound_exact {v : Nat} (hv : v < 2 ^ 64) (hd : InSigned 64 (-d)) (f : Rounding) :
    Exact (10 ^ (-d).toNat < 2 ^ 64) (fun x : Nat => x) (· < 2 ^ 64) (f.roundTo v d)
      (unsignedRound v d f) := by
  have hexact : f.roundTo v d = f.multiple v (-d).toNat := by
    simpa using roundTo_eq f v 0 d
  have hpos : 0 < 10 ^ (-d).toNat := Nat.pow_pos (by omega)
  have hmultiple : f.multiple v (-d).toNat =
      (f.unsignedQuotient v (10 ^ (-d).toNat) * 10 ^ (-d).toNat : Nat) := by
    rw [Rounding.multiple, ← unsignedQuotient_eq f v hpos]
    push_cast
    rfl
  refine Exact.of_guarded ?_ fun y => by rw [hexact, hmultiple, Int.cast_natCast, Nat.cast_inj]
  by_cases hneg : 0 ≤ d
  · rw [Int.toNat_of_nonpos (by omega), multiple_zero, Nat.cast_inj] at hmultiple
    rw [unsignedRound, if_pos hneg, Int.toNat_of_nonpos (by omega), ← hmultiple]
    exact .guarded ⟨by decide, hv⟩ .ok
  · simp only [unsignedRound, if_neg hneg, signed!, if_pos hd, ok_bind,
      checkedPow_min (show 2 ^ 64 ≤ 10 ^ 39 by decide)]
    refine (matches_checkedPow ..).guarded_bind And.left fun hstep => ?_
    simp only [hstep, true_and]
    exact (matches_fits ..).guarded_bind
      (fun h => (Nat.le_mul_of_pos_right _ hpos).trans_lt h) fun _ => matches_fits ..

/-! ## Decimals -/

/-- The argument of a decimal row: digits of a valid type. -/
structure ValidDecimal (v : Int) (precision : UInt8) (scale : Int8) : Prop where
  precision_le : precision.toNat ≤ 38
  scale_le : scale.toInt ≤ 38
  value_lt : v.natAbs < 10 ^ precision.toNat

theorem ten_pow_lt_iff : 10 ^ k < 2 ^ 127 ↔ k ≤ 38 := by
  constructor
  · intro h
    by_contra hk
    have hle : 10 ^ 39 ≤ 10 ^ k := Nat.pow_le_pow_right (by omega) (by omega)
    omega
  · intro hk
    exact (Nat.pow_le_pow_right (by omega) hk).trans_lt (by decide)

theorem natAbs_integral_le (f : Rounding) {q : ℚ} {c : Nat} (h : |q| ≤ c) :
    (f.integral q).natAbs ≤ c := by
  rw [abs_le] at h
  have hhalf : ∀ r : ℚ, 0 ≤ r → r ≤ c → 0 ≤ ⌊r + 1 / 2⌋ ∧ ⌊r + 1 / 2⌋ < (c : Int) + 1 := by
    intro r h0 hc
    rw [Int.floor_nonneg, Int.floor_lt]
    push_cast
    exact ⟨by linarith, by linarith⟩
  have hbounds : -(c : Int) ≤ f.integral q ∧ f.integral q ≤ c := by
    cases f with
    | floor =>
      refine ⟨Int.le_floor.mpr (by exact_mod_cast h.1), Int.lt_add_one_iff.mp (Int.floor_lt.mpr ?_)⟩
      push_cast
      linarith
    | ceil =>
      refine ⟨Int.sub_one_lt_iff.mp (Int.lt_ceil.mpr ?_), Int.ceil_le.mpr (by exact_mod_cast h.2)⟩
      push_cast
      linarith
    | round =>
      simp only [Rounding.integral]
      split
      · have := hhalf (-q) (by linarith) (by linarith)
        omega
      · have := hhalf q (by linarith) h.2
        omega
  omega

variable {n : Nat}

/-- A bound that is a multiple of the step is kept. -/
theorem natAbs_multiple_le (f : Rounding) (hk : k ≤ n) (hv : v.natAbs ≤ 10 ^ n) :
    (f.multiple v k).natAbs ≤ 10 ^ n := by
  have hpos : (0 : ℚ) < (10 ^ k : Nat) := by positivity
  have hn : 10 ^ (n - k) * 10 ^ k = 10 ^ n := by rw [← pow_add, Nat.sub_add_cancel hk]
  have hq : |(v : ℚ) / (10 ^ k : Nat)| ≤ (10 ^ (n - k) : Nat) := by
    rw [abs_div, abs_of_pos hpos, div_le_iff₀ hpos, ← Int.cast_abs, Int.abs_eq_natAbs,
      Int.cast_natCast]
    exact_mod_cast hn ▸ hv
  rw [Rounding.multiple, Int.natAbs_mul, Int.natAbs_natCast, ← hn]
  exact Nat.mul_le_mul_right _ (natAbs_integral_le f hq)

variable {scale : Int8}

theorem decimalRound_matches (hv : v.natAbs ≤ 10 ^ 38) (hd : InSigned 64 (scale.toInt - d))
    (f : Rounding) :
    Matches (decimalRound v scale d f) (if 10 ^ (scale.toInt - d).toNat < 2 ^ 127 then
      some (f.multiple v (scale.toInt - d).toNat) else none) := by
  have hsigned : ∀ x : Int, x.natAbs ≤ 10 ^ 38 → InSigned 128 x := by
    intro x hx
    unfold InSigned
    omega
  simp only [decimalRound, signed!, if_pos hd, ok_bind]
  by_cases hneg : scale.toInt - d ≤ 0
  · rw [if_pos hneg, Int.toNat_of_nonpos hneg, multiple_zero]
    exact .guarded (by decide) .ok
  · rw [if_neg hneg]
    refine (matches_fits ..).guarded_bind (fun h => ?_) fun _ =>
      (matches_checkedPow ..).guarded_bind id fun h => ?_
    · have := ten_pow_lt_iff.mp h
      omega
    · have hround := signedStepRound_matches (.inr rfl) (hsigned v hv) (by omega) f
        (k := (scale.toInt - d).toNat)
      rw [if_pos (hsigned _ (natAbs_multiple_le f (ten_pow_lt_iff.mp h) hv))] at hround
      exact .guarded h hround

variable {x : Int}

theorem decimalValue_eq_iff {y : Int} {a b : Int8} (h : a.toInt - b.toInt = n) :
    decimalValue y b = decimalValue x a ↔ y * 10 ^ n = x := by
  unfold decimalValue
  rw [show -b.toInt = n + -a.toInt by omega, zpow_add₀ (by norm_num), ← mul_assoc,
    mul_left_inj' (zpow_ne_zero _ (by norm_num)), zpow_natCast]
  exact_mod_cast Iff.rfl

/-- Where the power of ten fits, moving to another scale finds the same number if there is
one. -/
theorem rescaleDecimal_matches {output : Int8} (hpow : (scale.toInt - output.toInt).natAbs ≤ 38) :
    ∃ o, Matches (rescaleDecimal x scale output) o ∧ ∀ y, y.natAbs ≤ 10 ^ 38 →
      (o = some y ↔ decimalValue y output = decimalValue x scale) := by
  have hcheck : checkedPow (2 ^ 127) (scale.toInt - output.toInt).natAbs =
      some (10 ^ (scale.toInt - output.toInt).natAbs) := if_pos (ten_pow_lt_iff.mpr hpow)
  simp only [rescaleDecimal, hcheck, orFail, ok_bind]
  generalize hn : (scale.toInt - output.toInt).natAbs = n
  have hne : (10 ^ n : Int) ≠ 0 := by positivity
  obtain h | h | h := lt_trichotomy (scale.toInt - output.toInt) 0
  · simp only [if_neg h.ne, if_neg h.not_gt]
    refine ⟨_, matches_signed? .., fun y hy => ?_⟩
    rw [eq_comm (a := decimalValue y output), decimalValue_eq_iff (n := n) (by omega)]
    push_cast
    constructor
    · intro ho
      split at ho
      · cases ho
        rfl
      · cases ho
    · intro hy'
      rw [hy', if_pos]
      unfold InSigned
      omega
  · simp only [if_pos h]
    refine ⟨_, .ok, fun y _ => ?_⟩
    rw [decimalValue_eq_iff (n := 0) (by omega)]
    simp [eq_comm]
  · simp only [if_neg h.ne', if_pos h]
    refine ⟨if x.tmod (10 ^ n : Nat) ≠ 0 then none else some (x.tdiv (10 ^ n : Nat)), ?_,
      fun y _ => ?_⟩
    · split <;> rfl
    · rw [decimalValue_eq_iff (n := n) (by omega)]
      push_cast
      constructor
      · intro ho
        split at ho
        · cases ho
        · rename_i hmod
          cases ho
          have hdiv := Int.mul_tdiv_add_tmod x (10 ^ n)
          rw [not_not.mp hmod, add_zero, mul_comm] at hdiv
          exact hdiv
      · intro hy
        rw [← hy]
        simp [hne]

/-- The exact result is zero, but the power of ten between the scales does not fit. -/
def ZeroOutOfScale (f : Rounding) (v digits scale : Int) : Prop :=
  scale < -38 ∧ scale - digits ≤ 38 ∧
    match f with
    | .round => False
    | .floor => 0 ≤ v ∧ v < 10 ^ (scale - digits).toNat
    | .ceil => -10 ^ (scale - digits).toNat < v ∧ v ≤ 0

theorem multiple_eq_zero_iff (v : Int) (k : Nat) :
    (Rounding.multiple .floor v k = 0 ↔ 0 ≤ v ∧ v < 10 ^ k) ∧
      (Rounding.multiple .ceil v k = 0 ↔ -10 ^ k < v ∧ v ≤ 0) := by
  have hpos : (0 : ℚ) < (10 ^ k : Nat) := by positivity
  have hne : ((10 ^ k : Nat) : Int) ≠ 0 := by positivity
  simp only [Rounding.multiple, mul_eq_zero, hne, or_false, Rounding.integral]
  rw [Int.floor_eq_zero_iff, Int.ceil_eq_zero_iff, Set.mem_Ico, Set.mem_Ioc, le_div_iff₀ hpos,
    div_lt_iff₀ hpos, lt_div_iff₀ hpos, div_le_iff₀ hpos, zero_mul, one_mul, neg_one_mul]
  constructor
  · exact_mod_cast Iff.rfl
  · exact_mod_cast Iff.rfl

theorem zeroOutOfScale_iff {f : Rounding} (hf : f ≠ .round) (hs : s < -38) :
    ZeroOutOfScale f v d s ↔ s - d ≤ 38 ∧ f.multiple v (s - d).toNat = 0 := by
  cases f with
  | round => exact absurd rfl hf
  | floor => simp only [ZeroOutOfScale, hs, true_and, (multiple_eq_zero_iff ..).1]
  | ceil => simp only [ZeroOutOfScale, hs, true_and, (multiple_eq_zero_iff ..).2]

section Row

variable {f : Rounding} {v d : Int} {precision : UInt8} {scale : Int8} {row : Nat}

theorem toInt_outputScale (f : Rounding) (scale : Int8) (d : Int) :
    (outputScale f scale d).toInt = if f = .round then min scale.toInt (max d 0) else 0 := by
  cases f with
  | round =>
    have hlow := scale.le_toInt
    have hhigh := scale.toInt_lt
    exact Int8.toInt_ofInt_of_le (by omega) (by omega)
  | _ => rfl

/-- The power of ten between the scales of argument and result. -/
theorem scales_fit_iff (h : scale.toInt ≤ 38) (f : Rounding) (d : Int) :
    (scale.toInt - (outputScale f scale d).toInt).natAbs ≤ 38 ↔
      f = .round ∨ -38 ≤ scale.toInt := by
  rw [toInt_outputScale]
  split_ifs with hf
  · simp only [hf, true_or, iff_true]
    omega
  · simp only [hf, false_or]
    omega

theorem matches_validate (y : Int) (h : precision.toNat ≤ 38) :
    Matches (validateDecimalPrecision y precision row >>= fun _ => .ok y)
      (if y.natAbs < 10 ^ precision.toNat then some y else none) := by
  have hcheck : checkedPow (2 ^ 127) precision.toNat = some (10 ^ precision.toNat) :=
    if_pos (ten_pow_lt_iff.mpr h)
  simp only [validateDecimalPrecision, hcheck, orFail, ok_bind]
  exact .guarded_failIf (fun hlt => by omega) fun hlt => .guarded (by omega) .ok

/-- A row has a value when the powers of ten fit and the exact result has a place in the
type. -/
theorem decimalRow_matches (h : ValidDecimal v precision scale)
    (hd : InSigned 64 (scale.toInt - d)) :
    ∃ o, Matches (decimalRow f v d precision scale row) o ∧ ∀ y, o = some y ↔
      (10 ^ (scale.toInt - d).toNat < 2 ^ 127 ∧ (f = .round ∨ -38 ≤ scale.toInt)) ∧
        y.natAbs < 10 ^ precision.toNat ∧ decimalValue y (outputScale f scale d) =
          decimalValue (f.multiple v (scale.toInt - d).toNat) scale := by
  have hlimit : 10 ^ precision.toNat ≤ 10 ^ 38 := Nat.pow_le_pow_right (by omega) h.precision_le
  have hround : Matches (decimalRound v scale d f) _ :=
    decimalRound_matches (h.value_lt.le.trans hlimit) hd f
  by_cases hstep : 10 ^ (scale.toInt - d).toNat < 2 ^ 127
  · rw [if_pos hstep] at hround
    simp only [decimalRow, hround.eq_ok_iff.mpr rfl, ok_bind, hstep, true_and]
    by_cases hscale : f = .round ∨ -38 ≤ scale.toInt
    · obtain ⟨o, ho, hy⟩ := rescaleDecimal_matches (x := f.multiple v (scale.toInt - d).toNat)
        ((scales_fit_iff h.scale_le f d).mpr hscale)
      refine ⟨_, ho.bind fun y _ => matches_validate y h.precision_le, fun y => ?_⟩
      rw [Option.bind_eq_some_iff]
      constructor
      · rintro ⟨z, hz, hif⟩
        split at hif
        · rename_i hlt
          cases hif
          exact ⟨hscale, hlt, (hy y (by omega)).mp hz⟩
        · cases hif
      · rintro ⟨-, hlt, hvalue⟩
        exact ⟨y, (hy y (by omega)).mpr hvalue, if_pos hlt⟩
    · have hpow : ¬(scale.toInt - (outputScale f scale d).toInt).natAbs ≤ 38 :=
        fun hpow => hscale ((scales_fit_iff h.scale_le f d).mp hpow)
      have hnone : checkedPow (2 ^ 127) (scale.toInt - (outputScale f scale d).toInt).natAbs =
          none := if_neg fun hlt => hpow (ten_pow_lt_iff.mp hlt)
      refine ⟨none, ?_, fun y => by simp [hscale]⟩
      have hdiffer : ¬scale.toInt - (outputScale f scale d).toInt = 0 := by omega
      simp only [rescaleDecimal, if_neg hdiffer, hnone, orFail, fail_bind]
      rfl
  · rw [if_neg hstep] at hround
    exact ⟨none, hround.bind (g := fun _ => none) fun y hy => (Option.some_ne_none y hy.symm).elim,
      fun y => iff_of_false (Option.some_ne_none y).symm fun hy => hstep hy.1.1⟩

/-- A decimal row is exact where the digits and the scale are not too far apart. -/
theorem decimalRow_exact_iff (h : ValidDecimal v precision scale) :
    Exact (10 ^ (scale.toInt - d).toNat < 2 ^ 127)
        (decimalValue · (outputScale f scale d)) (·.natAbs < 10 ^ precision.toNat)
        (f.roundTo (decimalValue v scale) d) (decimalRow f v d precision scale row) ↔
      InSigned 64 (scale.toInt - d) ∧ ¬ZeroOutOfScale f v d scale.toInt := by
  rw [decimalValue, roundTo_eq, ← decimalValue]
  by_cases hd : InSigned 64 (scale.toInt - d)
  · obtain ⟨o, ho, hy⟩ : ∃ o, Matches (decimalRow f v d precision scale row) o ∧ _ :=
      decimalRow_matches h hd
    by_cases hscale : f = .round ∨ -38 ≤ scale.toInt
    · have hzero : ¬ZeroOutOfScale f v d scale.toInt := by
        rintro ⟨hlow, -, hf⟩
        cases hscale with
        | inl hround => subst hround; exact hf
        | inr hle => omega
      simp only [hd, hzero, not_false_eq_true, and_self, iff_true]
      exact .of_matches ho fun y => by rw [hy, and_assoc]; simp [hscale]
    · rw [not_or] at hscale
      have hnone : ∀ y, o ≠ some y := fun y ho => (((hy y).mp ho).1.2.elim hscale.1 hscale.2)
      simp only [hd, true_and, zeroOutOfScale_iff hscale.1 (Int.not_le.mp hscale.2)]
      constructor
      · rintro hexact ⟨hk, hzero⟩
        obtain ⟨e, he⟩ := ho.exists_fail (Option.eq_none_iff_forall_ne_some.mpr hnone)
        apply (hexact.error e he).elim (· (ten_pow_lt_iff.mpr (by omega)))
        intro hno
        exact hno ⟨0, Nat.pow_pos (by omega), by simp [hzero, decimalValue]⟩
      · intro hzero
        refine .of_matches ho fun y => iff_of_false (hnone y) ?_
        rintro ⟨hstep, hlt, heq⟩
        rw [eq_comm, decimalValue_eq_iff (n := scale.toInt.natAbs)
          (by rw [toInt_outputScale, if_neg hscale.1]; omega)] at heq
        have hx : f.multiple v (scale.toInt - d).toNat ≠ 0 := by
          intro hx
          have hk := ten_pow_lt_iff.mp hstep
          exact hzero ⟨by omega, hx⟩
        have hlarge : 10 ^ 39 ≤ y.natAbs := by
          rw [← heq, Int.natAbs_mul, Int.natAbs_pow]
          calc 10 ^ 39 ≤ 10 ^ scale.toInt.natAbs := Nat.pow_le_pow_right (by omega) (by omega)
            _ ≤ _ := Nat.le_mul_of_pos_left _ (by omega)
        have hlimit : 10 ^ precision.toNat ≤ 10 ^ 38 :=
          Nat.pow_le_pow_right (by omega) h.precision_le
        omega
  · have hpanic : decimalRow f v d precision scale row = panic := by
      simp [decimalRow, decimalRound, signed!, hd]
      rfl
    simp only [hd, false_and, iff_false]
    intro hexact
    exact hexact.checked hpanic

end Row

/-- The roundings of integers are exact but for the least digits, and those of decimals but
for digits too far from the scale and for a zero of a scale below -38. -/
theorem rounding_exact_iff (f : Rounding) :
    (∀ v d, InSigned 64 v → InSigned 64 d →
      (Exact (10 ^ (-d).toNat < 2 ^ 63) (fun x : Int => x) (InSigned 64) (f.roundTo v d)
        (integerRound v d f) ↔ d ≠ -2 ^ 63)) ∧
    (∀ (v : Nat) (d : Int), v < 2 ^ 64 → InSigned 64 d →
      (Exact (10 ^ (-d).toNat < 2 ^ 64) (fun x : Nat => x) (· < 2 ^ 64) (f.roundTo v d)
        (unsignedRound v d f) ↔ d ≠ -2 ^ 63)) ∧
    (∀ v d precision (scale : Int8) row, ValidDecimal v precision scale →
      (Exact (10 ^ (scale.toInt - d).toNat < 2 ^ 127) (decimalValue · (outputScale f scale d))
        (·.natAbs < 10 ^ precision.toNat) (f.roundTo (decimalValue v scale) d)
        (decimalRow f v d precision scale row) ↔
          InSigned 64 (scale.toInt - d) ∧ ¬ZeroOutOfScale f v d scale.toInt)) := by
  have hneg : ∀ d, InSigned 64 d → d ≠ -2 ^ 63 → InSigned 64 (-d) := by
    unfold InSigned
    omega
  refine ⟨fun v d hv hd => ⟨?_, fun h => integerRound_exact hv (hneg d hd h) f⟩,
    fun v d hv hd => ⟨?_, fun h => unsignedRound_exact hv (hneg d hd h) f⟩,
    fun v d precision scale row h => decimalRow_exact_iff h⟩
  · intro hexact hd
    subst hd
    exact hexact.checked (by simp [integerRound, signed!]; rfl)
  · intro hexact hd
    subst hd
    exact hexact.checked (by simp [unsignedRound, signed!]; rfl)

/-- `ROUND(2.0, -9223372036854775807)` and `ROUND(5, -9223372036854775808)` overflow, and
`FLOOR` of a zero with scale -100 has no result. -/
theorem rounding_overflows :
    decimalRow .round 20 (-9223372036854775807) 2 1 0 = panic ∧
      integerRound 5 (-9223372036854775808) .round = panic ∧
      decimalRow .floor 0 0 5 (-100) 0 =
        fail (.execution "decimal function result scale is out of range") := by
  decide +kernel

end RustDb.Execution
