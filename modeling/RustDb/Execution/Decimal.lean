import Mathlib.Tactic.FieldSimp
import Mathlib.Tactic.Positivity
import RustDb.Lib.Digits
import RustDb.Sql.Expr

/-!
# Decimal numbers

The comparison of decimals in `execution/expr.rs`, and Arrow's casts to a decimal type.

* `decimalValue`: the rational number that digits with a scale stand for.
* `compareDecimalValues`: the comparison by exponent and padded digits, which is the order
  of the rational numbers (`compareDecimalValues_eq`).
* `castDecimal`, `castInteger`: the casts.  A cast to a type with enough integer digits and
  enough fraction digits is exact (`castDecimal_exact`).
-/

namespace RustDb.Execution

open RustDb.Lib RustDb.Sql

/-- The number that the digits `raw` stand for. -/
def decimalValue (raw : Int) (scale : Int8) : ℚ :=
  raw * 10 ^ (-scale.toInt)

/-! ## Comparison -/

/-- The order of two decimals that are not negative: first by the place of the leading digit, then
digit by digit. -/
def compareDecimalMagnitudes (left : Nat) (leftScale : Int8) (right : Nat)
    (rightScale : Int8) : Ordering :=
  if left = 0 ∨ right = 0 then compare left right
  else
    let leftDigits := digitsOf 10 left
    let rightDigits := digitsOf 10 right
    let leftExponent : Int := leftDigits.length - leftScale.toInt
    let rightExponent : Int := rightDigits.length - rightScale.toInt
    match compare leftExponent rightExponent with
    | .eq =>
      let width := max leftDigits.length rightDigits.length
      firstDifference (padTo width leftDigits) (padTo width rightDigits)
    | ordering => ordering

/-- The order of two decimals of any scales, first by their signs. -/
def compareDecimalValues (left : Int) (leftScale : Int8) (right : Int)
    (rightScale : Int8) : Ordering :=
  match decide (left < 0), decide (right < 0) with
  | true, false => .lt
  | false, true => .gt
  | false, false => compareDecimalMagnitudes left.natAbs leftScale right.natAbs rightScale
  | true, true =>
    (compareDecimalMagnitudes left.natAbs leftScale right.natAbs rightScale).swap

theorem ten_zpow_pos (e : Int) : (0 : ℚ) < 10 ^ e :=
  zpow_pos (by norm_num) e

/-- Scaling by a power of ten keeps the order. -/
theorem strictMono_scaled (e : Int) : StrictMono fun n : Nat => (n : ℚ) * 10 ^ e := by
  intro n m h
  have hlt : (n : ℚ) < m := Nat.cast_lt.mpr h
  exact mul_lt_mul_of_pos_right hlt (ten_zpow_pos e)

theorem decimalValue_natCast (n : Nat) (scale : Int8) :
    decimalValue n scale = (n : ℚ) * 10 ^ (-scale.toInt) := by
  simp [decimalValue]

theorem decimalValue_neg (raw : Int) (scale : Int8) :
    decimalValue (-raw) scale = -decimalValue raw scale := by
  simp [decimalValue]

theorem decimalValue_nonneg (n : Nat) (scale : Int8) : 0 ≤ decimalValue n scale := by
  rw [decimalValue_natCast]
  exact mul_nonneg (Nat.cast_nonneg n) (ten_zpow_pos _).le

variable {n : Nat}

theorem decimalValue_pos (h : n ≠ 0) (scale : Int8) : 0 < decimalValue n scale := by
  rw [decimalValue_natCast]
  exact mul_pos (Nat.cast_pos.mpr (pos_of_ne_zero h)) (ten_zpow_pos _)

/-- A number is below the power of ten at its exponent. -/
theorem decimalValue_lt (n : Nat) (scale : Int8) :
    decimalValue n scale < 10 ^ ((digitsOf 10 n).length - scale.toInt) := by
  have h : (n : ℚ) < 10 ^ (digitsOf 10 n).length := by
    exact_mod_cast lt_pow_length_digitsOf (by norm_num : 1 < 10) n
  rw [decimalValue_natCast, sub_eq_add_neg, zpow_add₀ (by norm_num), zpow_natCast]
  exact mul_lt_mul_of_pos_right h (ten_zpow_pos _)

/-- A positive number is at least the power of ten before its exponent. -/
theorem le_decimalValue (h : n ≠ 0) (scale : Int8) :
    10 ^ ((digitsOf 10 n).length - scale.toInt - 1) ≤ decimalValue n scale := by
  have hpow : (10 : ℚ) ^ ((digitsOf 10 n).length - 1) ≤ n := by
    exact_mod_cast pow_length_digitsOf_le (by norm_num : 1 < 10) h
  have hpos := length_digitsOf_pos (b := 10) h
  have hexp : ((digitsOf 10 n).length : Int) - scale.toInt - 1 =
      (((digitsOf 10 n).length - 1 : Nat) : Int) + -scale.toInt := by omega
  rw [decimalValue_natCast, hexp, zpow_add₀ (by norm_num), zpow_natCast]
  exact mul_le_mul_of_nonneg_right hpow (ten_zpow_pos _).le

variable {scale scale' : Int8}

theorem decimalValue_lt_of_exponent_lt {m : Nat} (hm : m ≠ 0)
    (h : ((digitsOf 10 n).length : Int) - scale.toInt <
      (digitsOf 10 m).length - scale'.toInt) : decimalValue n scale < decimalValue m scale' := by
  calc decimalValue n scale
      < 10 ^ (((digitsOf 10 n).length : Int) - scale.toInt) := decimalValue_lt n scale
    _ ≤ 10 ^ (((digitsOf 10 m).length : Int) - scale'.toInt - 1) :=
        zpow_le_zpow_right₀ (by norm_num) (by omega)
    _ ≤ decimalValue m scale' := le_decimalValue hm scale'

/-- The padded digits denote the number up to a power of ten that depends on the exponent
and the width only. -/
theorem decimalValue_eq_padded {width : Nat} (scale : Int8) (h : (digitsOf 10 n).length ≤ width) :
    decimalValue n scale = (numberOf 10 (padTo width (digitsOf 10 n)) : ℚ) *
      10 ^ (((digitsOf 10 n).length : Int) - scale.toInt - width) := by
  have hexp : -scale.toInt = ((width - (digitsOf 10 n).length : Nat) : Int) +
      (((digitsOf 10 n).length : Int) - scale.toInt - width) := by omega
  rw [decimalValue_natCast, numberOf_padTo, numberOf_digitsOf, hexp,
    zpow_add₀ (by norm_num), zpow_natCast]
  push_cast
  ring

theorem compareDecimalMagnitudes_eq (left : Nat) (leftScale : Int8) (right : Nat)
    (rightScale : Int8) : compareDecimalMagnitudes left leftScale right rightScale =
      compare (decimalValue left leftScale) (decimalValue right rightScale) := by
  have hzero : ∀ scale : Int8, decimalValue ((0 : Nat) : Int) scale = 0 := by
    intro scale
    simp [decimalValue]
  unfold compareDecimalMagnitudes
  split
  · next h =>
    by_cases hleft : left = 0
    · subst hleft
      rw [hzero]
      by_cases hright : right = 0
      · subst hright
        rw [hzero, compare_eq_iff_eq.mpr rfl, compare_eq_iff_eq.mpr rfl]
      · rw [compare_lt_iff_lt.mpr (decimalValue_pos hright rightScale),
          compare_lt_iff_lt.mpr (pos_of_ne_zero hright)]
    · have hright : right = 0 := h.resolve_left hleft
      subst hright
      rw [hzero, compare_gt_iff_gt.mpr (decimalValue_pos hleft leftScale),
        compare_gt_iff_gt.mpr (pos_of_ne_zero hleft)]
  · next h =>
    rw [not_or] at h
    obtain ⟨hleft, hright⟩ := h
    dsimp only
    split
    · next hexp =>
      -- equal exponents: the padded digit strings have one length and one factor
      rw [compare_eq_iff_eq] at hexp
      have hl : ∀ d ∈ padTo (max (digitsOf 10 left).length (digitsOf 10 right).length)
          (digitsOf 10 left), d < 10 := fun d hd =>
        lt_of_mem_padTo (by norm_num) (fun d hd => lt_of_mem_digitsOf (by norm_num) hd) hd
      have hr : ∀ d ∈ padTo (max (digitsOf 10 left).length (digitsOf 10 right).length)
          (digitsOf 10 right), d < 10 := fun d hd =>
        lt_of_mem_padTo (by norm_num) (fun d hd => lt_of_mem_digitsOf (by norm_num) hd) hd
      rw [firstDifference_eq (by rw [length_padTo (le_max_left _ _),
          length_padTo (le_max_right _ _)]) hl hr,
        decimalValue_eq_padded leftScale (le_max_left _ (digitsOf 10 right).length),
        decimalValue_eq_padded rightScale (le_max_right (digitsOf 10 left).length _), hexp]
      exact (compare_strictMono (strictMono_scaled _) _ _).symm
    · next hexp =>
      rcases lt_trichotomy (((digitsOf 10 left).length : Int) - leftScale.toInt)
          ((digitsOf 10 right).length - rightScale.toInt) with hlt | heq | hgt
      · rw [compare_lt_iff_lt.mpr hlt,
          compare_lt_iff_lt.mpr (decimalValue_lt_of_exponent_lt hright hlt)]
      · exact absurd (compare_eq_iff_eq.mpr heq) hexp
      · rw [compare_gt_iff_gt.mpr hgt,
          compare_gt_iff_gt.mpr (decimalValue_lt_of_exponent_lt hleft hgt)]

/-- The comparison of two decimals is the order of the rational numbers. -/
theorem compareDecimalValues_eq (left : Int) (leftScale : Int8) (right : Int)
    (rightScale : Int8) : compareDecimalValues left leftScale right rightScale =
      compare (decimalValue left leftScale) (decimalValue right rightScale) := by
  have hneg : StrictAnti fun x : ℚ => -x := fun _ _ h => neg_lt_neg h
  rcases lt_or_ge left 0 with hleft | hleft
  · obtain ⟨n, hn⟩ := Int.eq_ofNat_of_zero_le (show 0 ≤ -left by omega)
    have hl : left = -(n : Int) := by omega
    rcases lt_or_ge right 0 with hright | hright
    · obtain ⟨m, hm⟩ := Int.eq_ofNat_of_zero_le (show 0 ≤ -right by omega)
      have hr : right = -(m : Int) := by omega
      simp only [compareDecimalValues, hleft, hright, decide_true]
      rw [hl, hr, Int.natAbs_neg, Int.natAbs_neg, Int.natAbs_natCast, Int.natAbs_natCast,
        compareDecimalMagnitudes_eq, decimalValue_neg, decimalValue_neg]
      exact (compare_strictAnti hneg _ _).symm
    · obtain ⟨m, rfl⟩ := Int.eq_ofNat_of_zero_le hright
      have hpos : 0 < decimalValue n leftScale := decimalValue_pos (by omega) leftScale
      have hnonneg := decimalValue_nonneg m rightScale
      simp only [compareDecimalValues, hleft, decide_true,
        decide_eq_false (show ¬ (m : Int) < 0 by omega)]
      rw [hl, decimalValue_neg, compare_lt_iff_lt.mpr (by linarith)]
  · obtain ⟨n, rfl⟩ := Int.eq_ofNat_of_zero_le hleft
    rcases lt_or_ge right 0 with hright | hright
    · obtain ⟨m, hm⟩ := Int.eq_ofNat_of_zero_le (show 0 ≤ -right by omega)
      have hr : right = -(m : Int) := by omega
      have hpos : 0 < decimalValue m rightScale := decimalValue_pos (by omega) rightScale
      have hnonneg := decimalValue_nonneg n leftScale
      simp only [compareDecimalValues, hright, decide_true,
        decide_eq_false (show ¬ (n : Int) < 0 by omega)]
      rw [hr, decimalValue_neg, compare_gt_iff_gt.mpr (by linarith)]
    · obtain ⟨m, rfl⟩ := Int.eq_ofNat_of_zero_le hright
      simp only [compareDecimalValues, decide_eq_false (show ¬ (n : Int) < 0 by omega),
        decide_eq_false (show ¬ (m : Int) < 0 by omega)]
      rw [Int.natAbs_natCast, Int.natAbs_natCast, compareDecimalMagnitudes_eq]

/-! ## Casts

Digits are 128-bit integers.  A cast whose target has room for every value of its source
wraps around instead of checking, as nothing can overflow there. -/

/-- The values of a decimal type. -/
def fitsPrecision (precision : UInt8) (raw : Int) : Prop :=
  raw.natAbs < 10 ^ precision.toNat

instance (precision : UInt8) (raw : Int) : Decidable (fitsPrecision precision raw) :=
  inferInstanceAs (Decidable (_ < _))

/-- A checked result in 128 bits. -/
def checkedI128 (raw : Int) : Option Int :=
  if -2 ^ 127 ≤ raw ∧ raw < 2 ^ 127 then some raw else none

/-- The digits, if the type has room for them. -/
def validatePrecision (precision : UInt8) (raw : Int) : Option Int :=
  if fitsPrecision precision raw then some raw else none

/-- To a scale that is not smaller. -/
def upscale (precision target : UInt8) (delta : Nat) (raw : Int) : Option Int :=
  if 38 < delta then none
  else if precision.toNat + delta ≤ target.toNat then
    some ((raw * 10 ^ delta).bmod (2 ^ 128))
  else do
    let raw ← checkedI128 (raw * 10 ^ delta)
    validatePrecision target raw

/-- The quotient, rounded half away from zero. -/
def divideRounded (raw divisor : Int) : Int :=
  let quotient := raw.tdiv divisor
  let remainder := raw.tmod divisor
  let half := divisor / 2
  if 0 ≤ raw then if half ≤ remainder then quotient + 1 else quotient
  else if remainder ≤ -half then quotient - 1 else quotient

/-- To a smaller scale. -/
def downscale (precision target : UInt8) (delta : Nat) (raw : Int) : Option Int :=
  if 38 < delta then some 0
  else
    let rounded := divideRounded raw (10 ^ delta)
    if (precision.toNat : Int) - delta < target.toNat then some rounded
    else validatePrecision target rounded

/-- Arrow's cast between decimal types.  `none` is the error of the strict cast. -/
def castDecimal (precision : UInt8) (scale : Int8) (precision' : UInt8) (scale' : Int8)
    (raw : Int) : Option Int :=
  if scale = scale' ∧ precision ≤ precision' then some raw
  else if scale.toInt ≤ scale'.toInt then
    upscale precision precision' (scale'.toInt - scale.toInt).toNat raw
  else downscale precision precision' (scale.toInt - scale'.toInt).toNat raw

/-- Arrow's cast of an integer to a decimal type. -/
def castInteger (precision : UInt8) (scale : Int8) (raw : Int) : Option Int :=
  if 0 ≤ scale.toInt then do
    let raw ← checkedI128 (raw * 10 ^ scale.toInt.toNat)
    validatePrecision precision raw
  else validatePrecision precision (raw.tdiv (10 ^ (-scale.toInt).toNat))

/-- The values of an integer type, without the upper bound. -/
def integerRange : DataType → Option (Int × Int)
  | .int8 => some (-2 ^ 7, 2 ^ 7)
  | .int16 => some (-2 ^ 15, 2 ^ 15)
  | .int32 => some (-2 ^ 31, 2 ^ 31)
  | .int64 => some (-2 ^ 63, 2 ^ 63)
  | .uint8 => some (0, 2 ^ 8)
  | .uint16 => some (0, 2 ^ 16)
  | .uint32 => some (0, 2 ^ 32)
  | .uint64 => some (0, 2 ^ 64)
  | _ => none

/-- The cast of an integer or a decimal to a decimal type. -/
def castNumber (source target : DataType) (raw : Int) : Option Int :=
  match source, target with
  | .decimal128 precision scale, .decimal128 precision' scale' =>
    castDecimal precision scale precision' scale' raw
  | source, .decimal128 precision' scale' => do
    let _ ← integerRange source
    castInteger precision' scale' raw
  | _, _ => none

variable {precision : UInt8} {raw : Int}

section

variable (hprecision : precision.toNat ≤ 38) (h : fitsPrecision precision raw)
include hprecision h

theorem lt_of_fitsPrecision : raw.natAbs < 2 ^ 127 :=
  calc raw.natAbs < 10 ^ precision.toNat := h
    _ ≤ 10 ^ 38 := Nat.pow_le_pow_right (by norm_num) hprecision
    _ < 2 ^ 127 := by norm_num

theorem checkedI128_eq : checkedI128 raw = some raw := by
  have hlt := lt_of_fitsPrecision hprecision h
  rw [checkedI128, if_pos (by omega)]

theorem bmod_eq : raw.bmod (2 ^ 128) = raw := by
  have hlt := lt_of_fitsPrecision hprecision h
  apply Int.bmod_eq_of_le <;> omega

end

theorem decimalValue_upscaled (raw : Int) (h : scale.toInt ≤ scale'.toInt) :
    decimalValue (raw * 10 ^ (scale'.toInt - scale.toInt).toNat) scale' =
      decimalValue raw scale := by
  have hexp : -scale.toInt = ((scale'.toInt - scale.toInt).toNat : Int) + -scale'.toInt := by
    omega
  rw [decimalValue, decimalValue, hexp, zpow_add₀ (by norm_num), zpow_natCast]
  push_cast
  ring

theorem fitsPrecision_upscaled {target : UInt8} {delta : Nat} (h : fitsPrecision precision raw)
    (hroom : precision.toNat + delta ≤ target.toNat) :
    fitsPrecision target (raw * 10 ^ delta) := by
  have hpow : ((10 : Int) ^ delta).natAbs = 10 ^ delta := by simp [Int.natAbs_pow]
  rw [fitsPrecision, Int.natAbs_mul, hpow]
  calc raw.natAbs * 10 ^ delta < 10 ^ precision.toNat * 10 ^ delta :=
        Nat.mul_lt_mul_of_pos_right h (Nat.pow_pos (by norm_num))
    _ = 10 ^ (precision.toNat + delta) := (Nat.pow_add 10 _ _).symm
    _ ≤ 10 ^ target.toNat := Nat.pow_le_pow_right (by norm_num) hroom

/-- A cast to a type with no fewer integer digits and fraction digits neither rounds nor
overflows. -/
theorem castDecimal_exact {precision' : UInt8} (hfits : fitsPrecision precision raw)
    (hprecision : precision'.toNat ≤ 38) (hscale : scale.toInt ≤ scale'.toInt)
    (hroom : (precision.toNat : Int) + (scale'.toInt - scale.toInt) ≤ precision'.toNat) :
    ∃ raw', castDecimal precision scale precision' scale' raw = some raw' ∧
      fitsPrecision precision' raw' ∧ decimalValue raw' scale' = decimalValue raw scale := by
  have hroom' : precision.toNat + (scale'.toInt - scale.toInt).toNat ≤ precision'.toNat := by
    omega
  have hfits' := fitsPrecision_upscaled hfits hroom'
  refine ⟨raw * 10 ^ (scale'.toInt - scale.toInt).toNat, ?_, hfits',
    decimalValue_upscaled raw hscale⟩
  unfold castDecimal
  split
  · next hsame =>
    rw [hsame.1, Int.sub_self, Int.toNat_zero, Int.pow_zero, Int.mul_one]
  · rw [upscale, if_neg (by omega), if_pos hroom', bmod_eq hprecision hfits']

/-- An integer with few enough digits is cast to scale zero as it is. -/
theorem castInteger_exact (hfits : fitsPrecision precision raw)
    (hprecision : precision.toNat ≤ 38) : castInteger precision 0 raw = some raw := by
  have hone : raw * 10 ^ (Int8.toInt 0).toNat = raw := by simp
  rw [castInteger, if_pos (by decide), hone, checkedI128_eq hprecision hfits]
  simp [validatePrecision, hfits]

end RustDb.Execution
