import Mathlib.Data.Nat.Bitwise
import Mathlib.Data.Nat.Digits.Lemmas

/-!
# Little-endian bytes and bit fields

A list of bytes is read as one number, its first byte least significant.

* `value` and `bytes` go from bytes to the number and back.
* `fields width count n` are the first `count` fields of `width` bits of `n`, and
  `joined width` puts fields together again: packed values and the bytes that hold
  them are the digits of one number, in two bases.
-/

namespace RustDb.Lib.LittleEndian

open List

/-! ## Bytes -/

/-- The number that the bytes stand for. -/
def value (bs : List UInt8) : Nat :=
  Nat.ofDigits 256 (bs.map UInt8.toNat)

/-- The first `n` bytes of a number. -/
def bytes : Nat → Nat → List UInt8
  | 0, _ => []
  | n + 1, v => UInt8.ofNat v :: bytes n (v / 256)

@[simp] theorem value_nil : value [] = 0 := rfl

@[simp] theorem value_cons (b : UInt8) (bs : List UInt8) :
    value (b :: bs) = b.toNat + 256 * value bs := by
  unfold value
  rw [map_cons, Nat.ofDigits_cons]

theorem value_append (xs ys : List UInt8) :
    value (xs ++ ys) = value xs + 256 ^ xs.length * value ys := by
  unfold value
  rw [map_append, Nat.ofDigits_append, length_map]

theorem value_lt (bs : List UInt8) : value bs < 256 ^ bs.length := by
  have h := Nat.ofDigits_lt_base_pow_length (b := 256) (l := bs.map UInt8.toNat)
    (by decide) (fun x hx => ?_)
  · rw [length_map] at h
    exact h
  · obtain ⟨b, -, rfl⟩ := mem_map.mp hx
    exact b.toNat_lt

@[simp] theorem length_bytes (n v : Nat) : (bytes n v).length = n := by
  induction n generalizing v with
  | zero => rfl
  | succ n ih => rw [bytes, length_cons, ih]

theorem value_bytes (n v : Nat) : value (bytes n v) = v % 256 ^ n := by
  induction n generalizing v with
  | zero => rw [bytes, value_nil, Nat.pow_zero, Nat.mod_one]
  | succ n ih =>
    have hpow : 256 ^ (n + 1) = 256 * 256 ^ n := Nat.pow_succ'
    rw [bytes, value_cons, ih, UInt8.toNat_ofNat', hpow, Nat.mod_mul]

theorem value_bytes_of_lt {n v : Nat} (h : v < 256 ^ n) : value (bytes n v) = v := by
  rw [value_bytes, Nat.mod_eq_of_lt h]

theorem bytes_value (bs : List UInt8) : bytes bs.length (value bs) = bs := by
  induction bs with
  | nil => rfl
  | cons b bs ih =>
    have hmod : (b.toNat + 256 * value bs) / 256 = value bs := by
      have := b.toNat_lt
      omega
    rw [length_cons, bytes, value_cons, hmod, ih]
    congr 1
    refine UInt8.toNat.inj ?_
    rw [UInt8.toNat_ofNat']
    have := b.toNat_lt
    omega

/-! ## Bits of the number -/

/-- The bit `i` of the number is a bit of the byte that holds it. -/
theorem testBit_value (bs : List UInt8) (i : Nat) :
    (value bs).testBit i = (bs.getD (i / 8) 0).toNat.testBit (i % 8) := by
  induction bs generalizing i with
  | nil => simp
  | cons b bs ih =>
    have hb : b.toNat < 2 ^ 8 := b.toNat_lt
    have h256 : 256 = 2 ^ 8 := rfl
    rw [value_cons, add_comm, h256, Nat.testBit_two_pow_mul_add _ hb]
    split_ifs with hi
    · have hdiv : i / 8 = 0 := Nat.div_eq_of_lt hi
      rw [hdiv, Nat.mod_eq_of_lt hi, getD_cons_zero]
    · have hdiv : i / 8 = (i - 8) / 8 + 1 := by omega
      have hmod : i % 8 = (i - 8) % 8 := by omega
      rw [ih, hdiv, hmod, getD_cons_succ]

variable {values : List Nat} {bs : List UInt8}

/-- Setting one bit of one byte sets one bit of the number. -/
theorem testBit_value_set {b : UInt8} {i : Nat}
    (hb : bs[i / 8]? = some b) (r : Nat) :
    (value (bs.set (i / 8) (b ||| UInt8.ofNat (2 ^ (i % 8))))).testBit r =
      ((value bs).testBit r || decide (r = i)) := by
  have hmod : i % 8 < 8 := Nat.mod_lt _ (by decide)
  have hlt : i / 8 < bs.length := (List.getElem?_eq_some_iff.mp hb).1
  have hpow : 2 ^ (i % 8) < 256 := Nat.pow_lt_pow_right (n := 8) (by decide) hmod
  rw [testBit_value, testBit_value, getD_eq_getElem?_getD, getD_eq_getElem?_getD]
  by_cases hbyte : r / 8 = i / 8
  · rw [hbyte, getElem?_set_self hlt, hb, Option.getD_some, Option.getD_some,
      UInt8.toNat_or, Nat.testBit_or, UInt8.toNat_ofNat', Nat.mod_eq_of_lt hpow,
      Nat.testBit_two_pow]
    congr 1
    rw [decide_eq_decide]
    omega
  · have hne : r ≠ i := fun h => hbyte (by rw [h])
    rw [getElem?_set_ne (Ne.symm hbyte), decide_eq_false hne, Bool.or_false]

/-- The number of bits set in a byte. -/
def countOnes (b : UInt8) : Nat :=
  (List.range 8).countP fun i => b.toNat.testBit i

/-- The bits set in all bytes are the bits set in the number. -/
theorem sum_countOnes (bs : List UInt8) :
    (bs.map countOnes).sum =
      (List.range (8 * bs.length)).countP fun i => (value bs).testBit i := by
  induction bs with
  | nil => rfl
  | cons b bs ih =>
    have hb : b.toNat < 2 ^ 8 := b.toNat_lt
    have h256 : 256 = 2 ^ 8 := rfl
    have hlen : 8 * (b :: bs).length = 8 + 8 * bs.length := by
      rw [length_cons]
      omega
    rw [map_cons, sum_cons, ih, hlen, range_add, countP_append,
      countP_map, countOnes, value_cons, add_comm (b.toNat), h256]
    congr 1
    · refine countP_congr fun i hi => ?_
      rw [Nat.testBit_two_pow_mul_add _ hb, if_pos (mem_range.mp hi)]
    · refine countP_congr fun i hi => ?_
      rw [Function.comp_apply, Nat.testBit_two_pow_mul_add _ hb, if_neg (by omega),
        Nat.add_sub_cancel_left]

/-- Only the last byte decides how many bits of it are in use. -/
theorem value_concat_lt {b : UInt8} {used : Nat} :
    value (bs ++ [b]) < 2 ^ (8 * bs.length + used) ↔ b.toNat < 2 ^ used := by
  have hbs := value_lt bs
  have hpow : (256 : Nat) ^ bs.length = 2 ^ (8 * bs.length) := by
    rw [Nat.pow_mul]
  rw [hpow] at hbs
  rw [value_append, value_cons, value_nil, mul_zero, add_zero, hpow, Nat.pow_add]
  constructor
  · intro h
    refine Nat.lt_of_mul_lt_mul_left (a := 2 ^ (8 * bs.length)) ?_
    omega
  · intro h
    calc value bs + 2 ^ (8 * bs.length) * b.toNat
        < 2 ^ (8 * bs.length) + 2 ^ (8 * bs.length) * b.toNat := Nat.add_lt_add_right hbs _
      _ = 2 ^ (8 * bs.length) * (b.toNat + 1) := by rw [mul_add, mul_one, add_comm]
      _ ≤ 2 ^ (8 * bs.length) * 2 ^ used := Nat.mul_le_mul_left _ h

/-! ## Bit fields -/

/-- The first `count` fields of `width` bits of a number. -/
def fields (width : Nat) : Nat → Nat → List Nat
  | 0, _ => []
  | count + 1, n => n % 2 ^ width :: fields width count (n / 2 ^ width)

/-- The number whose fields of `width` bits are the given ones. -/
def joined (width : Nat) (values : List Nat) : Nat :=
  Nat.ofDigits (2 ^ width) values

@[simp] theorem length_fields (width count n : Nat) :
    (fields width count n).length = count := by
  induction count generalizing n with
  | zero => rfl
  | succ count ih => rw [fields, length_cons, ih]

theorem lt_of_mem_fields {width count n x : Nat} (h : x ∈ fields width count n) :
    x < 2 ^ width := by
  induction count generalizing n with
  | zero => cases h
  | succ count ih =>
    rcases mem_cons.mp h with rfl | h
    · exact Nat.mod_lt _ (Nat.two_pow_pos width)
    · exact ih h

@[simp] theorem joined_nil (width : Nat) : joined width [] = 0 := rfl

@[simp] theorem joined_cons (width v : Nat) (values : List Nat) :
    joined width (v :: values) = v + 2 ^ width * joined width values :=
  Nat.ofDigits_cons

theorem joined_append (width : Nat) (xs ys : List Nat) :
    joined width (xs ++ ys) =
      joined width xs + 2 ^ (width * xs.length) * joined width ys := by
  unfold joined
  rw [Nat.ofDigits_append, ← Nat.pow_mul]

theorem joined_lt {width : Nat} (h : ∀ v ∈ values, v < 2 ^ width) :
    joined width values < 2 ^ (width * values.length) := by
  induction values with
  | nil => simp
  | cons v values ih =>
    have hv := h v (mem_cons_self ..)
    have hrest := ih fun x hx => h x (mem_cons_of_mem _ hx)
    rw [joined_cons, length_cons, Nat.mul_succ, Nat.pow_add]
    calc v + 2 ^ width * joined width values
        < 2 ^ width + 2 ^ width * joined width values := Nat.add_lt_add_right hv _
      _ = 2 ^ width * (joined width values + 1) := by
        rw [mul_add, mul_one, add_comm]
      _ ≤ 2 ^ width * 2 ^ (width * values.length) := Nat.mul_le_mul_left _ hrest
      _ = 2 ^ (width * values.length) * 2 ^ width := mul_comm _ _

/-- The fields of a number that was put together from fields. -/
theorem fields_joined {width : Nat} (h : ∀ v ∈ values, v < 2 ^ width) :
    fields width values.length (joined width values) = values := by
  induction values with
  | nil => rfl
  | cons v values ih =>
    have hv := h v (mem_cons_self ..)
    rw [length_cons, fields, joined_cons, Nat.add_mul_mod_self_left,
      Nat.mod_eq_of_lt hv, Nat.add_mul_div_left _ _ (Nat.two_pow_pos width),
      Nat.div_eq_of_lt hv, zero_add, ih fun x hx => h x (mem_cons_of_mem _ hx)]

/-- The number that the fields of a number make. -/
theorem joined_fields (width count n : Nat) :
    joined width (fields width count n) = n % 2 ^ (width * count) := by
  induction count generalizing n with
  | zero => rw [fields, joined_nil, mul_zero, Nat.pow_zero, Nat.mod_one]
  | succ count ih =>
    rw [fields, joined_cons, ih, Nat.mul_succ, Nat.add_comm (width * count), Nat.pow_add,
      Nat.mod_mul]

/-- A high part above the bits of a low part. -/
theorem add_pow_mul_lt {low high m n : Nat} (hlow : low < 2 ^ m) (hhigh : high < 2 ^ n) :
    low + 2 ^ m * high < 2 ^ (m + n) := by
  rw [Nat.pow_add]
  calc low + 2 ^ m * high < 2 ^ m + 2 ^ m * high := Nat.add_lt_add_right hlow _
    _ = 2 ^ m * (high + 1) := by rw [Nat.mul_succ, Nat.add_comm]
    _ ≤ 2 ^ m * 2 ^ n := Nat.mul_le_mul_left _ hhigh

/-- A shift that loses no bit of the word. -/
theorem shiftLeft_mod {v m n w : Nat} (h : v < 2 ^ m) (hw : n + m ≤ w) :
    v <<< n % 2 ^ w = v <<< n := by
  refine Nat.mod_eq_of_lt (Nat.lt_of_lt_of_le ?_ (Nat.pow_le_pow_right Nat.two_pos hw))
  rw [Nat.shiftLeft_eq, Nat.mul_comm, ← Nat.zero_add (2 ^ n * v)]
  exact add_pow_mul_lt (Nat.two_pow_pos n) h

/-- Or with a number above all bits in use is addition. -/
theorem lor_shiftLeft {low n : Nat} (high : Nat) (h : low < 2 ^ n) :
    low ||| high <<< n = low + 2 ^ n * high := by
  rw [Nat.or_comm, Nat.shiftLeft_eq, mul_comm, ← Nat.two_pow_add_eq_or_of_lt h, add_comm]

end RustDb.Lib.LittleEndian
