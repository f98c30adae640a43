import RustDb.Native.Catalog

/-!
# Delete vectors

A delete vector is a bitmap over the row offsets of one segment.  The model
keeps the bytes of the bitmap.

* `contains_withBit`: marking an offset adds exactly that offset to the set.
* `Sound`: the counter of a vector is the size of the set, and no bit is set past
  the last row.  Every vector that is built by marking rows is sound, and a sound
  vector passes the checks of `decode`.
-/

namespace RustDb.Native

open RustDb.Lib List Bool

/-- A bitmap of the deleted rows of one segment, one bit per row. -/
structure DeleteVector where
  rowCount : Nat
  deletedRows : Nat
  bits : List (BitVec 8)
  bits_length : bits.length = (rowCount + 7) / 8
deriving DecidableEq, Repr

namespace DeleteVector

/-- The magic, the version and the two counts. -/
def headerBytes : Nat := 8 + 4 + 8 + 8

/-- The largest file that is read. -/
def maxFileBytes : Nat := 512 * 1024 * 1024

/-- `bit_bytes`: the bytes of a bitmap over `rowCount` rows. -/
def bitBytes (rowCount : Nat) : Except Error Nat :=
  match checkedAdd rowCount 7 with
  | some rows => .ok (rows / 8)
  | none => .error (.resourceExhausted "native delete vector row count overflow")

/-- The test `bits[byte] & mask != 0` of the code. -/
def bitIsSet (bits : List (BitVec 8)) (offset : Nat) : Bool :=
  bits.getD (offset / 8) 0 &&& (1#8 <<< (offset % 8)) ≠ 0

/-- The row at this place is deleted. -/
def contains (vector : DeleteVector) (offset : Nat) : Bool :=
  if offset < vector.rowCount then bitIsSet vector.bits offset else false

/-- The bitmap with the bit of `offset` set. -/
def setBit (bits : List (BitVec 8)) (offset : Nat) : List (BitVec 8) :=
  bits.set (offset / 8) (bits.getD (offset / 8) 0 ||| (1#8 <<< (offset % 8)))

/-- The vector with the bit of `offset` set and another counter. -/
def withBit (vector : DeleteVector) (offset deletedRows : Nat) : DeleteVector :=
  { vector with
    deletedRows
    bits := setBit vector.bits offset
    bits_length := length_set.trans vector.bits_length }

/-- The error for an offset past the rows. -/
def outsideError (offset rowCount : Nat) : Error :=
  .invalidArgument s!"native row offset {offset} is outside segment row count {rowCount}"

/-- `DeleteVector::mark_deleted` on `&mut self`: the result, and the vector after the
call.  The bit is set before the counter is checked. -/
def markDeletedMut (vector : DeleteVector) (offset : Nat) : Except Error Bool × DeleteVector :=
  if vector.rowCount ≤ offset then
    (.error (outsideError offset vector.rowCount), vector)
  else if bitIsSet vector.bits offset then (.ok false, vector)
  else
    match checkedAdd vector.deletedRows 1 with
    | none =>
      (.error (.resourceExhausted "native deleted-row count overflow"),
        vector.withBit offset vector.deletedRows)
    | some deletedRows => (.ok true, vector.withBit offset deletedRows)

/-- The vector after a call of `mark_deleted` that must succeed. -/
def markDeleted (vector : DeleteVector) (offset : Nat) : Except Error DeleteVector :=
  match vector.markDeletedMut offset with
  | (.ok _, vector) => .ok vector
  | (.error error, _) => .error error

/-- `DeleteVector::empty`: no row deleted. -/
def empty (rowCount : Nat) : Except Error DeleteVector := do
  let bytes ← bitBytes rowCount
  let total := headerBytes + bytes
  rejectIf (maxFileBytes < total) (.resourceExhausted
    s!"native delete vector requires {total} bytes, exceeding the {maxFileBytes} byte per-vector limit")
  pure {
    rowCount
    deletedRows := 0
    bits := replicate ((rowCount + 7) / 8) 0
    bits_length := length_replicate }

/-- The number of bits set in a byte. -/
def countOnes (byte : BitVec 8) : Nat :=
  (range 8).countP fun i => byte.getLsbD i

/-- `decode` compares the counter with the bits. -/
def isCounted (vector : DeleteVector) : Bool :=
  (vector.bits.map countOnes).sum = vector.deletedRows ∧ vector.deletedRows ≤ vector.rowCount

/-- `decode` checks that no bit past the rows is set. -/
def isTrimmed (vector : DeleteVector) : Bool :=
  vector.rowCount % 8 ≠ 0 → vector.bits.getLastD 0 >>> (vector.rowCount % 8) = 0

/-- The checks of `DeleteVector::decode` on the decoded parts. -/
def decodes (vector : DeleteVector) : Bool := vector.isCounted && vector.isTrimmed

/-- The size of the encoded vector. -/
def encodedBytes (vector : DeleteVector) : Nat :=
  headerBytes + vector.bits.length

/-! ## The set of deleted offsets -/

/-- The bit `x` of a bitmap. -/
def bitAt (bits : List (BitVec 8)) (x : Nat) : Bool :=
  (bits.getD (x / 8) 0).getLsbD (x % 8)

/-- The mask test of the code reads one bit. -/
theorem and_shift_ne_zero {b : BitVec 8} {j : Nat} (hj : j < 8) :
    b &&& (1#8 <<< j) ≠ 0 ↔ b.getLsbD j = true := by
  rw [← BitVec.twoPow_eq, BitVec.and_twoPow]
  cases b.getLsbD j
  · simp
  · have h : (BitVec.twoPow 8 j).getLsbD j = _ := BitVec.getLsbD_twoPow j j
    simp only [hj, decide_true, Bool.and_self] at h
    simp only [if_true, ne_eq, iff_true]
    intro h0
    rw [h0] at h
    simp at h

variable {offset x : Nat}

/-- Setting the bit `offset` of a bitmap and then reading the bit `x`. -/
theorem bitAt_setBit {bits : List (BitVec 8)} (h : offset / 8 < bits.length) :
    bitAt (setBit bits offset) x = (bitAt bits x || decide (x = offset)) := by
  unfold setBit bitAt
  by_cases hbyte : x / 8 = offset / 8
  · rw [hbyte, getD_eq_getElem?_getD, getElem?_set_self h,
      Option.getD_some, BitVec.getLsbD_or, ← BitVec.twoPow_eq,
      BitVec.getLsbD_twoPow]
    have hbit : (offset % 8 = x % 8) ↔ x = offset := by omega
    have hlt : offset % 8 < 8 := Nat.mod_lt _ (by decide)
    simp [hbit, hlt]
  · have hne : x ≠ offset := fun h => hbyte (by rw [h])
    rw [getD_eq_getElem?_getD, getElem?_set_ne (Ne.symm hbyte)]
    simp [hne]

variable {vector : DeleteVector}

theorem contains_eq :
    vector.contains offset = (decide (offset < vector.rowCount) && bitAt vector.bits offset) := by
  unfold contains bitIsSet
  split_ifs with h
  · have hlt : offset % 8 < 8 := Nat.mod_lt _ (by decide)
    rw [decide_eq_true h, Bool.true_and, Bool.eq_iff_iff, decide_eq_true_iff,
      and_shift_ne_zero hlt, bitAt]
  · rw [decide_eq_false h, Bool.false_and]

/-- A deleted offset is an offset of the segment. -/
theorem contains_lt (h : vector.contains offset = true) : offset < vector.rowCount := by
  rw [contains_eq, and_eq_true, decide_eq_true_iff] at h
  exact h.1

/-- Marking an offset adds exactly that offset. -/
theorem contains_withBit (h : offset < vector.rowCount) (deletedRows x : Nat) :
    (vector.withBit offset deletedRows).contains x =
      (vector.contains x || decide (x = offset)) := by
  have hbyte : offset / 8 < vector.bits.length := by
    rw [vector.bits_length]
    omega
  rw [contains_eq, contains_eq]
  show (decide (x < vector.rowCount) && bitAt (setBit vector.bits offset) x) = _
  rw [bitAt_setBit hbyte]
  by_cases hx : x = offset
  · simp [hx, h]
  · simp [hx]

variable {rowCount : Nat}

/-- The empty vector deletes nothing. -/
theorem empty_spec (h : empty rowCount = .ok vector) :
    vector.rowCount = rowCount ∧ vector.deletedRows = 0 ∧
      ∀ x, vector.contains x = false := by
  unfold empty at h
  obtain ⟨bytes, -, h⟩ := bind_eq_ok.mp h
  obtain ⟨-, h⟩ := check_bind_eq_ok.mp h
  cases h
  refine ⟨rfl, rfl, fun x => ?_⟩
  rw [contains_eq, bitAt, getD_eq_getElem?_getD, getElem?_replicate]
  split <;> simp

/-! ## Counting the deleted rows -/

/-- The bits of the bytes are the bits of the bitmap. -/
theorem sum_countOnes (bits : List (BitVec 8)) :
    (bits.map countOnes).sum = (range (8 * bits.length)).countP (bitAt bits) := by
  induction bits with
  | nil => rfl
  | cons byte bits ih =>
    have hhead : (range 8).countP (bitAt (byte :: bits)) = countOnes byte := by
      unfold countOnes
      refine countP_congr fun x hx => ?_
      have hlt : x < 8 := mem_range.mp hx
      have hdiv : x / 8 = 0 := by omega
      have hmod : x % 8 = x := by omega
      rw [bitAt, hdiv, hmod]
      rfl
    have htail : (range (8 * bits.length)).countP (bitAt (byte :: bits) ∘ (8 + ·)) =
        (range (8 * bits.length)).countP (bitAt bits) := by
      refine countP_congr fun x _ => ?_
      have hdiv : (8 + x) / 8 = x / 8 + 1 := by omega
      have hmod : (8 + x) % 8 = x % 8 := by omega
      rw [Function.comp_apply, bitAt, hdiv, hmod]
      rfl
    rw [map_cons, sum_cons, ih, length_cons, mul_add, mul_one,
      add_comm (8 * bits.length), range_add, countP_append,
      countP_map, hhead, htail]

/-- The counter is the number of deleted rows, and no bit past the rows is set. -/
structure Sound (vector : DeleteVector) : Prop where
  count : vector.deletedRows =
    (range vector.rowCount).countP vector.contains
  clear : ∀ x, vector.rowCount ≤ x → bitAt vector.bits x = false

theorem Sound.deletedRows_le (h : vector.Sound) :
    vector.deletedRows ≤ vector.rowCount := by
  have hle := countP_le_length (p := vector.contains) (l := range vector.rowCount)
  rwa [length_range, ← h.count] at hle

theorem Sound.sum_countOnes_eq (h : vector.Sound) :
    (vector.bits.map countOnes).sum = vector.deletedRows := by
  have hlen : ∃ rest, 8 * vector.bits.length = vector.rowCount + rest := by
    rw [vector.bits_length]
    exact ⟨8 * ((vector.rowCount + 7) / 8) - vector.rowCount, by omega⟩
  obtain ⟨rest, hlen⟩ := hlen
  have hold : (range vector.rowCount).countP (bitAt vector.bits) =
      (range vector.rowCount).countP vector.contains := by
    refine countP_congr fun x hx => ?_
    rw [contains_eq, decide_eq_true (mem_range.mp hx), Bool.true_and]
  have hrest : (range rest).countP (bitAt vector.bits ∘ (vector.rowCount + ·)) =
      0 := by
    refine countP_eq_zero.mpr fun x _ => ?_
    rw [Function.comp_apply, h.clear _ (Nat.le_add_right _ _)]
    exact false_ne_true
  rw [sum_countOnes, hlen, range_add, countP_append, countP_map, hrest,
    hold, ← h.count, add_zero]

/-- The last byte of a bitmap holds the bits past the rows. -/
theorem getLastD_bits (h : vector.rowCount % 8 ≠ 0) :
    vector.bits.getLastD 0 = vector.bits.getD (vector.rowCount / 8) 0 := by
  rw [getLastD_eq_getLast?, getLast?_eq_getElem?, vector.bits_length, getD_eq_getElem?_getD]
  congr 2
  omega

/-- A sound vector is read back. -/
theorem Sound.decodes (h : vector.Sound) :
    vector.decodes = true := by
  unfold DeleteVector.decodes isCounted isTrimmed
  rw [and_eq_true, decide_eq_true_iff, decide_eq_true_iff]
  refine ⟨⟨h.sum_countOnes_eq, h.deletedRows_le⟩, fun hmod => ?_⟩
  -- The last byte has bits past the rows only above `rowCount % 8`.
  refine BitVec.eq_of_getLsbD_eq fun i hi => ?_
  rw [BitVec.getLsbD_ushiftRight, getLastD_bits hmod]
  by_cases hbit : vector.rowCount % 8 + i < 8
  · have hclear := h.clear (vector.rowCount + i) (Nat.le_add_right _ _)
    have hdiv : (vector.rowCount + i) / 8 = vector.rowCount / 8 := by omega
    have hrem : (vector.rowCount + i) % 8 = vector.rowCount % 8 + i := by omega
    rw [bitAt, hdiv, hrem] at hclear
    rw [hclear]
    simp
  · rw [BitVec.getLsbD_of_ge _ _ (by omega)]
    simp

theorem empty_sound (h : empty rowCount = .ok vector) : vector.Sound := by
  obtain ⟨hrows, hdeleted, hnone⟩ := empty_spec h
  refine ⟨?_, fun x _ => ?_⟩
  · rw [hdeleted]
    refine (countP_eq_zero.mpr fun x _ => ?_).symm
    rw [hnone x]
    exact false_ne_true
  · unfold empty at h
    obtain ⟨bytes, -, h⟩ := bind_eq_ok.mp h
    obtain ⟨-, h⟩ := check_bind_eq_ok.mp h
    cases h
    rw [bitAt, getD_eq_getElem?_getD, getElem?_replicate]
    split <;> simp

/-- Adding one element to a set of numbers adds one to its size. -/
theorem countP_or_eq {p : Nat → Bool} {n : Nat} (hx : x < n) (hp : p x = false) :
    (range n).countP (fun y => p y || decide (y = x)) =
      (range n).countP p + 1 := by
  induction n with
  | zero => omega
  | succ n ih =>
    rw [range_succ, countP_append, countP_append, countP_singleton, countP_singleton]
    by_cases hn : x = n
    · subst hn
      have hsame : (range x).countP (fun y => p y || decide (y = x)) = (range x).countP p := by
        refine countP_congr fun y hy => ?_
        have : y ≠ x := ne_of_lt (mem_range.mp hy)
        simp [this]
      rw [hsame, hp]
      simp
    · have hne : n ≠ x := fun h => hn h.symm
      rw [ih (by omega)]
      simp only [hne, decide_false, Bool.or_false]
      omega

section

variable (h : vector.Sound)
include h

section

variable (hlt : offset < vector.rowCount) (hfresh : vector.contains offset = false)
include hlt hfresh

/-- A row that is not deleted leaves room in the counter. -/
theorem Sound.deletedRows_lt : vector.deletedRows < vector.rowCount := by
  have hcount := countP_or_eq hlt hfresh
  have hle := countP_le_length (p := fun x => vector.contains x || decide (x = offset))
    (l := range vector.rowCount)
  rw [hcount, ← h.count, length_range] at hle
  omega

/-- Marking a row keeps a vector sound. -/
theorem Sound.withBit : (vector.withBit offset (vector.deletedRows + 1)).Sound := by
  refine ⟨?_, fun x hx => ?_⟩
  · show vector.deletedRows + 1 = (range vector.rowCount).countP _
    have hcount : vector.deletedRows + 1 = (range vector.rowCount).countP
        fun x => vector.contains x || decide (x = offset) := by
      rw [countP_or_eq hlt hfresh, ← h.count]
    rw [hcount]
    exact countP_congr fun x _ => eq_iff_iff.mp (contains_withBit hlt _ x).symm
  · have hbyte : offset / 8 < vector.bits.length := by
      rw [vector.bits_length]
      omega
    have hne : x ≠ offset := by
      change vector.rowCount ≤ x at hx
      omega
    show bitAt (setBit vector.bits offset) x = false
    rw [bitAt_setBit hbyte, decide_eq_false hne, Bool.or_false]
    exact h.clear x hx

end

/-- What a call of `mark_deleted` does to a sound vector. -/
theorem Sound.markDeletedMut_cases (hsmall : vector.rowCount < u64Limit) (offset : Nat) :
    (vector.rowCount ≤ offset ∧ vector.markDeletedMut offset =
        (.error (outsideError offset vector.rowCount), vector)) ∨
    (offset < vector.rowCount ∧ vector.contains offset = true ∧
      vector.markDeletedMut offset = (.ok false, vector)) ∨
    (offset < vector.rowCount ∧ vector.contains offset = false ∧
      vector.markDeletedMut offset =
        (.ok true, vector.withBit offset (vector.deletedRows + 1))) := by
  by_cases hlt : offset < vector.rowCount
  · right
    have hset : vector.contains offset = bitIsSet vector.bits offset := if_pos hlt
    cases hin : vector.contains offset with
    | true =>
      left
      refine ⟨hlt, rfl, ?_⟩
      rw [markDeletedMut, if_neg (by omega), ← hset, hin, if_pos rfl]
    | false =>
      right
      refine ⟨hlt, rfl, ?_⟩
      have hroom := h.deletedRows_lt hlt hin
      have hcounter : checkedAdd vector.deletedRows 1 = some (vector.deletedRows + 1) :=
        checkedAdd_eq_some.mpr ⟨by omega, rfl⟩
      rw [markDeletedMut, if_neg (by omega), ← hset, hin, if_neg Bool.false_ne_true, hcounter]
  · left
    refine ⟨by omega, ?_⟩
    rw [markDeletedMut, if_pos (by omega)]

/-- Marking a row of a sound vector succeeds, and adds exactly that row. -/
theorem Sound.markDeleted (hsmall : vector.rowCount < u64Limit) (hlt : offset < vector.rowCount) :
    ∃ marked, vector.markDeleted offset = .ok marked ∧ marked.Sound ∧
      marked.rowCount = vector.rowCount ∧
      ∀ x, marked.contains x = (vector.contains x || decide (x = offset)) := by
  unfold DeleteVector.markDeleted
  rcases h.markDeletedMut_cases hsmall offset with ⟨hle, -⟩ | ⟨-, hin, heq⟩ | ⟨-, hfresh, heq⟩
  · omega
  · rw [heq]
    refine ⟨vector, rfl, h, rfl, fun x => ?_⟩
    by_cases hx : x = offset
    · rw [hx, hin, Bool.true_or]
    · simp [hx]
  · rw [heq]
    exact ⟨_, rfl, h.withBit hlt hfresh, rfl, contains_withBit hlt _⟩

end

end DeleteVector

end RustDb.Native
