import RustDb.Sidecar.Bitpack

/-!
# Decoding a predicate block

* `decodeBlock` reads all values of a block at once, as the code does.
* `BlockParts.rows`: what a block means, as a partial function of its parts.  A block
  that is not well formed has no rows.
* `decodeBlock_matches`: the decoder computes the rows of every byte string, and never
  panics.
-/

namespace RustDb.Sidecar

open RustDb.Lib RustDb.Lib.Checked RustDb.Lib.LittleEndian List BlockParts Matches

/-! ## The decoder -/

/-- The type and the rows of a block. -/
structure DecodedPredicateBlock where
  dataType : PredicateType
  values : List (Option Int64)
deriving DecidableEq, Repr

/-- `i64::from_le_bytes`. -/
def i64FromLeBytes (bytes : List UInt8) : Int64 :=
  (UInt64.ofNat (value bytes)).toInt64

/-- `i64::to_le_bytes`. -/
def i64ToLeBytes (n : Int64) : List UInt8 :=
  bytes 8 n.toUInt64.toNat

/-- `i64::try_from` of a wider number. -/
def i64TryFrom (n : Int) : Option Int64 :=
  if -2 ^ 63 ≤ n ∧ n < 2 ^ 63 then some (Int64.ofInt n) else none

/-- The values of a dictionary, eight bytes each. -/
def dictionaryEntries (table : List UInt8) : List Int64 :=
  (chunksExact 8 table).map i64FromLeBytes

/-- `windows(2).any(|pair| pair[0] >= pair[1])`. -/
def outOfOrder (dictionary : List Int64) : Bool :=
  (dictionary.zip dictionary.tail).any fun pair => pair.2 ≤ pair.1

/-- The value of one row of a dictionary block. -/
def decodeDictionaryRow (validity : List UInt8) (dictionary : List Int64) (id row : Nat) :
    Result Int64 := do
  let id ← orTooLarge 64 id
  let valid ← isValid validity row
  if valid = false then
    if id = 0 then .ok (dictionary.head?.getD 0)
    else corrupt "null dictionary row has a non-zero id"
  else orFail dictionary[id]? (.corrupt s!"dictionary id {id} is out of range")

/-- The bytes of the dictionary, as all readers find them. -/
def dictionaryTable (parts : BlockParts) : Result (List UInt8) := do
  let last ← orTooLarge 64 (parts.auxiliaryCount - 1)
  corruptIf (parts.bitWidth ≠ bitWidth last)
    ("dictionary uses bit width " ++ toString parts.bitWidth ++ ", expected " ++
      toString (bitWidth last))
  let dictionaryBytes ← orTooLarge 64 (parts.auxiliaryCount * 8)
  orFail (range? parts.payload 0 dictionaryBytes) (.corrupt "truncated dictionary")

/-- The bytes of the ids, after the dictionary. -/
def dictionaryIds (parts : BlockParts) : Result (List UInt8) :=
  slice parts.payload (parts.auxiliaryCount * 8) parts.payload.length

/-- The values of the rows of a dictionary block; a null row has one too. -/
def decodeDictionary (parts : BlockParts) : Result (List Int64) := do
  let table ← dictionaryTable parts
  let dictionary := dictionaryEntries table
  corruptIf (outOfOrder dictionary = true) "dictionary values are not strictly ordered"
  let packed ← dictionaryIds parts
  let ids ← unpack packed parts.rowCount parts.bitWidth
  ids.zipIdx.mapM fun p => decodeDictionaryRow parts.validity dictionary p.1 p.2

/-- The value of one row of a frame-of-reference block. -/
def decodeFrameRow (validity : List UInt8) (base : Int64) (delta row : Nat) :
    Result Int64 := do
  let valid ← isValid validity row
  corruptIf (valid = false ∧ delta ≠ 0) "null frame row has a non-zero delta"
  orFail (i64TryFrom (base.toInt + delta)) (.corrupt "frame delta overflows i64")

/-- The error of a frame with an unexpected width. -/
def frameWidthMessage (found expected : Nat) : String :=
  s!"frame uses bit width {found}, expected {expected}"

/-- The values of the rows of a frame block; a null row has one too. -/
def decodeFrame (parts : BlockParts) : Result (List Int64) := do
  corruptIf (parts.auxiliaryCount ≠ 0) "frame-of-reference block has dictionary entries"
  let baseBytes ← orFail (range? parts.payload 0 8) (.corrupt "missing frame base")
  corruptIf (parts.nullCount = parts.rowCount) "frame-of-reference block has no valid values"
  let packed ← slice parts.payload 8 parts.payload.length
  let deltas ← unpack packed parts.rowCount parts.bitWidth
  let expectedWidth := deltas.max?.elim 0 bitWidth
  corruptIf (parts.bitWidth ≠ expectedWidth) (frameWidthMessage parts.bitWidth expectedWidth)
  let base := i64FromLeBytes baseBytes
  deltas.zipIdx.mapM fun p => decodeFrameRow parts.validity base p.1 p.2

/-- One turn of the loop of `decode_block`. -/
def decodeSlot (parts : BlockParts) (value : Int64) (row : Nat) : Result (Option Int64) := do
  let valid ← isValid parts.validity row
  if valid then do
    parts.dataType.validateValue value
    pure (some value)
  else pure none

/-- The values of the rows, whether they are null or not. -/
def decodeValues (parts : BlockParts) : Result (List Int64) :=
  match parts.encoding with
  | .dictionary => decodeDictionary parts
  | .frameOfReference => decodeFrame parts

/-- The type and the rows of a block, with nulls by its bitmap. -/
def decodeBlock (bytes : List UInt8) : Result DecodedPredicateBlock := do
  let parts ← parse bytes
  let encoded ← decodeValues parts
  let values ← encoded.zipIdx.mapM fun p => decodeSlot parts p.1 p.2
  -- `debug_assert_eq!`
  require (values.countP Option.isNone = parts.nullCount)
  pure { dataType := parts.dataType, values }

/-! ## What a block means -/

namespace BlockParts

/-- Whether the row is not null. -/
def valid (parts : BlockParts) (row : Nat) : Bool :=
  (value parts.validity).testBit row

/-- The entries of a dictionary block. -/
def dictionary (parts : BlockParts) : List Int64 :=
  dictionaryEntries (parts.payload.take (parts.auxiliaryCount * 8))

/-- The smallest value of a frame block. -/
def base (parts : BlockParts) : Int64 :=
  i64FromLeBytes (parts.payload.take 8)

/-- The bytes of the packed ids or deltas. -/
def packed (parts : BlockParts) : List UInt8 :=
  match parts.encoding with
  | .dictionary => parts.payload.drop (parts.auxiliaryCount * 8)
  | .frameOfReference => parts.payload.drop 8

/-- The packed ids or deltas, one for every row. -/
def slots (parts : BlockParts) : List Nat :=
  fields parts.bitWidth parts.rowCount (value parts.packed)

/-- The value that an id or a delta stands for. -/
def lookup (parts : BlockParts) (slot : Nat) : Option Int64 :=
  match parts.encoding with
  | .dictionary => parts.dictionary[slot]?
  | .frameOfReference => i64TryFrom (parts.base.toInt + slot)

/-- The value of a row, if its id or delta is one that the row can have. -/
def row (parts : BlockParts) (slot row : Nat) : Option (Option Int64) :=
  if parts.valid row then
    ((parts.lookup slot).filter fun v => parts.dataType.InRange v).map some
  else if slot = 0 then some none
  else none

/-- The parts fit together. -/
def Layout (parts : BlockParts) : Prop :=
  Packed parts.packed parts.rowCount parts.bitWidth ∧
    match parts.encoding with
    | .dictionary =>
      parts.bitWidth = Sidecar.bitWidth (parts.auxiliaryCount - 1) ∧
        parts.auxiliaryCount * 8 ≤ parts.payload.length ∧
        outOfOrder parts.dictionary = false
    | .frameOfReference =>
      parts.bitWidth = parts.slots.max?.elim 0 Sidecar.bitWidth ∧
        parts.auxiliaryCount = 0 ∧ 8 ≤ parts.payload.length ∧
        parts.nullCount ≠ parts.rowCount

instance (parts : BlockParts) : Decidable parts.Layout := by
  unfold Layout
  cases parts.encoding <;> infer_instance

/-- The values of a block, if it is well formed. -/
def rows (parts : BlockParts) : Option (List (Option Int64)) :=
  if parts.Layout then parts.slots.zipIdx.mapM fun p => parts.row p.1 p.2 else none

end BlockParts

/-! ## The decoder computes the rows -/

theorem i64TryFrom_toInt (n : Int64) : i64TryFrom n.toInt = some n := by
  rw [i64TryFrom, if_pos ⟨n.le_toInt, n.toInt_lt⟩, Int64.ofInt_toInt]

namespace BlockParts

variable {parts : BlockParts}

theorem isValid_row (h : parts.Sound) {row : Nat} (hrow : row < parts.rowCount) :
    isValid parts.validity row = .ok (parts.valid row) := by
  refine isValid_eq ?_
  rw [h.validity_length]
  omega

theorem row_lt_of_mem_slots {p : Nat × Nat} (h : p ∈ parts.slots.zipIdx) :
    p.2 < parts.rowCount := by
  have hlt := snd_lt_of_mem_zipIdx h
  rw [slots, length_fields] at hlt
  exact hlt

theorem slot_lt_of_mem_slots {p : Nat × Nat} (h : p ∈ parts.slots.zipIdx) :
    p.1 < 2 ^ parts.bitWidth :=
  lt_of_mem_fields (fst_mem_of_mem_zipIdx h)

/-- The value that the decoder first computes for a row. -/
def decoded (parts : BlockParts) (slot row : Nat) : Option Int64 :=
  if parts.valid row then parts.lookup slot
  else if slot = 0 then
    match parts.encoding with
    | .dictionary => some (parts.dictionary.head?.getD 0)
    | .frameOfReference => some parts.base
  else none

/-- The rows as two passes, as the decoder makes them. -/
theorem rows_eq (hlayout : parts.Layout) :
    parts.rows = (parts.slots.zipIdx.mapM fun p => parts.decoded p.1 p.2).bind fun values =>
      values.zipIdx.mapM fun p =>
        if parts.valid p.2 then
          if parts.dataType.InRange p.1 then some (some p.1) else none
        else some none := by
  rw [mapM_zipIdx_bind, rows, if_pos hlayout]
  congr 1
  funext p
  rw [row, decoded]
  by_cases hvalid : parts.valid p.2
  · rw [if_pos hvalid, if_pos hvalid]
    cases parts.lookup p.1 with
    | none => rfl
    | some v =>
      rw [Option.bind_some, if_pos hvalid]
      by_cases hrange : parts.dataType.InRange v <;> simp [Option.filter, hrange]
  · rw [if_neg hvalid, if_neg hvalid]
    split
    · cases parts.encoding <;> simp
    · rfl

/-- A row is null exactly when its bit is clear. -/
theorem isNone_of_rows {values : List (Option Int64)} (h : parts.rows = some values) :
    values.map Option.isNone = (List.range parts.rowCount).map fun row => !parts.valid row := by
  obtain ⟨-, h⟩ := Option.ite_none_right_eq_some.mp h
  have hmap := map_eq_map_of_forall₂ (f := fun p : Nat × Nat => !parts.valid p.2)
    (g := Option.isNone) (mapM_eq_some.mp h) fun p v hrow => by
      unfold row at hrow
      split at hrow
      · rename_i hvalid
        obtain ⟨w, -, rfl⟩ := Option.map_eq_some_iff.mp hrow
        rw [hvalid]
        rfl
      · rename_i hvalid
        rw [Bool.not_eq_true] at hvalid
        split at hrow
        · cases hrow
          rw [hvalid]
          rfl
        · cases hrow
  rw [← hmap, range_eq_range', ← length_fields parts.bitWidth parts.rowCount
    (value parts.packed), ← zipIdx_map_snd 0, map_map]
  rfl

end BlockParts

variable {parts : BlockParts}

theorem decodeSlot_matches (h : parts.Sound) {v : Int64} {row : Nat}
    (hrow : row < parts.rowCount) :
    Matches (decodeSlot parts v row)
      (if parts.valid row then
        if parts.dataType.InRange v then some (some v) else none
      else some none) := by
  rw [decodeSlot, isValid_row h hrow, ok_bind]
  cases parts.valid row with
  | false => exact .ok
  | true =>
    have hvalue := PredicateType.validateValue_matches h.type_valid v
    rw [if_pos rfl, if_pos rfl]
    by_cases hrange : parts.dataType.InRange v
    · rw [if_pos hrange] at hvalue ⊢
      rw [hvalue.eq_ok_iff.mpr rfl]
      exact .ok
    · rw [if_neg hrange] at hvalue ⊢
      obtain ⟨e, he⟩ := hvalue.exists_fail rfl
      rw [he]
      exact .fail

/-! ### Dictionary blocks -/

section Dictionary

variable {parts : BlockParts} (h : parts.Sound) (hencoding : parts.encoding = .dictionary)

include h

theorem dictionaryTable_matches :
    Matches (dictionaryTable parts)
      (if parts.bitWidth = bitWidth (parts.auxiliaryCount - 1) ∧
          parts.auxiliaryCount * 8 ≤ parts.payload.length
        then some (parts.payload.take (parts.auxiliaryCount * 8)) else none) := by
  have hauxiliary := h.auxiliary_lt
  unfold dictionaryTable corruptIf
  rw [orTooLarge_eq (by omega), ok_bind, orTooLarge_eq (by omega)]
  by_cases hwidth : parts.bitWidth = bitWidth (parts.auxiliaryCount - 1)
  · rw [failIf_eq (not_not.mpr hwidth), ok_bind, ok_bind]
    by_cases hlength : parts.auxiliaryCount * 8 ≤ parts.payload.length
    · rw [range?_eq (Nat.zero_le _) hlength, if_pos ⟨hwidth, hlength⟩]
      exact .ok
    · rw [range?, if_neg fun h => hlength h.2, if_neg fun h => hlength h.2]
      exact .fail
  · rw [failIf, if_pos hwidth, if_neg fun h => hwidth h.1]
    exact .fail

omit h in
include hencoding in
theorem layout_dictionary :
    parts.Layout ↔ Packed parts.packed parts.rowCount parts.bitWidth ∧
      parts.bitWidth = bitWidth (parts.auxiliaryCount - 1) ∧
        parts.auxiliaryCount * 8 ≤ parts.payload.length ∧
        outOfOrder parts.dictionary = false := by
  rw [Layout, hencoding]

omit h in
include hencoding in
theorem dictionaryIds_eq (hlength : parts.auxiliaryCount * 8 ≤ parts.payload.length) :
    dictionaryIds parts = .ok parts.packed := by
  rw [dictionaryIds, slice_eq hlength (le_refl _), take_length, packed, hencoding]

include hencoding

theorem decodeDictionaryRow_matches {p : Nat × Nat} (hp : p ∈ parts.slots.zipIdx) :
    Matches (decodeDictionaryRow parts.validity parts.dictionary p.1 p.2)
      (parts.decoded p.1 p.2) := by
  have hslot : p.1 < 2 ^ 64 := lt_of_lt_of_le (slot_lt_of_mem_slots hp)
    (Nat.pow_le_pow_right (by decide) h.width_le)
  rw [decodeDictionaryRow, orTooLarge_eq hslot, ok_bind,
    isValid_row h (row_lt_of_mem_slots hp), ok_bind, decoded,
    BlockParts.lookup, hencoding]
  cases parts.valid p.2 with
  | true => exact .orFail
  | false =>
    rw [if_pos rfl, if_neg Bool.false_ne_true]
    split
    · exact .ok
    · exact .fail

theorem decodeDictionary_matches :
    Matches (decodeDictionary parts)
      (if parts.Layout then parts.slots.zipIdx.mapM fun p => parts.decoded p.1 p.2
        else none) := by
  have hlayout := layout_dictionary hencoding
  unfold decodeDictionary
  refine (dictionaryTable_matches h).guarded_bind (fun hl => ⟨(hlayout.mp hl).2.1, (hlayout.mp hl).2.2.1⟩)
    fun hhead => ?_
  refine guarded_failIf (fun hl => ?_) fun horder => ?_
  · exact ne_true_of_eq_false (hlayout.mp hl).2.2.2
  rw [dictionaryIds_eq hencoding hhead.2, ok_bind]
  refine (unpack_matches ..).guarded_bind (fun hl => (hlayout.mp hl).1) fun hpacked => ?_
  refine .guarded (hlayout.mpr ⟨hpacked, hhead.1, hhead.2, eq_false_of_ne_true horder⟩) ?_
  exact .mapM fun p hp => decodeDictionaryRow_matches h hencoding hp

end Dictionary

/-! ### Frame-of-reference blocks -/

section Frame

variable {parts : BlockParts} (hencoding : parts.encoding = .frameOfReference)

/-- The bytes of the base, as all readers find them. -/
theorem frameBase_matches (payload : List UInt8) :
    Matches (orFail (range? payload 0 8) (PredicateSidecarError.corrupt "missing frame base"))
      (if 8 ≤ payload.length then some (payload.take 8) else none) := by
  rw [range?]
  simp only [zero_le, true_and, drop_zero]
  exact .orFail

include hencoding

theorem frameDeltas_eq (hlength : 8 ≤ parts.payload.length) :
    slice (ε := PredicateSidecarError) parts.payload 8 parts.payload.length =
      .ok parts.packed := by
  rw [slice_eq hlength (le_refl _), take_length, packed, hencoding]

theorem layout_frame :
    parts.Layout ↔ Packed parts.packed parts.rowCount parts.bitWidth ∧
      parts.bitWidth = parts.slots.max?.elim 0 bitWidth ∧
        parts.auxiliaryCount = 0 ∧ 8 ≤ parts.payload.length ∧
        parts.nullCount ≠ parts.rowCount := by
  rw [Layout, hencoding]

theorem decodeFrameRow_matches (h : parts.Sound) {p : Nat × Nat}
    (hp : p ∈ parts.slots.zipIdx) :
    Matches (decodeFrameRow parts.validity parts.base p.1 p.2) (parts.decoded p.1 p.2) := by
  rw [decodeFrameRow, isValid_row h (row_lt_of_mem_slots hp), ok_bind,
    BlockParts.decoded, BlockParts.lookup, hencoding]
  cases parts.valid p.2 with
  | true =>
    rw [corruptIf, failIf_eq (fun h => Bool.noConfusion h.1)]
    exact .orFail
  | false =>
    rw [if_neg Bool.false_ne_true]
    refine guarded_failIf (fun hzero h => h.2 hzero) fun hzero => ?_
    have hzero : p.1 = 0 := not_not.mp fun hne => hzero ⟨rfl, hne⟩
    rw [if_pos hzero, hzero, Nat.cast_zero, Int.add_zero, i64TryFrom_toInt]
    exact .ok

theorem decodeFrame_matches (h : parts.Sound) :
    Matches (decodeFrame parts)
      (if parts.Layout then parts.slots.zipIdx.mapM fun p => parts.decoded p.1 p.2
        else none) := by
  have hlayout := layout_frame hencoding
  unfold decodeFrame
  refine guarded_failIf (fun hl => not_not.mpr (hlayout.mp hl).2.2.1) fun hauxiliary => ?_
  refine (frameBase_matches parts.payload).guarded_bind (fun hl => (hlayout.mp hl).2.2.2.1)
    fun hlength => ?_
  refine guarded_failIf (fun hl => (hlayout.mp hl).2.2.2.2) fun hnulls => ?_
  rw [frameDeltas_eq hencoding hlength, ok_bind]
  refine (unpack_matches ..).guarded_bind (fun hl => (hlayout.mp hl).1) fun hpacked => ?_
  refine guarded_failIf (fun hl => not_not.mpr (hlayout.mp hl).2.1) fun hwidth => ?_
  refine .guarded (hlayout.mpr
    ⟨hpacked, not_not.mp hwidth, not_not.mp hauxiliary, hlength, hnulls⟩) ?_
  exact .mapM fun p hp => decodeFrameRow_matches hencoding h hp

end Frame

/-! ### All blocks -/

theorem decodeValues_matches (h : parts.Sound) :
    Matches (decodeValues parts)
      (if parts.Layout then parts.slots.zipIdx.mapM fun p => parts.decoded p.1 p.2
        else none) := by
  unfold decodeValues
  cases hencoding : parts.encoding with
  | dictionary => exact decodeDictionary_matches h hencoding
  | frameOfReference => exact decodeFrame_matches hencoding h

/-- Both passes of the decoder compute the rows. -/
theorem decodeRows_matches (h : parts.Sound) :
    Matches (decodeValues parts >>= fun encoded =>
      encoded.zipIdx.mapM fun p => decodeSlot parts p.1 p.2) parts.rows := by
  have hvalues := decodeValues_matches h
  by_cases hlayout : parts.Layout
  · rw [if_pos hlayout] at hvalues
    rw [rows_eq hlayout]
    refine hvalues.bind fun values hdecoded => .mapM fun p hp => ?_
    refine decodeSlot_matches h ?_
    have hlength := (mapM_eq_some.mp hdecoded).length_eq
    rw [length_zipIdx, slots, length_fields] at hlength
    rw [hlength]
    exact snd_lt_of_mem_zipIdx hp
  · rw [if_neg hlayout] at hvalues
    obtain ⟨e, he⟩ := hvalues.exists_fail rfl
    rw [he, rows, if_neg hlayout]
    exact .fail

/-- The decoder computes the rows of a block, and never panics. -/
theorem decodeBlock_matches (bytes : List UInt8) :
    Matches (decodeBlock bytes)
      ((parse bytes).toOption.bind fun parts =>
        parts.rows.map fun values => { dataType := parts.dataType, values }) := by
  have hparse := parse_returns bytes
  refine (of_returns hparse).bind fun parts hparts => ?_
  have hsound : parts.Sound := hparse.of_eq_ok (toOption_eq_some.mp hparts)
  rw [← bind_assoc, Option.map_eq_bind]
  refine (decodeRows_matches hsound).bind fun values hrows => ?_
  -- the count of the assertion
  have hnulls : values.countP Option.isNone = parts.nullCount := by
    have hcount := congrArg (countP id) (isNone_of_rows hrows)
    rw [countP_map, countP_map] at hcount
    rw [hsound.nulls]
    exact hcount
  rw [require_eq hnulls]
  exact .ok

end RustDb.Sidecar
