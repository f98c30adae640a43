import RustDb.Lib.Checked
import RustDb.Lib.LittleEndian

/-!
# The format of a predicate block

A predicate block holds one column of one row group in a compact form: a header of
40 bytes, a bitmap of the rows that are not null, and the encoded values.

* `PredicateType`: the types that a block can hold, and the range of each.
* `assemble` writes a block and `parse` reads its parts.
* `BlockParts.Sound`: what `parse` has checked, and `parse_returns`: it has checked
  it for every byte string, and never panics.
* `parse_assemble`: the parts of an assembled block.
-/

namespace RustDb.Sidecar

open RustDb.Lib RustDb.Lib.Checked List LittleEndian Except

/-! ## Types -/

/-- The column types that have predicate blocks. -/
inductive PredicateType where
  | int8
  | int16
  | int32
  | int64
  | date32
  | decimal128 (precision : UInt8) (scale : Int8)
deriving DecidableEq, Repr

/-- Why a block is not written or not read. -/
inductive PredicateSidecarError where
  | unsupportedType (name : String)
  | valueOutOfRange (dataType : PredicateType) (value : Int64)
  | corrupt (message : String)
  | tooLarge
deriving DecidableEq, Repr

/-- A value, an error, or a panic. -/
abbrev Result (α : Type) := Checked PredicateSidecarError α

/-- The error of bytes that no encoder writes. -/
def corrupt {α : Type} (message : String) : Result α := fail (.corrupt message)

/-- Fails with `Corrupt(message)` when `c` holds. -/
def corruptIf (c : Prop) [Decidable c] (message : String) : Result Unit :=
  failIf c (.corrupt message)

/-- A checked operation on `width` bits, or `TooLarge`. -/
def orTooLarge (width n : Nat) : Result Nat := orFail (fits width n) .tooLarge

/-- The Arrow types, as far as the sidecar tells them apart. -/
inductive ArrowType where
  | int8
  | int16
  | int32
  | int64
  | date32
  | decimal128 (precision : UInt8) (scale : Int8)
  | other (name : String)
deriving DecidableEq, Repr

/-- How Arrow writes a type. -/
def ArrowType.toString : ArrowType → String
  | .int8 => "Int8"
  | .int16 => "Int16"
  | .int32 => "Int32"
  | .int64 => "Int64"
  | .date32 => "Date32"
  | .decimal128 precision scale => s!"Decimal128({precision}, {scale})"
  | .other name => name

namespace PredicateType

/-- The predicate type of a column; decimals of more than 18 digits have none. -/
def fromArrow : ArrowType → Result PredicateType
  | .int8 => .ok .int8
  | .int16 => .ok .int16
  | .int32 => .ok .int32
  | .int64 => .ok .int64
  | .date32 => .ok .date32
  | .decimal128 precision scale =>
    if precision ≤ 18 then .ok (.decimal128 precision scale)
    else fail (.unsupportedType (ArrowType.decimal128 precision scale).toString)
  | .other name => fail (.unsupportedType name)

/-- The bytes of a value in an Arrow array. -/
def rawWidth : PredicateType → Nat
  | .int8 => 1
  | .int16 => 2
  | .int32 => 4
  | .date32 => 4
  | .int64 => 8
  | .decimal128 _ _ => 16

/-- A decimal of a predicate type has 1 to 18 digits. -/
def validate : PredicateType → Result Unit
  | .decimal128 precision _ =>
    if 1 ≤ precision ∧ precision ≤ 18 then .ok ()
    else fail (.unsupportedType s!"Decimal128({precision}, ..)")
  | _ => .ok ()

/-- Whether a value is a signed number of `width` bits. -/
def isSigned (width : Nat) (value : Int64) : Bool :=
  -2 ^ (width - 1) ≤ value.toInt ∧ value.toInt < 2 ^ (width - 1)

/-- The test of `validate_value`, with the power `10^precision` in an `i64`. -/
def valueInRange (dataType : PredicateType) (value : Int64) : Result Bool :=
  match dataType with
  | .int8 => .ok (isSigned 8 value)
  | .int16 => .ok (isSigned 16 value)
  | .int32 => .ok (isSigned 32 value)
  | .date32 => .ok (isSigned 32 value)
  | .int64 => .ok true
  | .decimal128 precision _ => do
    let limit ← inWidth 63 (10 ^ precision.toNat)
    pure (decide (-limit < value.toInt ∧ value.toInt < limit))

/-- The value is one of the type. -/
def validateValue (dataType : PredicateType) (value : Int64) : Result Unit := do
  let valid ← dataType.valueInRange value
  failIf (valid = false) (.valueOutOfRange dataType value)

/-- `format_parts`: the tag, the precision and the scale in the header. -/
def formatParts : PredicateType → UInt8 × UInt8 × Int8
  | .int8 => (1, 0, 0)
  | .int16 => (2, 0, 0)
  | .int32 => (3, 0, 0)
  | .int64 => (4, 0, 0)
  | .date32 => (5, 0, 0)
  | .decimal128 precision scale => (6, precision, scale)

/-- The type with a tag, as matched in `from_format`. -/
def ofTag (tag precision : UInt8) (scale : Int8) : Result PredicateType :=
  match tag with
  | 1 => .ok .int8
  | 2 => .ok .int16
  | 3 => .ok .int32
  | 4 => .ok .int64
  | 5 => .ok .date32
  | 6 => .ok (.decimal128 precision scale)
  | _ => corrupt s!"unknown logical type tag {tag}"

/-- The type that a header states; only a decimal has a precision and a scale. -/
def fromFormat (tag precision : UInt8) (scale : Int8) : Result PredicateType := do
  corruptIf (tag ≠ 6 ∧ (precision ≠ 0 ∨ scale ≠ 0)) "non-decimal type has decimal metadata"
  let dataType ← ofTag tag precision scale
  dataType.validate
  pure dataType

/-- The text of the derived `Debug`. -/
def debug : PredicateType → String
  | .int8 => "Int8"
  | .int16 => "Int16"
  | .int32 => "Int32"
  | .int64 => "Int64"
  | .date32 => "Date32"
  | .decimal128 precision scale =>
    s!"Decimal128 \x7b precision: {precision}, scale: {scale} \x7d"

/-- The values that `validate_value` accepts. -/
def InRange (dataType : PredicateType) (value : Int64) : Prop :=
  match dataType with
  | .int8 => isSigned 8 value
  | .int16 => isSigned 16 value
  | .int32 => isSigned 32 value
  | .date32 => isSigned 32 value
  | .int64 => True
  | .decimal128 precision _ =>
    -(10 : Int) ^ precision.toNat < value.toInt ∧ value.toInt < 10 ^ precision.toNat

instance (dataType : PredicateType) (value : Int64) : Decidable (dataType.InRange value) := by
  unfold InRange
  cases dataType <;> infer_instance

end PredicateType

/-! ## Blocks -/

/-- The two ways to store the values of a block. -/
inductive Encoding where
  | dictionary
  | frameOfReference
deriving DecidableEq, Repr

/-- The byte that stands for an encoding. -/
def Encoding.tag : Encoding → UInt8
  | .dictionary => 1
  | .frameOfReference => 2

/-- The encoding that a byte stands for. -/
def Encoding.fromTag (tag : UInt8) : Result Encoding :=
  match tag with
  | 1 => .ok .dictionary
  | 2 => .ok .frameOfReference
  | _ => corrupt s!"unknown encoding tag {tag}"

/-- The parts of a parsed block.  Counts are of type `usize`. -/
structure BlockParts where
  dataType : PredicateType
  encoding : Encoding
  bitWidth : Nat
  rowCount : Nat
  nullCount : Nat
  auxiliaryCount : Nat
  validity : List UInt8
  payload : List UInt8
deriving DecidableEq, Repr

/-- What the header of a block states about the bytes behind it. -/
structure Header where
  dataType : PredicateType
  encoding : Encoding
  bitWidth : Nat
  rowCount : Nat
  nullCount : Nat
  auxiliaryCount : Nat
  validityLen : Nat
  payloadLen : Nat
deriving DecidableEq, Repr

/-- What the encoder reserves for a directory entry when it weighs a block. -/
def directoryEntryBytes : Nat := 32

/-- The bytes of `RDBPSC01`. -/
def magic : List UInt8 := [82, 68, 66, 80, 83, 67, 48, 49]

/-- The only version of a block that is read. -/
def version : Nat := 1

/-- The length of the header of a block. -/
def headerBytes : Nat := 40

open LittleEndian in
/-- The bytes of the header. -/
def Header.write (header : Header) : List UInt8 :=
  let parts := header.dataType.formatParts
  magic ++ bytes 2 version ++ bytes 2 headerBytes ++
    [parts.1, header.encoding.tag, UInt8.ofNat header.bitWidth, parts.2.1,
      parts.2.2.toUInt8] ++
    [0, 0, 0] ++ bytes 4 header.rowCount ++ bytes 4 header.nullCount ++
    bytes 4 header.validityLen ++ bytes 4 header.auxiliaryCount ++ bytes 4 header.payloadLen

/-- The header, the validity bitmap and the payload in one piece, at lengths that the header states.
-/
def assemble (header : Header) (validity payload : List UInt8) : Result (List UInt8) := do
  corruptIf (header.validityLen ≠ validity.length ∨ header.payloadLen ≠ payload.length)
    "header length does not match block data"
  let size ← orTooLarge 64 (headerBytes + validity.length)
  let _total ← orTooLarge 64 (size + payload.length)
  pure (header.write ++ validity ++ payload)

/-- The number in `size` bytes at `offset`. -/
def readAt (size : Nat) (bytes : List UInt8) (offset : Nat) : Result Nat := do
  let stop ← add 64 offset size
  let read ← orFail (range? bytes offset stop) (.corrupt "truncated header")
  pure (value read)

/-- A little-endian field of two bytes. -/
def readU16 : List UInt8 → Nat → Result Nat := readAt 2

/-- A little-endian field of four bytes. -/
def readU32 : List UInt8 → Nat → Result Nat := readAt 4

/-- A count as an index into memory. -/
def usizeFromU32 (value : Nat) : Result Nat := orTooLarge 64 value

/-- Whether a bit of the last byte is set above the `used` lowest ones. -/
def paddingSet (bytes : List UInt8) (used : Nat) : Result Bool := do
  let bit ← shiftLeft 8 1 used
  let mask ← sub bit 1
  pure (bytes.getLast?.any fun byte => byte.toNat &&& (255 ^^^ mask) ≠ 0)

/-- Fails when the last byte is only used in part and a bit of the rest is set. -/
def checkPadding (bytes : List UInt8) (used : Nat) (message : String) : Result Unit :=
  if used = 0 then .ok ()
  else do
    let set ← paddingSet bytes used
    corruptIf (set = true) message

/-- The bitmap has as many zero bits as there are nulls, and none set behind the last row. -/
def validateValidity (validity : List UInt8) (rowCount nullCount : Nat) : Result Unit := do
  checkPadding validity (rowCount % 8) "non-zero validity padding"
  let validCount ← inWidth 64 (validity.map countOnes).sum
  corruptIf (rowCount - validCount ≠ nullCount) "null count does not match validity bitmap"

/-- The parts of a block.  Every field of the header is checked, and the lengths must add up. -/
def parse (bytes : List UInt8) : Result BlockParts := do
  corruptIf (bytes.length < headerBytes ∨ range? bytes 0 8 ≠ some magic)
    "missing predicate block header"
  let found ← readU16 bytes 8
  corruptIf (found ≠ version) "unsupported predicate block version or header length"
  let length ← readU16 bytes 10
  corruptIf (length ≠ headerBytes) "unsupported predicate block version or header length"
  let reserved ← slice bytes 17 20
  corruptIf (reserved.any (· ≠ 0)) "non-zero reserved header bytes"
  let typeTag ← index bytes 12
  let precision ← index bytes 15
  let scale ← index bytes 16
  let dataType ← PredicateType.fromFormat typeTag precision scale.toInt8
  let encodingTag ← index bytes 13
  let encoding ← Encoding.fromTag encodingTag
  let bitWidth ← index bytes 14
  corruptIf (64 < bitWidth.toNat) s!"invalid bit width {bitWidth}"
  let rowCount ← readU32 bytes 20 >>= usizeFromU32
  let nullCount ← readU32 bytes 24 >>= usizeFromU32
  let validityLen ← readU32 bytes 28 >>= usizeFromU32
  let auxiliaryCount ← readU32 bytes 32 >>= usizeFromU32
  let payloadLen ← readU32 bytes 36 >>= usizeFromU32
  -- `div_ceil` cannot overflow
  let expectedValidity := (rowCount + 7) / 8
  corruptIf (validityLen ≠ expectedValidity ∨ rowCount < nullCount)
    "invalid validity or null count"
  let payloadOffset ← orTooLarge 64 (headerBytes + validityLen)
  let total ← orTooLarge 64 (payloadOffset + payloadLen)
  corruptIf (total ≠ bytes.length) "block length does not match header"
  let validity ← slice bytes headerBytes payloadOffset
  validateValidity validity rowCount nullCount
  let payload ← slice bytes payloadOffset bytes.length
  pure {
    dataType, encoding, bitWidth := bitWidth.toNat, rowCount, nullCount
    auxiliaryCount, validity, payload }

/-- `is_valid`: whether the bit of the row is set. -/
def isValid (validity : List UInt8) (row : Nat) : Result Bool := do
  let byte ← index validity (row / 8)
  let bit ← shiftLeft 8 1 (row % 8)
  pure (byte.toNat &&& bit ≠ 0)

/-! ## The tests on bits -/

/-- The mask test of the padding reads the size of the byte. -/
theorem and_mask_eq_zero : ∀ used < 8, ∀ b < 256,
    (b &&& (255 ^^^ (2 ^ used - 1)) = 0 ↔ b < 2 ^ used) := by
  decide +kernel

variable {bytes : List UInt8}

theorem paddingSet_eq {used : Nat} (h : used < 8) :
    paddingSet bytes used = .ok (bytes.getLast?.any fun b => decide (2 ^ used ≤ b.toNat)) := by
  have hlt : 2 ^ used < 2 ^ 8 := Nat.pow_lt_pow_right (by decide) h
  have hbit : 1 <<< used % 2 ^ 8 = 2 ^ used := by
    rw [Nat.one_shiftLeft, Nat.mod_eq_of_lt hlt]
  have hpos : 1 ≤ 2 ^ used := Nat.one_le_two_pow
  rw [paddingSet, shiftLeft_eq h, ok_bind, hbit, sub_eq hpos, ok_bind]
  show ok _ = ok _
  congr 2
  funext b
  rw [decide_eq_decide, ne_eq, and_mask_eq_zero used h b.toNat b.toNat_lt, not_lt]

variable {n : Nat}

/-- The padding of bytes that hold `n` bits is clear when the number they stand for has
no further bits. -/
theorem checkPadding_matches (message : String) (hlen : bytes.length = (n + 7) / 8) :
    Matches (checkPadding bytes (n % 8) message)
      (if value bytes < 2 ^ n then some () else none) := by
  have hlt := value_lt bytes
  have hpow : (256 : Nat) ^ bytes.length = 2 ^ (8 * bytes.length) := by
    rw [Nat.pow_mul]
  unfold checkPadding
  by_cases hn : n % 8 = 0
  · have hbits : 8 * bytes.length = n := by omega
    rw [hpow, hbits] at hlt
    rw [if_pos hn, if_pos hlt]
    exact .ok
  · obtain ⟨init, b, rfl⟩ : ∃ init b, bytes = init ++ [b] := by
      rcases eq_nil_or_concat bytes with rfl | ⟨init, b, rfl⟩
      · rw [length_nil] at hlen
        omega
      · exact ⟨init, b, concat_eq_append⟩
    have hbits : n = 8 * init.length + n % 8 := by
      rw [length_append, length_singleton] at hlen
      omega
    have hiff : value (init ++ [b]) < 2 ^ n ↔ b.toNat < 2 ^ (n % 8) := by
      conv_lhs => rw [hbits]
      exact value_concat_lt
    rw [if_neg hn, paddingSet_eq (Nat.mod_lt _ (by decide)), ok_bind,
      getLast?_concat, Option.any_some, corruptIf, failIf]
    simp only [decide_eq_true_eq, hiff]
    by_cases hb : b.toNat < 2 ^ (n % 8)
    · rw [if_pos hb, if_neg (not_le.mpr hb)]
      exact .ok
    · rw [if_neg hb, if_pos (not_lt.mp hb)]
      exact .fail

variable {validity : List UInt8}

/-- The mask test of a row reads one bit of the bitmap. -/
theorem isValid_eq {row : Nat} (h : row / 8 < validity.length) :
    isValid validity row = .ok ((value validity).testBit row) := by
  have hmod : row % 8 < 8 := Nat.mod_lt _ (by decide)
  have hlt : 2 ^ (row % 8) < 2 ^ 8 := Nat.pow_lt_pow_right (by decide) hmod
  have hbit : 1 <<< (row % 8) % 2 ^ 8 = 2 ^ (row % 8) := by
    rw [Nat.one_shiftLeft, Nat.mod_eq_of_lt hlt]
  have hget := getElem?_eq_getElem h
  rw [isValid, index_eq hget, ok_bind, shiftLeft_eq hmod, ok_bind, hbit,
    testBit_value, getD_eq_getElem?_getD, hget, Option.getD_some]
  show ok _ = ok _
  congr 1
  rw [Nat.and_two_pow]
  cases (get validity ⟨row / 8, h⟩).toNat.testBit (row % 8) <;> simp

/-! ## Types and their ranges -/

namespace PredicateType

theorem validate_decimal128 {precision : UInt8} {scale : Int8} :
    (decimal128 precision scale).validate = .ok () ↔ 1 ≤ precision ∧ precision ≤ 18 := by
  unfold validate
  by_cases h : 1 ≤ precision ∧ precision ≤ 18 <;> simp [h, fail]

variable {dataType : PredicateType}

/-- Of a type that `validate` accepts, `validate_value` accepts the values in range. -/
theorem validateValue_matches (h : dataType.validate = .ok ()) (value : Int64) :
    Matches (dataType.validateValue value)
      (if dataType.InRange value then some () else none) := by
  have hcheck : ∀ valid : Bool, (valid = true ↔ dataType.InRange value) →
      dataType.valueInRange value = .ok valid →
      Matches (dataType.validateValue value)
        (if dataType.InRange value then some () else none) := by
    intro valid hiff heq
    rw [validateValue, heq, ok_bind, failIf]
    cases valid
    · rw [if_pos rfl, if_neg (fun hin => Bool.false_ne_true (hiff.mpr hin))]
      exact .fail
    · rw [if_neg Bool.noConfusion, if_pos (hiff.mp rfl)]
      exact .ok
  cases dataType with
  | int8 | int16 | int32 | date32 => exact hcheck _ Iff.rfl rfl
  | int64 => exact hcheck true (iff_of_true rfl trivial) rfl
  | decimal128 precision scale =>
    have hprecision : precision ≤ 18 := (validate_decimal128.mp h).2
    -- `10^18` is the largest power that an `i64` holds
    have hlimit : 10 ^ precision.toNat < 2 ^ 63 :=
      calc 10 ^ precision.toNat ≤ 10 ^ 18 := Nat.pow_le_pow_right (by decide) hprecision
        _ < 2 ^ 63 := by decide
    refine hcheck _ ?_ (bind_eq_ok.mpr ⟨10 ^ precision.toNat, ?_, rfl⟩)
    · rw [decide_eq_true_eq, Nat.cast_pow]
      rfl
    · rw [inWidth, fits_eq hlimit]

theorem validate_ne_panic (dataType : PredicateType) :
    Returns dataType.validate fun _ => dataType.validate = .ok () := by
  unfold validate
  split
  · split
    · exact .ok rfl
    · exact .fail
  · exact .ok rfl

theorem fromFormat_returns (tag precision : UInt8) (scale : Int8) :
    Returns (fromFormat tag precision scale) fun dataType => dataType.validate = .ok () := by
  have hofTag : Returns (ofTag tag precision scale) fun _ => True := by
    unfold ofTag
    split <;> trivial
  unfold fromFormat corruptIf
  refine .failIf_bind fun _ => hofTag.bind fun dataType _ => ?_
  exact dataType.validate_ne_panic.bind fun _ hvalid => .ok hvalid

/-- The type in the header of a block is the type that was written. -/
theorem fromFormat_formatParts (h : dataType.validate = .ok ()) :
    fromFormat dataType.formatParts.1 dataType.formatParts.2.1 dataType.formatParts.2.2 =
      .ok dataType := by
  cases dataType with
  | decimal128 precision scale =>
    show (decimal128 precision scale).validate >>= _ = _
    rw [h]
    rfl
  | _ => rfl

end PredicateType

theorem Encoding.fromTag_returns (tag : UInt8) :
    Returns (Encoding.fromTag tag) fun _ => True := by
  unfold Encoding.fromTag
  split <;> trivial

/-! ## Parsing -/

/-- What `parse` has checked. -/
structure BlockParts.Sound (parts : BlockParts) : Prop where
  type_valid : parts.dataType.validate = .ok ()
  width_le : parts.bitWidth ≤ 64
  rows_lt : parts.rowCount < 2 ^ 32
  auxiliary_lt : parts.auxiliaryCount < 2 ^ 32
  payload_lt : parts.payload.length < 2 ^ 32
  validity_length : parts.validity.length = (parts.rowCount + 7) / 8
  validity_lt : value parts.validity < 2 ^ parts.rowCount
  nulls : parts.nullCount = (List.range parts.rowCount).countP fun row =>
    !(value parts.validity).testBit row

variable {rowCount : Nat}

/-- The number of set bits among the rows, from the count over all bytes. -/
theorem sum_countOnes_rows (hlen : validity.length = (rowCount + 7) / 8)
    (hlt : value validity < 2 ^ rowCount) :
    (validity.map countOnes).sum =
      (List.range rowCount).countP fun row => (value validity).testBit row := by
  obtain ⟨extra, hextra⟩ : ∃ extra, 8 * validity.length = rowCount + extra :=
    ⟨8 * validity.length - rowCount, by omega⟩
  rw [sum_countOnes, hextra, range_add, countP_append,
    countP_map, add_eq_left, countP_eq_zero]
  intro i _ hbit
  have hge := Nat.testBit_lt_two_pow (i := rowCount + i)
    (Nat.lt_of_lt_of_le hlt (Nat.pow_le_pow_right (by decide) (Nat.le_add_right ..)))
  rw [Function.comp_apply, hge] at hbit
  cases hbit

theorem validateValidity_matches (nullCount : Nat) (hrows : rowCount < 2 ^ 32)
    (hlen : validity.length = (rowCount + 7) / 8) :
    Matches (validateValidity validity rowCount nullCount)
      (if value validity < 2 ^ rowCount ∧
          nullCount = (List.range rowCount).countP fun row =>
            !(value validity).testBit row
        then some () else none) := by
  unfold validateValidity
  refine (checkPadding_matches _ hlen).guarded_bind (fun hd => hd.1) fun hlt => ?_
  have hcount := length_eq_countP_add_countP
    (fun row => (value validity).testBit row) (l := range rowCount)
  simp only [length_range, Bool.not_eq_true, Bool.decide_eq_false] at hcount
  have hbound : ((range rowCount).countP fun row =>
      (value validity).testBit row) < 2 ^ 64 := by omega
  rw [sum_countOnes_rows hlen hlt, inWidth, fits_eq hbound, ok_bind, corruptIf, failIf]
  simp only [hlt, true_and]
  split
  · rename_i hne
    rw [if_neg (by omega)]
    exact .fail
  · rename_i heq
    rw [if_pos (by omega)]
    exact .ok

theorem orTooLarge_matches (width n : Nat) :
    Matches (orTooLarge width n) (if n < 2 ^ width then some n else none) :=
  .orFail

variable {width : Nat}

theorem orTooLarge_eq (h : n < 2 ^ width) : orTooLarge width n = .ok n := by
  rw [orTooLarge, fits_eq h]
  rfl

@[simp] theorem orTooLarge_eq_ok {m : Nat} :
    orTooLarge width n = .ok m ↔ n < 2 ^ width ∧ m = n := by
  rw [orTooLarge, orFail_eq_ok, fits_eq_some]

theorem orTooLarge_returns (width n : Nat) :
    Returns (orTooLarge width n) fun m => n < 2 ^ width ∧ m = n :=
  Returns.orFail.imp fun _ h => fits_eq_some.mp h

variable {offset : Nat}

theorem readAt_returns {size : Nat} (h : offset + size < 2 ^ 64) :
    Returns (readAt size bytes offset) fun n => n < 256 ^ size := by
  unfold readAt
  rw [add_eq h, ok_bind]
  refine Returns.orFail.bind fun read hread => .ok ?_
  have hlt := value_lt read
  rw [length_of_range? hread, Nat.add_sub_cancel_left] at hlt
  exact hlt

theorem readCount_returns (h : offset < 2 ^ 32) :
    Returns (readU32 bytes offset >>= usizeFromU32) fun n => n < 2 ^ 32 := by
  refine (readAt_returns (by omega)).bind fun n hn => ?_
  refine (orTooLarge_returns 64 n).imp fun m hm => ?_
  rw [hm.2]
  exact hn

/-- `parse` never panics, and what it returns is sound. -/
theorem parse_returns (bytes : List UInt8) : Returns (parse bytes) BlockParts.Sound := by
  unfold parse corruptIf
  refine .failIf_bind fun hheader => ?_
  have hlen : 40 ≤ bytes.length := by
    have := not_or.mp hheader
    unfold headerBytes at this
    omega
  refine (readAt_returns (by decide)).bind fun found _ => .failIf_bind fun _ => ?_
  refine (readAt_returns (by decide)).bind fun length _ => .failIf_bind fun _ => ?_
  refine (Returns.slice (by decide) (by omega)).bind fun reserved _ => ?_
  refine .failIf_bind fun _ => ?_
  refine (Returns.index (by omega)).bind fun typeTag _ => ?_
  refine (Returns.index (by omega)).bind fun precision _ => ?_
  refine (Returns.index (by omega)).bind fun scale _ => ?_
  refine (PredicateType.fromFormat_returns ..).bind fun dataType htype => ?_
  refine (Returns.index (by omega)).bind fun encodingTag _ => ?_
  refine (Encoding.fromTag_returns encodingTag).bind fun encoding _ => ?_
  refine (Returns.index (by omega)).bind fun bitWidth _ => .failIf_bind fun hwidth => ?_
  refine (readCount_returns (by decide)).bind fun rowCount hrows => ?_
  refine (readCount_returns (by decide)).bind fun nullCount _ => ?_
  refine (readCount_returns (by decide)).bind fun validityLen _ => ?_
  refine (readCount_returns (by decide)).bind fun auxiliaryCount hauxiliary => ?_
  refine (readCount_returns (by decide)).bind fun payloadLen hpayload => ?_
  refine .failIf_bind fun hvalidity => ?_
  obtain ⟨hvalidityLen, -⟩ := not_or.mp hvalidity
  refine (orTooLarge_returns ..).bind fun payloadOffset hoffset => ?_
  refine (orTooLarge_returns ..).bind fun total htotal => .failIf_bind fun hlength => ?_
  obtain ⟨-, rfl⟩ := hoffset
  obtain ⟨-, rfl⟩ := htotal
  refine (Returns.slice (Nat.le_add_right ..) (by omega)).bind fun validity hslice => ?_
  have hvalidityLength : validity.length = (rowCount + 7) / 8 := by omega
  have hmatches := validateValidity_matches nullCount hrows hvalidityLength
  refine (hmatches.returns).bind fun _ hbits => ?_
  have hbits := Option.ite_none_right_eq_some.mp hbits
  refine (Returns.slice (by omega) (Nat.le_refl _)).bind fun payload hslice => ?_
  exact .ok {
    type_valid := htype
    width_le := Nat.not_lt.mp hwidth
    rows_lt := hrows
    auxiliary_lt := hauxiliary
    payload_lt := by
      show payload.length < 2 ^ 32
      omega
    validity_length := hvalidityLength
    validity_lt := hbits.1.1
    nulls := hbits.1.2 }

/-! ## Parsing what was assembled -/

section Assembled

variable {header : Header} {rest : List UInt8}

theorem Header.length_write (header : Header) : header.write.length = 40 := rfl

variable {offset n : Nat}

/-- Reading a number of the header back. -/
theorem readAt_write {size : Nat} (hoffset : offset + size ≤ 40)
    (hbytes : (header.write.take (offset + size)).drop offset = LittleEndian.bytes size n)
    (hn : n < 256 ^ size) : readAt size (header.write ++ rest) offset = .ok n := by
  have hlen : offset + size ≤ header.write.length := by
    rw [header.length_write]
    exact hoffset
  have hrange : range? (header.write ++ rest) offset (offset + size) =
      some (bytes size n) := by
    rw [range?_eq (Nat.le_add_right ..)
      (Nat.le_trans hlen (by rw [length_append]; exact Nat.le_add_right ..)),
      take_append_of_le_length hlen, hbytes]
  rw [readAt, add_eq (by omega), ok_bind, hrange]
  show ok _ = _
  rw [value_bytes_of_lt hn]

theorem readCount_write (hoffset : offset + 4 ≤ 40)
    (hbytes : (header.write.take (offset + 4)).drop offset = LittleEndian.bytes 4 n)
    (hn : n < 2 ^ 32) : readU32 (header.write ++ rest) offset >>= usizeFromU32 = .ok n := by
  rw [readU32, readAt_write hoffset hbytes hn, ok_bind]
  exact orTooLarge_eq (by omega)

end Assembled

/-- The parts of an assembled block. -/
theorem parse_assemble {header : Header} {payload : List UInt8}
    (h : assemble header validity payload = .ok bytes)
    (hsound : BlockParts.Sound { header with validity, payload }) :
    parse bytes = .ok { header with validity, payload } := by
  obtain ⟨htype, hwidth, hrows, hauxiliary, hpayload, hvalidity, hlt, hnulls⟩ := hsound
  dsimp only at htype hwidth hrows hauxiliary hpayload hvalidity hlt hnulls
  simp only [assemble, corruptIf, bind_eq_ok, failIf_eq_ok, not_or, not_not, ne_eq] at h
  obtain ⟨-, ⟨hvalidityLen, hpayloadLen⟩, size, hsize, total, htotal, ⟨⟩⟩ := h
  have hnull : header.nullCount ≤ header.rowCount := by
    rw [hnulls]
    exact le_trans countP_le_length (le_of_eq length_range)
  have hbyte : header.bitWidth < 256 := by omega
  have hlength : (header.write ++ validity ++ payload).length =
      40 + validity.length + payload.length := by
    rw [length_append, length_append, header.length_write]
  rw [append_assoc] at hlength ⊢
  have hmagic : range? (header.write ++ (validity ++ payload)) 0 8 = some magic :=
    range?_eq (by decide) (by omega)
  have hreserved : slice (ε := PredicateSidecarError)
      (header.write ++ (validity ++ payload)) 17 20 = .ok [0, 0, 0] :=
    slice_eq (by decide) (by omega)
  unfold parse corruptIf
  -- the header fields, in the order in which they are read
  refine pass (not_or.mpr ⟨?_, not_not.mpr hmagic⟩) ?_
  · rw [hlength, headerBytes]
    omega
  refine step (readAt_write (n := version) (by decide) rfl (by decide)) ?_
  refine pass (not_not.mpr rfl) ?_
  refine step (readAt_write (n := headerBytes) (by decide) rfl (by decide)) ?_
  refine pass (not_not.mpr rfl) ?_
  refine step hreserved (pass (by decide) ?_)
  refine step (index_eq rfl) (step (index_eq rfl) (step (index_eq rfl) ?_))
  refine step (PredicateType.fromFormat_formatParts htype) (step (index_eq rfl) ?_)
  refine step (a := header.encoding) (by cases header.encoding <;> rfl) ?_
  have htoNat : (UInt8.ofNat header.bitWidth).toNat = header.bitWidth := by
    rw [UInt8.toNat_ofNat', Nat.mod_eq_of_lt hbyte]
  refine step (a := UInt8.ofNat header.bitWidth) (index_eq rfl) ?_
  rw [htoNat]
  refine pass (not_lt.mpr hwidth) ?_
  refine step (readCount_write (by decide) rfl hrows) ?_
  refine step (readCount_write (by decide) rfl (by omega)) ?_
  refine step (readCount_write (by decide) rfl (by omega)) ?_
  refine step (readCount_write (by decide) rfl hauxiliary) ?_
  refine step (readCount_write (by decide) rfl (by omega)) ?_
  -- the layout and the bitmap
  have hmatches := validateValidity_matches header.nullCount hrows hvalidity
  rw [if_pos ⟨hlt, hnulls⟩] at hmatches
  refine pass (by omega) ?_
  have hoffset : headerBytes + header.validityLen = header.write.length + validity.length := by
    rw [hvalidityLen, header.length_write, headerBytes]
  refine step (orTooLarge_eq (by unfold headerBytes; omega)) ?_
  refine step (orTooLarge_eq (by unfold headerBytes; omega)) ?_
  refine pass (not_not.mpr ?_) ?_
  · rw [hlength, hvalidityLen, hpayloadLen, headerBytes]
  refine step (a := validity) ?_ (step (hmatches.eq_ok_iff.mpr rfl) (step (a := payload) ?_ rfl))
  · rw [slice_eq (Nat.le_add_right ..) (by unfold headerBytes; omega), hoffset,
      take_length_add_append, take_left]
    exact congrArg ok (drop_left' header.length_write)
  · rw [slice_eq (by unfold headerBytes; omega) (le_refl _), take_length, hoffset,
      drop_length_add_append, drop_left]

end RustDb.Sidecar
