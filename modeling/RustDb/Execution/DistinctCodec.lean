import RustDb.Execution.CellKeys
import RustDb.Lib.LittleEndian

/-!
# The spill format of DISTINCT

`execution/aggregate/distinct/spill/codec.rs`: groups and values that `DISTINCT` aggregates
write to disk and read back.

* `encodeGroup`, `encodeValue`, `decodeGroup`, `decodeValue` and the cursor they read with.
* `Exact read W`: the reader accepts exactly the pieces that `W` relates to its values, and
  never panics.  Readers compose by `Exact.bind`.
* `distinct_codec_is_exact`: what is accepted is what was written, but for the bits of floats,
  which only encoding normalizes.
-/

namespace RustDb.Execution.Distinct

open RustDb.Lib RustDb.Lib.Checked List LittleEndian FloatBits Except

/-- An `f64` is its bits. -/
class FloatLayout (F : Type) extends FloatBits F where
  toBits : F → UInt64
  fromBits_eq_iff : ∀ bits value, fromBits bits = value ↔ bits = toBits value

variable {F : Type}

/-! ## Writing -/

/-- `to_le_bytes` of a number of `size` bytes. -/
def toLeBytes (size : Nat) (number : BitVec (8 * size)) : List UInt8 :=
  bytes size number.toNat

/-- The number that little-endian bytes stand for. -/
def fromLeBytes (size : Nat) (bytes : List UInt8) : BitVec (8 * size) :=
  BitVec.ofNat _ (value bytes)

/-- A text or binary value behind its length. -/
def encodeBytes (bytes : List UInt8) : Result (List UInt8) := do
  let len ← orFail (fits 64 bytes.length) (.resourceExhausted "DISTINCT value is too large")
  .ok (LittleEndian.bytes 8 len ++ bytes)

/-- `encode_cell`, with the bits that are written for a float. -/
def encodeCellAs (bits : F → UInt64) : CellValue F → Result (List UInt8)
  | .null => .ok [0]
  | .boolean value => .ok [1, if value then 1 else 0]
  | .int64 value => .ok (2 :: toLeBytes 8 value.toBitVec)
  | .uint64 value => .ok (3 :: toLeBytes 8 value.toBitVec)
  | .float64 value => .ok (4 :: toLeBytes 8 (bits value).toBitVec)
  | .utf8 value => do
    let bytes ← encodeBytes value.toUTF8.data.toList
    .ok (5 :: bytes)
  | .binary value => do
    let bytes ← encodeBytes value
    .ok (6 :: bytes)
  | .decimal128 value => .ok (7 :: toLeBytes 16 (BitVec.ofInt 128 value))
  | .intervalYearMonth months => .ok (8 :: toLeBytes 4 months.toBitVec)
  | .intervalDayTime days millis =>
    .ok (9 :: (toLeBytes 4 days.toBitVec ++ toLeBytes 4 millis.toBitVec))
  | .intervalMonthDayNano months days nanos =>
    .ok (10 :: (toLeBytes 4 months.toBitVec ++ toLeBytes 4 days.toBitVec ++
      toLeBytes 8 nanos.toBitVec))

/-- The cells of a group behind their number; `bits` says what is written for a float. -/
def encodeGroupAs (bits : F → UInt64) (values : List (CellValue F)) : Result (List UInt8) := do
  let count ← orFail (fits 32 values.length)
    (.resourceExhausted "DISTINCT group has too many columns")
  let cells ← values.mapM (encodeCellAs bits)
  .ok (bytes 4 count ++ cells.flatten)

/-- A cell, with floats normalised so that equal ones have equal bytes. -/
def encodeValue [FloatBits F] : CellValue F → Result (List UInt8) :=
  encodeCellAs normalizedFloat

/-- A group, with floats normalised. -/
def encodeGroup [FloatBits F] : List (CellValue F) → Result (List UInt8) :=
  encodeGroupAs normalizedFloat

/-! ## Reading -/

/-- A slice has fewer than `2 ^ 63` bytes. -/
structure Slice where
  bytes : List UInt8
  length_lt : bytes.length < 2 ^ 63

/-- `Cursor`: the bytes before its offset and the rest of the slice. -/
structure Cursor where
  before : List UInt8
  rest : List UInt8
  length_lt : before.length + rest.length < 2 ^ 63

/-- A function that moves a cursor. -/
abbrev Reader (α : Type) := StateT Cursor (Checked Error) α

section

variable {α : Type}

/-- The error of bytes that no encoder writes. -/
def corrupt (message : String) : Reader α :=
  fun _ => fail (.execution ("corrupt DISTINCT spill: " ++ message))

/-- The value, or the error of corrupt bytes. -/
def orCorrupt (o : Option α) (message : String) : Reader α :=
  match o with
  | some a => pure a
  | none => corrupt message

end

/-- The next bytes of the slice, as many as asked for. -/
def readExact (len : Nat) : Reader (List UInt8) := fun cursor =>
  if 2 ^ 64 ≤ cursor.before.length + len then corrupt "value length overflow" cursor
  else if cursor.rest.length < len then corrupt "truncated value" cursor
  else .ok (cursor.rest.take len, {
    before := cursor.before ++ cursor.rest.take len
    rest := cursor.rest.drop len
    length_lt := by
      have := cursor.length_lt
      simp only [List.length_append, List.length_take, List.length_drop]
      omega })

/-- The next byte. -/
def readU8 : Reader UInt8 := do
  let bytes ← readExact 1
  liftM (index (ε := Error) bytes 0)

/-- The next number of the given size. -/
def readNumber (size : Nat) : Reader (BitVec (8 * size)) := do
  let bytes ← readExact size
  if bytes.length = size then pure (fromLeBytes size bytes)
  else corrupt "truncated fixed-width value"

/-- The next text or binary value, whose length comes first. -/
def readBytes : Reader (List UInt8) := do
  let len ← readNumber 8
  readExact len.toNat

/-- A Boolean is the byte 0 or 1. -/
def booleanOf (byte : UInt8) : Option Bool :=
  if byte = 0 then some false else if byte = 1 then some true else none

/-- The next cell: its tag says which kind of value follows, and how its length is known.  A tag
that no kind has is corrupt. -/
def decodeCell [FloatBits F] : Reader (CellValue F) := do
  let tag ← readU8
  match tag.toNat with
  | 0 => pure .null
  | 1 => do
    let byte ← readU8
    let value ← orCorrupt (booleanOf byte) "invalid boolean value"
    pure (.boolean value)
  | 2 => do
    let value ← readNumber 8
    pure (.int64 (Int64.ofBitVec value))
  | 3 => do
    let value ← readNumber 8
    pure (.uint64 (UInt64.ofBitVec value))
  | 4 => do
    let bits ← readNumber 8
    pure (.float64 (fromBits (UInt64.ofBitVec bits)))
  | 5 => do
    let bytes ← readBytes
    let value ← orCorrupt (String.fromUTF8? ⟨bytes.toArray⟩) "invalid UTF-8 value"
    pure (.utf8 value)
  | 6 => do
    let bytes ← readBytes
    pure (.binary bytes)
  | 7 => do
    let value ← readNumber 16
    pure (.decimal128 value.toInt)
  | 8 => do
    let months ← readNumber 4
    pure (.intervalYearMonth (Int32.ofBitVec months))
  | 9 => do
    let days ← readNumber 4
    let millis ← readNumber 4
    pure (.intervalDayTime (Int32.ofBitVec days) (Int32.ofBitVec millis))
  | 10 => do
    let months ← readNumber 4
    let days ← readNumber 4
    let nanos ← readNumber 8
    pure (.intervalMonthDayNano (Int32.ofBitVec months) (Int32.ofBitVec days)
      (Int64.ofBitVec nanos))
  | tag => corrupt s!"unknown value tag {tag}"

/-- As many cells as asked for. -/
def decodeCells [FloatBits F] : Nat → Reader (List (CellValue F))
  | 0 => pure []
  | count + 1 => do
    let value ← decodeCell
    let values ← decodeCells count
    pure (value :: values)

/-- The check before a vector of `count` cells is allocated. -/
def reserve (count : Nat) : Reader Unit := fun cursor =>
  if cursor.rest.length < count then corrupt "group column count exceeds encoded bytes" cursor
  else .ok ((), cursor)

/-- The next group, with room made for its cells first. -/
def readGroup [FloatBits F] : Reader (List (CellValue F)) := do
  let count ← readNumber 4
  reserve count.toNat
  decodeCells count.toNat

/-- A reader on a whole slice, with `Cursor::finish`. -/
def decode {α : Type} (read : Reader α) (slice : Slice) : Result α := do
  let (value, cursor) ← read ⟨[], slice.bytes, by simpa using slice.length_lt⟩
  failIf (cursor.rest ≠ []) (.execution "corrupt DISTINCT spill: trailing bytes")
  .ok value

/-- A slice that is one group and nothing else. -/
def decodeGroup [FloatBits F] : Slice → Result (List (CellValue F)) := decode readGroup

/-- A slice that is one cell and nothing else. -/
def decodeValue [FloatBits F] : Slice → Result (CellValue F) := decode decodeCell

/-! ## Readers -/

/-- The cursor has moved over a piece of the slice. -/
def Moves (cursor cursor' : Cursor) (piece : List UInt8) : Prop :=
  cursor'.before = cursor.before ++ piece ∧ cursor.rest = piece ++ cursor'.rest

/-- A reader that never panics and accepts exactly the pieces that `W` relates to its values. -/
def Exact {α : Type} (read : Reader α) (W : α → List UInt8 → Prop) : Prop :=
  ∀ cursor, read cursor ≠ panic ∧
    ∀ a cursor', read cursor = .ok (a, cursor') ↔ ∃ piece, W a piece ∧ Moves cursor cursor' piece

theorem moves_append {cursor cursor' : Cursor} {p q : List UInt8} :
    Moves cursor cursor' (p ++ q) ↔ ∃ middle, Moves cursor middle p ∧ Moves middle cursor' q := by
  constructor
  · intro h
    have hlt := cursor.length_lt
    rw [h.2, append_assoc, length_append, ← Nat.add_assoc, ← length_append] at hlt
    refine ⟨⟨cursor.before ++ p, q ++ cursor'.rest, hlt⟩, ⟨rfl, ?_⟩, ?_, rfl⟩
    · rw [h.2, append_assoc]
    · rw [h.1, append_assoc]
  · rintro ⟨middle, h, h'⟩
    exact ⟨by rw [h'.1, h.1, append_assoc], by rw [h.2, h'.2, append_assoc]⟩

section Rules

variable {α β : Type} {read : Reader α} {W W' : α → List UInt8 → Prop}

theorem Exact.congr (h : Exact read W) (hW : ∀ a p, W a p ↔ W' a p) : Exact read W' := by
  intro cursor
  refine ⟨(h cursor).1, fun a cursor' => ?_⟩
  simp only [(h cursor).2, hW]

theorem Exact.bind {next : α → Reader β} {V : α → β → List UInt8 → Prop} (h : Exact read W)
    (hnext : ∀ a p, W a p → Exact (next a) (V a)) :
    Exact (read >>= next) fun b p => ∃ a p₁ p₂, W a p₁ ∧ V a b p₂ ∧ p₁ ++ p₂ = p := by
  intro cursor
  have hbind : (read >>= next) cursor = read cursor >>= fun s => next s.1 s.2 := rfl
  constructor
  · rw [hbind]
    cases hread : read cursor with
    | error e =>
      rintro ⟨⟩
      exact (h cursor).1 hread
    | ok s =>
      obtain ⟨p, hW, -⟩ := ((h cursor).2 s.1 s.2).mp hread
      exact (hnext s.1 p hW s.2).1
  · intro b cursor'
    rw [hbind, bind_eq_ok]
    constructor
    · rintro ⟨⟨a, middle⟩, ha, hb⟩
      obtain ⟨p₁, hW, h₁⟩ := ((h cursor).2 a middle).mp ha
      obtain ⟨p₂, hV, h₂⟩ := ((hnext a p₁ hW middle).2 b cursor').mp hb
      exact ⟨p₁ ++ p₂, ⟨a, p₁, p₂, hW, hV, rfl⟩, moves_append.mpr ⟨middle, h₁, h₂⟩⟩
    · rintro ⟨_, ⟨a, p₁, p₂, hW, hV, rfl⟩, hmoves⟩
      obtain ⟨middle, h₁, h₂⟩ := moves_append.mp hmoves
      exact ⟨(a, middle), ((h cursor).2 a middle).mpr ⟨p₁, hW, h₁⟩,
        ((hnext a p₁ hW middle).2 b cursor').mpr ⟨p₂, hV, h₂⟩⟩

theorem exact_pure (a : α) : Exact (pure a) fun b p => a = b ∧ [] = p := by
  intro cursor
  refine ⟨nofun, fun b cursor' => ?_⟩
  have hread : (pure a : Reader α) cursor = .ok (a, cursor) := rfl
  obtain ⟨before, rest, _⟩ := cursor
  obtain ⟨before', rest', _⟩ := cursor'
  simp [hread, Moves, eq_comm]

theorem Exact.map (h : Exact read W) (f : α → β) :
    Exact (read >>= fun a => pure (f a)) fun b p => ∃ a, W a p ∧ f a = b := by
  refine (h.bind fun a _ _ => exact_pure (f a)).congr fun b p => ?_
  simp

theorem exact_corrupt (message : String) :
    Exact (corrupt message : Reader α) fun _ _ => False :=
  fun _ => ⟨nofun, fun _ _ => iff_of_false nofun nofun⟩

theorem exact_orCorrupt (o : Option α) (message : String) :
    Exact (orCorrupt o message) fun a p => o = some a ∧ [] = p := by
  cases o with
  | none => exact (exact_corrupt message).congr fun _ _ => by simp
  | some a => exact (exact_pure a).congr fun _ _ => by simp

end Rules

theorem exact_readExact (len : Nat) :
    Exact (readExact len) fun bytes p => bytes = p ∧ bytes.length = len := by
  intro cursor
  have hlt := cursor.length_lt
  have hle {bytes : List UInt8} {cursor' : Cursor} (h : ∃ p, (bytes = p ∧ bytes.length = len) ∧
      Moves cursor cursor' p) : len ≤ cursor.rest.length := by
    obtain ⟨_, ⟨rfl, rfl⟩, hmoves⟩ := h
    rw [hmoves.2, length_append]
    omega
  unfold readExact
  split
  · exact ⟨nofun, fun _ _ => iff_of_false nofun fun h => by have := hle h; omega⟩
  split
  · exact ⟨nofun, fun _ _ => iff_of_false nofun fun h => by have := hle h; omega⟩
  · refine ⟨nofun, fun bytes cursor' => ?_⟩
    constructor
    · rintro ⟨⟩
      refine ⟨_, ⟨rfl, ?_⟩, rfl, (take_append_drop len _).symm⟩
      rw [length_take]
      omega
    · rintro ⟨_, ⟨rfl, rfl⟩, hbefore, hrest⟩
      obtain ⟨before', rest', _⟩ := cursor'
      simp only at hbefore hrest
      simp [hbefore, hrest]

variable {bytes : List UInt8} {bits : BitVec 64}

theorem toLeBytes_eq_iff {size : Nat} {number : BitVec (8 * size)} :
    toLeBytes size number = bytes ↔ bytes.length = size ∧ fromLeBytes size bytes = number := by
  have hpow : 256 ^ size = 2 ^ (8 * size) := by rw [Nat.pow_mul]
  constructor
  · rintro rfl
    refine ⟨length_bytes .., ?_⟩
    rw [fromLeBytes, toLeBytes, value_bytes_of_lt (hpow ▸ number.isLt),
      BitVec.ofNat_toNat, BitVec.setWidth_eq]
  · rintro ⟨rfl, rfl⟩
    have hlt := value_lt bytes
    rw [hpow] at hlt
    rw [toLeBytes, fromLeBytes, BitVec.toNat_ofNat, Nat.mod_eq_of_lt hlt, bytes_value]

theorem exact_readU8 : Exact readU8 fun byte p => [byte] = p := by
  refine ((exact_readExact 1).bind (V := fun bytes byte p => [byte] = bytes ∧ [] = p)
    fun bytes p h => ?_).congr fun byte p => ?_
  · obtain ⟨byte, rfl⟩ := length_eq_one_iff.mp h.2
    exact (exact_pure byte).congr fun _ _ => by simp [eq_comm]
  · simp

theorem exact_readNumber (size : Nat) :
    Exact (readNumber size) fun number p => toLeBytes size number = p := by
  refine ((exact_readExact size).bind (V := fun bytes number p =>
    fromLeBytes size bytes = number ∧ [] = p) fun bytes p h => ?_).congr fun number p => ?_
  · rw [if_pos h.2]
    exact exact_pure _
  · rw [toLeBytes_eq_iff]
    simp [and_comm]

/-- A number of elements, and the elements. -/
theorem exact_counted {α : Type} {size : Nat} {next : Nat → Reader (List α)}
    {V : List α → List UInt8 → Prop}
    (h : ∀ count, Exact (next count) fun l p => V l p ∧ l.length = count) :
    Exact (readNumber size >>= fun count => next count.toNat) fun l p =>
      l.length < 2 ^ (8 * size) ∧ ∃ q, V l q ∧ LittleEndian.bytes size l.length ++ q = p := by
  refine ((exact_readNumber size).bind fun count _ _ => h count.toNat).congr fun l p => ?_
  constructor
  · rintro ⟨count, _, q, rfl, ⟨hV, hcount⟩, rfl⟩
    exact ⟨hcount ▸ count.isLt, q, hV, by rw [toLeBytes, hcount]⟩
  · rintro ⟨hlt, q, hV, rfl⟩
    have hcount : l.length = (BitVec.ofNat (8 * size) l.length).toNat := by
      rw [BitVec.toNat_ofNat, Nat.mod_eq_of_lt hlt]
    exact ⟨BitVec.ofNat _ l.length, _, q, rfl, ⟨hV, hcount⟩, by rw [toLeBytes, ← hcount]⟩

theorem exact_readBytes : Exact readBytes fun bytes p => encodeBytes bytes = .ok p := by
  refine (exact_counted exact_readExact).congr fun bytes p => ?_
  simp [encodeBytes, bind_eq_ok, and_assoc]

/-! ## Cells -/

@[simp] theorem int32_eq_iff {bits : BitVec 32} {value : Int32} :
    Int32.ofBitVec bits = value ↔ bits = value.toBitVec := by
  constructor <;> rintro rfl <;> rfl

@[simp] theorem int64_eq_iff {value : Int64} :
    Int64.ofBitVec bits = value ↔ bits = value.toBitVec := by
  constructor <;> rintro rfl <;> rfl

@[simp] theorem uint64_eq_iff {value : UInt64} :
    UInt64.ofBitVec bits = value ↔ bits = value.toBitVec := by
  constructor <;> rintro rfl <;> rfl

theorem toInt_eq_iff {bits : BitVec 128} {value : Int} :
    bits.toInt = value ↔ bits = BitVec.ofInt 128 value ∧ CellValue.I128 value := by
  constructor
  · rintro rfl
    have hhigh := bits.toInt_lt
    exact ⟨BitVec.ofInt_toInt.symm, bits.le_toInt, by omega⟩
  · rintro ⟨rfl, hlow, hhigh⟩
    exact BitVec.toInt_ofInt_eq_self (by decide) hlow (by omega)

theorem booleanOf_eq_some {byte : UInt8} {value : Bool} :
    booleanOf byte = some value ↔ byte = if value then 1 else 0 := by
  unfold booleanOf
  split
  · cases value <;> simp_all
  · split <;> cases value <;> simp_all

theorem fromUTF8?_eq_some {value : String} :
    String.fromUTF8? ⟨bytes.toArray⟩ = some value ↔ bytes = value.toUTF8.data.toList := by
  unfold String.fromUTF8?
  constructor
  · intro h
    split at h
    · cases h
      rfl
    · cases h
  · rintro rfl
    exact dif_pos value.isValidUTF8

variable [FloatLayout F]

/-- The bytes of a cell, with the bits of a float as they are. -/
def Represents (cell : CellValue F) (p : List UInt8) : Prop :=
  cell.InRange ∧ encodeCellAs FloatLayout.toBits cell = .ok p

theorem Represents.tag_lt {cell : CellValue F} {p : List UInt8} (h : Represents cell p) :
    ∃ tag q, p = tag :: q ∧ tag.toNat < 11 := by
  have h := h.2
  cases cell <;> simp only [encodeCellAs, bind_eq_ok, ok.injEq] at h <;>
    first
    | exact ⟨_, _, h.symm, by decide⟩
    | (obtain ⟨_, -, rfl⟩ := h; exact ⟨_, _, rfl, by decide⟩)

theorem exact_decodeCell : Exact decodeCell (Represents (F := F)) := by
  refine (exact_readU8.bind (V := fun tag cell p => Represents cell (tag :: p))
    fun tag _ _ => ?_).congr fun cell p => ?_
  · obtain ⟨n, hn⟩ : ∃ n, n = tag.toNat := ⟨_, rfl⟩
    obtain rfl : tag = UInt8.ofNat n := by rw [hn, UInt8.ofNat_toNat]
    rw [← hn]
    split
    case h_12 =>
      refine (exact_corrupt _).congr fun cell p => iff_of_false id fun h => ?_
      obtain ⟨_, _, ⟨⟩, hlt⟩ := h.tag_lt
      rw [← hn] at hlt
      interval_cases n <;> contradiction
    -- one reader for each tag
    on_goal 1 => refine (exact_pure _).congr fun cell p => ?_
    on_goal 2 =>
      refine (exact_readU8.bind fun _ _ _ => (exact_orCorrupt _ _).map _).congr fun cell p => ?_
    on_goal 3 => refine ((exact_readNumber 8).map _).congr fun cell p => ?_
    on_goal 4 => refine ((exact_readNumber 8).map _).congr fun cell p => ?_
    on_goal 5 => refine ((exact_readNumber 8).map _).congr fun cell p => ?_
    on_goal 6 =>
      refine (exact_readBytes.bind fun _ _ _ => (exact_orCorrupt _ _).map _).congr fun cell p => ?_
    on_goal 7 => refine (exact_readBytes.map _).congr fun cell p => ?_
    on_goal 8 => refine ((exact_readNumber 16).map _).congr fun cell p => ?_
    on_goal 9 => refine ((exact_readNumber 4).map _).congr fun cell p => ?_
    on_goal 10 =>
      refine ((exact_readNumber 4).bind fun _ _ _ => (exact_readNumber 4).map _).congr
        fun cell p => ?_
    on_goal 11 =>
      refine ((exact_readNumber 4).bind fun _ _ _ => (exact_readNumber 4).bind fun _ _ _ =>
        (exact_readNumber 8).map _).congr fun cell p => ?_
    all_goals
      cases cell <;> simp [Represents, encodeCellAs, CellValue.InRange, bind_eq_ok, toInt_eq_iff,
        booleanOf_eq_some, fromUTF8?_eq_some, FloatLayout.fromBits_eq_iff, and_comm]
  · constructor
    · rintro ⟨tag, _, p, rfl, h, rfl⟩
      exact h
    · intro h
      obtain ⟨tag, p, rfl, -⟩ := h.tag_lt
      exact ⟨tag, [tag], p, rfl, h, rfl⟩

/-! ## Groups -/

theorem exact_decodeCells (count : Nat) :
    Exact (decodeCells count) fun (cells : List (CellValue F)) p =>
      (∃ pieces, List.Forall₂ Represents cells pieces ∧ pieces.flatten = p) ∧
        cells.length = count := by
  induction count with
  | zero =>
    refine (exact_pure _).congr fun cells p => ?_
    cases cells <;> simp
  | succ count ih =>
    refine (exact_decodeCell.bind fun cell _ _ => ih.map _).congr fun cells p => ?_
    cases cells with
    | nil => simp
    | cons cell cells =>
      constructor
      · rintro ⟨_, piece, _, hcell, ⟨_, ⟨⟨pieces, hcells, rfl⟩, rfl⟩, heq⟩, rfl⟩
        cases heq
        exact ⟨⟨piece :: pieces, .cons hcell hcells, rfl⟩, rfl⟩
      · rintro ⟨⟨_, hcells, rfl⟩, hlength⟩
        cases hcells with
        | cons hcell hcells =>
          exact ⟨cell, _, _, hcell, ⟨cells, ⟨⟨_, hcells, rfl⟩, Nat.succ.inj hlength⟩, rfl⟩, rfl⟩

/-- Every cell has a tag, so that there are not more cells than bytes. -/
theorem length_le_of_represents {cells : List (CellValue F)} {pieces : List (List UInt8)}
    (h : List.Forall₂ Represents cells pieces) : cells.length ≤ pieces.flatten.length := by
  induction h with
  | nil => exact Nat.zero_le _
  | cons hcell _ ih =>
    obtain ⟨tag, p, rfl, -⟩ := hcell.tag_lt
    simp only [flatten_cons, length_append, length_cons]
    omega

theorem exact_readGroup : Exact readGroup fun (cells : List (CellValue F)) p =>
    (∀ cell ∈ cells, cell.InRange) ∧ encodeGroupAs FloatLayout.toBits cells = .ok p := by
  have hcells (count : Nat) : Exact (reserve count >>= fun _ => decodeCells (F := F) count)
      fun cells p => (∃ pieces, List.Forall₂ Represents cells pieces ∧ pieces.flatten = p) ∧
        cells.length = count := by
    intro cursor
    have hread : (reserve count >>= fun _ => decodeCells (F := F) count) cursor =
        if cursor.rest.length < count then
          corrupt "group column count exceeds encoded bytes" cursor
        else decodeCells count cursor := by
      show reserve count cursor >>= _ = _
      unfold reserve
      split <;> rfl
    rw [hread]
    split
    · rename_i hlt
      refine ⟨nofun, fun cells cursor' => iff_of_false nofun ?_⟩
      rintro ⟨_, ⟨⟨pieces, hpieces, rfl⟩, rfl⟩, hmoves⟩
      have hle := length_le_of_represents hpieces
      rw [hmoves.2, length_append] at hlt
      omega
    · exact exact_decodeCells count cursor
  refine (exact_counted hcells).congr fun cells p => ?_
  have hsplit : ∀ pieces, List.Forall₂ Represents cells pieces ↔ (∀ cell ∈ cells, cell.InRange) ∧
      List.Forall₂ (fun cell p => encodeCellAs FloatLayout.toBits cell = .ok p) cells pieces :=
    fun _ => forall₂_and_left _ _
  simp only [encodeGroupAs, bind_eq_ok, orFail_eq_ok, fits_eq_some, mapM_eq_ok, hsplit,
    ok.injEq]
  constructor
  · rintro ⟨hlt, _, ⟨pieces, ⟨hrange, hpieces⟩, rfl⟩, rfl⟩
    exact ⟨hrange, _, ⟨hlt, rfl⟩, pieces, hpieces, rfl⟩
  · rintro ⟨hrange, _, ⟨hlt, rfl⟩, pieces, hpieces, rfl⟩
    exact ⟨hlt, _, ⟨pieces, ⟨hrange, hpieces⟩, rfl⟩, rfl⟩

/-! ## The codec -/

/-- A value is read back from its bytes, accepted bytes are those of the value that is read
exactly when it is canonical, and no two slices are read alike. -/
structure Codec {α : Type} (encode : α → Result (List UInt8)) (decode : Slice → Result α)
    (plain canonical : α → Prop) : Prop where
  decode_encode : ∀ a slice, plain a → encode a = .ok slice.bytes → decode slice = .ok a
  encode_decode : ∀ a slice, decode slice = .ok a → (encode a = .ok slice.bytes ↔ canonical a)
  injective : ∀ a slice slice', decode slice = .ok a → decode slice' = .ok a →
    slice.bytes = slice'.bytes
  ne_panic : ∀ slice, decode slice ≠ panic

section

variable {α : Type} {read : Reader α} {W : α → List UInt8 → Prop}

theorem decode_eq_ok (h : Exact read W) {slice : Slice} {a : α} :
    decode read slice = .ok a ↔ W a slice.bytes := by
  unfold decode
  simp only [bind_eq_ok, failIf_eq_ok, not_not, ok.injEq, exists_const]
  constructor
  · rintro ⟨⟨_, cursor⟩, hread, hrest, rfl⟩
    obtain ⟨p, hW, -, hmoves⟩ := ((h _).2 _ _).mp hread
    have hbytes : slice.bytes = p := by simpa [show cursor.rest = [] from hrest] using hmoves
    exact hbytes ▸ hW
  · intro hW
    exact ⟨(a, ⟨slice.bytes, [], slice.length_lt⟩), ((h _).2 _ _).mpr
      ⟨slice.bytes, hW, rfl, (append_nil _).symm⟩, rfl, rfl⟩

theorem decode_ne_panic (h : Exact read W) (slice : Slice) : decode read slice ≠ panic := by
  unfold decode
  cases hread : read ⟨[], slice.bytes, by simpa using slice.length_lt⟩ with
  | error e =>
    rintro ⟨⟩
    exact (h _).1 hread
  | ok s =>
    show failIf _ _ >>= _ ≠ _
    unfold failIf
    split <;> nofun

/-- A codec whose writer normalizes what its reader accepts as it is. -/
theorem Exact.codec {valid plain : α → Prop} {write encode : α → Result (List UInt8)}
    {normalize : α → α} (h : Exact read fun a p => valid a ∧ write a = .ok p)
    (hencode : ∀ a, encode a = write (normalize a)) (hvalid : ∀ a, valid a → valid (normalize a))
    (hplain : ∀ a, plain a → valid a ∧ normalize a = a) :
    Codec encode (decode read) plain (fun a => normalize a = a) where
  decode_encode a slice ha hbytes := by
    rw [hencode, (hplain a ha).2] at hbytes
    exact (decode_eq_ok h).mpr ⟨(hplain a ha).1, hbytes⟩
  encode_decode a slice hread := by
    obtain ⟨hrange, hbytes⟩ := (decode_eq_ok h).mp hread
    rw [hencode]
    constructor
    · intro hnormalized
      have hagain := (decode_eq_ok h).mpr ⟨hvalid a hrange, hnormalized⟩
      exact ok.inj (hagain.symm.trans hread)
    · intro hcanonical
      rw [hcanonical, hbytes]
  injective a slice slice' hread hread' := by
    have hbytes := ((decode_eq_ok h).mp hread).2
    rw [((decode_eq_ok h).mp hread').2] at hbytes
    exact (ok.inj hbytes).symm
  ne_panic := decode_ne_panic h

end

/-- The cell that encoding writes: a float has one pattern of bits for both zeros, and one for
all that is not a number. -/
def normalize : CellValue F → CellValue F
  | .float64 value => .float64 (fromBits (normalizedFloat value))
  | cell => cell

theorem encodeValue_eq (cell : CellValue F) :
    encodeValue cell = encodeCellAs FloatLayout.toBits (normalize cell) := by
  cases cell with
  | float64 value =>
    simp [encodeValue, normalize, encodeCellAs, ← (FloatLayout.fromBits_eq_iff _ _).mp rfl]
  | _ => rfl

theorem inRange_normalize (cell : CellValue F) (h : cell.InRange) : (normalize cell).InRange := by
  cases cell <;> exact h

theorem encodeGroup_eq (cells : List (CellValue F)) :
    encodeGroup cells = encodeGroupAs FloatLayout.toBits (cells.map normalize) := by
  have hcells : encodeCellAs normalizedFloat =
      encodeCellAs FloatLayout.toBits ∘ normalize (F := F) := funext encodeValue_eq
  simp [encodeGroup, encodeGroupAs, hcells, List.mapM_map]

/-- A cell that is not a float, with a value of its type. -/
def Plain (cell : CellValue F) : Prop := cell.InRange ∧ cell.kind ≠ .float64

/-- Groups and values of cells that are not floats are read back from their bytes.  Bytes that
are accepted are those of what is read exactly when the bits of its floats are normalized.  No
slice makes decoding panic, all that is read lies in the slice, and a vector is allocated for at
most as many cells as there are bytes left. -/
theorem distinct_codec_is_exact :
    Codec encodeGroup (decodeGroup (F := F)) (fun cells => ∀ cell ∈ cells, Plain cell)
      (fun cells => cells.map normalize = cells) ∧
    Codec encodeValue (decodeValue (F := F)) Plain (fun cell => normalize cell = cell) ∧
    (∀ len cursor bytes cursor', readExact len cursor = .ok (bytes, cursor') →
      bytes.length = len ∧ cursor.rest = bytes ++ cursor'.rest) ∧
    ∀ count cursor cursor', reserve count cursor = .ok ((), cursor') →
      count ≤ cursor'.rest.length := by
  have hplain : ∀ cell : CellValue F, Plain cell → cell.InRange ∧ normalize cell = cell := by
    intro cell h
    refine ⟨h.1, ?_⟩
    cases cell <;> first | rfl | exact absurd rfl h.2
  refine ⟨exact_readGroup.codec encodeGroup_eq ?_ ?_,
    exact_decodeCell.codec encodeValue_eq inRange_normalize hplain, ?_, ?_⟩
  · exact fun cells h => forall_mem_map.mpr fun cell hcell => inRange_normalize cell (h cell hcell)
  · intro cells h
    refine ⟨fun cell hcell => (h cell hcell).1, ?_⟩
    exact (map_congr_left fun cell hcell => (hplain cell (h cell hcell)).2).trans (map_id cells)
  · intro len cursor bytes cursor' h
    obtain ⟨_, ⟨rfl, hlen⟩, hmoves⟩ := ((exact_readExact len cursor).2 _ _).mp h
    exact ⟨hlen, hmoves.2⟩
  · intro count cursor cursor' h
    unfold reserve at h
    split at h
    · cases h
    · cases h
      omega

/-- The bits of an `f64` in place of the float. -/
instance : FloatLayout UInt64 where
  normalizedFloat bits :=
    if bits &&& 0x7fffffffffffffff = 0 then 0
    else if 0x7ff0000000000000 < bits &&& 0x7fffffffffffffff then 0x7ff8000000000000
    else bits
  fromBits := id
  toBits := id
  fromBits_eq_iff _ _ := Iff.rfl

/-- Negative zero is accepted, but written as zero. -/
theorem negative_zero_is_read_but_not_written :
    decodeValue (F := UInt64) ⟨[4, 0, 0, 0, 0, 0, 0, 0, 128], by decide⟩ =
      .ok (.float64 0x8000000000000000) ∧
    encodeValue (.float64 (0x8000000000000000 : UInt64)) = .ok [4, 0, 0, 0, 0, 0, 0, 0, 0] := by
  decide +kernel

end RustDb.Execution.Distinct
