import RustDb.Sidecar.Format

/-!
# Bit-packed values

The ids and the deltas of a block are packed with a fixed number of bits each, from
the lowest bit of the first byte on.

* `pack` writes the values through a buffer, and `PackedValues` reads them through one.
* `Packed bytes count width`: the bytes hold `count` values and nothing else.
* `PackedValues.forEach_start`: a loop over the reader is a loop over the fields of the
  number that the bytes stand for.
* `pack_unpack`: packing and reading are inverse to each other.
-/

namespace RustDb.Sidecar

open RustDb.Lib RustDb.Lib.Checked RustDb.Lib.LittleEndian List

/-- The number of bits of a value. -/
def bitWidth (value : Nat) : Nat :=
  if value = 0 then 0 else value.log2 + 1

/-- The bytes of this many values of some bits. -/
def packedLen (valueCount width : Nat) : Result Nat := do
  corruptIf (64 < width) s!"invalid bit width {width}"
  let bits ← orTooLarge 64 (valueCount * width)
  let bits ← orTooLarge 64 (bits + 7)
  pure (bits / 8)

/-! ## Packing -/

/-- The bytes that are complete, and the bits that wait for a whole byte. -/
structure PackState where
  output : List UInt8
  buffer : Nat
  buffered : Nat
deriving DecidableEq, Repr

/-- `while buffered >= 8`: moves whole bytes from the buffer to the output. -/
def PackState.flush : Nat → PackState → PackState
  | 0, state => state
  | fuel + 1, state =>
    if 8 ≤ state.buffered then
      flush fuel {
        output := state.output ++ [UInt8.ofNat state.buffer]
        buffer := state.buffer >>> 8
        buffered := state.buffered - 8 }
    else state

/-- One turn of the loop of `pack`. -/
def packValue (width : Nat) (state : PackState) (value : Nat) : Result PackState := do
  corruptIf (width < 64 ∧ 1 <<< width ≤ value) s!"value {value} does not fit in {width} bits"
  let shifted ← shiftLeft 128 value state.buffered
  let buffered ← orTooLarge 8 (state.buffered + width)
  -- every turn of the inner loop takes eight of the buffered bits
  pure (PackState.flush buffered { state with buffer := state.buffer ||| shifted, buffered })

/-- The values in the given number of bits each, the low bits first. -/
def pack (values : List Nat) (width : Nat) : Result (List UInt8) := do
  let _capacity ← packedLen values.length width
  let state ← values.foldlM (packValue width) { output := [], buffer := 0, buffered := 0 }
  pure (if state.buffered = 0 then state.output
    else state.output ++ [UInt8.ofNat state.buffer])

/-! ## Reading packed values -/

/-- The iterator `PackedValues`. -/
structure PackedValues where
  bytes : List UInt8
  remaining : Nat
  width : Nat
  byteOffset : Nat
  buffer : Nat
  buffered : Nat
  mask : Nat
deriving DecidableEq, Repr

namespace PackedValues

/-- The reader before its first value. -/
def start (bytes : List UInt8) (valueCount width : Nat) : PackedValues where
  bytes := bytes
  remaining := valueCount
  width := width
  byteOffset := 0
  buffer := 0
  buffered := 0
  mask := if width = 0 then 0 else if width = 64 then 2 ^ 64 - 1 else 1 <<< width - 1

/-- A reader of packed values, whose length must be exact. -/
def new (bytes : List UInt8) (valueCount width : Nat) : Result PackedValues := do
  let expected ← packedLen valueCount width
  corruptIf (bytes.length ≠ expected)
    ("packed payload has " ++ toString bytes.length ++ s!" bytes, expected {expected}")
  let bits ← orTooLarge 64 (valueCount * width)
  checkPadding bytes (bits % 8) "non-zero bit-packed padding"
  pure (start bytes valueCount width)

/-- `while self.buffered < self.width`: moves bytes to the buffer. -/
def fill : Nat → PackedValues → Result PackedValues
  | 0, it => .ok it
  | fuel + 1, it =>
    if it.buffered < it.width then do
      let byte ← index it.bytes it.byteOffset
      let shifted ← shiftLeft 128 byte.toNat it.buffered
      let byteOffset ← add 64 it.byteOffset 1
      let buffered ← add 8 it.buffered 8
      fill fuel { it with buffer := it.buffer ||| shifted, byteOffset, buffered }
    else .ok it

/-- The next value, with the bytes that it needs moved to the buffer. -/
def next (it : PackedValues) : Result (Option (Nat × PackedValues)) :=
  if it.remaining = 0 then .ok none
  else do
    -- every turn of the inner loop adds eight bits
    let it ← fill it.width it
    let value := (it.buffer &&& it.mask) % 2 ^ 64
    let buffer ← shiftRight 128 it.buffer it.width
    let buffered ← sub it.buffered it.width
    let remaining ← sub it.remaining 1
    pure (some (value, { it with buffer, buffered, remaining }))

/-- `for (row, value) in it.enumerate()`, with the rows counted from `row` on.  The
iterator ends after `remaining` values, which is the fuel that the loop starts with. -/
def forEachFrom {σ : Type} (body : Nat → Nat → σ → Result σ) :
    Nat → Nat → PackedValues → σ → Result σ
  | 0, _, _, state => .ok state
  | fuel + 1, row, it, state => do
    match ← it.next with
    | none => .ok state
    | some (value, it) =>
      let state ← body row value state
      forEachFrom body fuel (row + 1) it state

/-- The body on every value, with its place. -/
def forEach {σ : Type} (it : PackedValues) (body : Nat → Nat → σ → Result σ) (state : σ) :
    Result σ :=
  forEachFrom body it.remaining 0 it state

end PackedValues

/-- All packed values. -/
def unpack (bytes : List UInt8) (valueCount width : Nat) : Result (List Nat) := do
  let it ← PackedValues.new bytes valueCount width
  it.forEach (fun _ value values => .ok (values ++ [value])) []

/-! ## Bit widths -/

/-- The bytes hold `count` values of `width` bits, and no further bit is set. -/
@[mk_iff] structure Packed (bytes : List UInt8) (count width : Nat) : Prop where
  width_le : width ≤ 64
  bits_lt : count * width + 7 < 2 ^ 64
  length_eq : bytes.length = (count * width + 7) / 8
  value_lt : value bytes < 2 ^ (count * width)

instance (bytes : List UInt8) (count width : Nat) : Decidable (Packed bytes count width) :=
  decidable_of_iff' _ (packed_iff bytes count width)

theorem packedLen_matches (count width : Nat) :
    Matches (packedLen count width)
      (if width ≤ 64 ∧ count * width + 7 < 2 ^ 64 then some ((count * width + 7) / 8)
        else none) := by
  unfold packedLen
  refine Matches.guarded_failIf (fun hd => not_lt.mpr hd.1) fun hwidth => ?_
  refine (orTooLarge_matches 64 _).guarded_bind (fun hd => by omega) fun _ => ?_
  refine (orTooLarge_matches 64 _).guarded_bind (fun hd => hd.2) fun hbits => ?_
  exact .guarded ⟨not_lt.mp hwidth, hbits⟩ .ok

/-! ## The reader -/

namespace PackedValues

/-- The bits that the reader has not handed out, as one number. -/
def number (it : PackedValues) : Nat :=
  it.buffer + 2 ^ it.buffered * value (it.bytes.drop it.byteOffset)

/-- The reader between two calls. -/
structure Sound (it : PackedValues) : Prop where
  width_le : it.width ≤ 64
  length_lt : it.bytes.length < 2 ^ 64
  mask_eq : it.mask = 2 ^ it.width - 1
  buffer_lt : it.buffer < 2 ^ it.buffered
  buffered_lt : it.buffered < it.width + 8
  enough : it.remaining * it.width ≤
    it.buffered + 8 * (it.bytes.length - it.byteOffset)

variable {it : PackedValues}

/-- A byte moves to the buffer, and the number stays the same. -/
theorem fill_eq (fuel : Nat) (h : it.Sound) (hpos : 0 < it.remaining)
    (hfuel : it.width ≤ it.buffered + 8 * fuel) :
    ∃ it', fill fuel it = .ok it' ∧ it'.Sound ∧ it'.number = it.number ∧
      it'.width = it.width ∧ it'.remaining = it.remaining ∧ it'.width ≤ it'.buffered := by
  induction fuel generalizing it with
  | zero => exact ⟨it, rfl, h, rfl, rfl, rfl, by omega⟩
  | succ fuel ih =>
    unfold fill
    split_ifs with hlow
    · have hwidth := h.width_le
      have hlength := h.length_lt
      have hmore : it.width ≤ it.remaining * it.width := Nat.le_mul_of_pos_left _ hpos
      have henough := h.enough
      have hoffset : it.byteOffset < it.bytes.length := by omega
      have hdrop := drop_eq_getElem_cons hoffset
      generalize hbyte : it.bytes[it.byteOffset] = byte at hdrop
      have hget : it.bytes[it.byteOffset]? = some byte := by
        rw [getElem?_eq_getElem hoffset, hbyte]
      have hsmall : byte.toNat < 2 ^ 8 := byte.toNat_lt
      have hbuffer := h.buffer_lt
      rw [index_eq hget, ok_bind, shiftLeft_eq (by omega), ok_bind, add_eq (by omega), ok_bind,
        add_eq (by omega), ok_bind, shiftLeft_mod hsmall (by omega), lor_shiftLeft _ hbuffer]
      have hnext : Sound { it with
          buffer := it.buffer + 2 ^ it.buffered * byte.toNat
          byteOffset := it.byteOffset + 1
          buffered := it.buffered + 8 } := {
        width_le := hwidth
        length_lt := hlength
        mask_eq := h.mask_eq
        buffer_lt := add_pow_mul_lt hbuffer hsmall
        buffered_lt := Nat.add_lt_add_right hlow 8
        enough := by
          dsimp only
          omega }
      obtain ⟨it', hfill, hsound, hnumber, hrest⟩ := ih hnext hpos (by dsimp only; omega)
      refine ⟨it', hfill, hsound, hnumber.trans ?_, hrest⟩
      unfold number
      dsimp only
      rw [hdrop, value_cons, Nat.pow_add]
      ring
    · exact ⟨it, rfl, h, rfl, rfl, rfl, by omega⟩

variable {n : Nat}

/-- `next` hands out the lowest field of the number. -/
theorem next_eq (h : it.Sound) (hn : it.remaining = n + 1) :
    ∃ it', it.next = .ok (some (it.number % 2 ^ it.width, it')) ∧ it'.Sound ∧
      it'.number = it.number / 2 ^ it.width ∧ it'.width = it.width ∧ it'.remaining = n := by
  obtain ⟨full, hfill, hsound, hnumber, hwidth, hremaining, hfull⟩ :=
    fill_eq it.width h (by omega) (by omega)
  have hle := hsound.width_le
  have hbuffered := hsound.buffered_lt
  have hbuffer := hsound.buffer_lt
  have henough := hsound.enough
  obtain ⟨high, hhigh⟩ : ∃ high, full.buffered = full.width + high :=
    ⟨full.buffered - full.width, by omega⟩
  -- the number in terms of the lowest field
  have hsplit : full.number = full.buffer +
      2 ^ full.width * (2 ^ high * value (full.bytes.drop full.byteOffset)) := by
    rw [number, hhigh, Nat.pow_add, Nat.mul_assoc]
  have hvalue : (full.buffer &&& full.mask) % 2 ^ 64 = it.number % 2 ^ it.width := by
    rw [hsound.mask_eq, Nat.and_two_pow_sub_one_eq_mod, ← hnumber, ← hwidth, hsplit,
      Nat.add_mul_mod_self_left]
    refine Nat.mod_eq_of_lt (Nat.lt_of_lt_of_le (Nat.mod_lt _ (Nat.two_pow_pos _)) ?_)
    exact Nat.pow_le_pow_right (by decide) hle
  unfold next
  rw [if_neg (by omega), hfill, ok_bind, shiftRight_eq (by omega), ok_bind, sub_eq hfull,
    ok_bind, sub_eq (by omega), ok_bind, hvalue]
  refine ⟨_, rfl, ?_, ?_, hwidth, ?_⟩
  · exact {
      width_le := hle
      length_lt := hsound.length_lt
      mask_eq := hsound.mask_eq
      buffer_lt := by
        dsimp only
        rw [Nat.shiftRight_eq_div_pow]
        refine Nat.div_lt_of_lt_mul ?_
        rw [← Nat.pow_add, Nat.add_sub_cancel' hfull]
        exact hbuffer
      buffered_lt := by
        dsimp only
        omega
      enough := by
        dsimp only
        rw [hremaining, hn, Nat.succ_mul] at henough
        rw [hremaining, hn, Nat.add_sub_cancel]
        omega }
  · rw [← hnumber, ← hwidth, hsplit, Nat.add_mul_div_left _ _ (Nat.two_pow_pos _), number]
    dsimp only
    rw [Nat.shiftRight_eq_div_pow, hhigh, Nat.add_sub_cancel_left]
  · dsimp only
    omega

variable {σ : Type}

theorem forEachFrom_eq {body : Nat → Nat → σ → Result σ} (h : it.Sound) (hn : it.remaining = n)
    (row : Nat) (state : σ) :
    forEachFrom body n row it state =
      ((fields it.width n it.number).zipIdx row).foldlM
        (fun state p => body p.2 p.1 state) state := by
  induction n generalizing it row state with
  | zero => rfl
  | succ n ih =>
    obtain ⟨it', hnext, hsound, hnumber, hwidth, hremaining⟩ := next_eq h hn
    rw [forEachFrom, hnext, ok_bind]
    show (body row _ state >>= fun state => forEachFrom body n (row + 1) it' state) = _
    rw [fields, zipIdx_cons, foldlM_cons]
    congr 1
    funext state
    rw [ih hsound hremaining, hwidth, hnumber]

variable {bytes : List UInt8} {count width : Nat}

theorem start_sound (h : Packed bytes count width) :
    (start bytes count width).Sound where
  width_le := h.width_le
  length_lt := by
    have := h.bits_lt
    have := h.length_eq
    show bytes.length < 2 ^ 64
    omega
  mask_eq := by
    unfold start
    dsimp only
    split
    · rename_i h0
      rw [h0, Nat.pow_zero]
    · split
      · rename_i h64
        rw [h64]
      · rw [Nat.one_shiftLeft]
  buffer_lt := Nat.two_pow_pos _
  buffered_lt := Nat.add_pos_right width (by decide)
  enough := by
    have := h.length_eq
    show count * width ≤ 0 + 8 * (bytes.length - 0)
    omega

theorem number_start (bytes : List UInt8) (count width : Nat) :
    (start bytes count width).number = value bytes := by
  unfold number start
  dsimp only
  rw [Nat.pow_zero, Nat.one_mul, zero_add, drop_zero]

theorem new_matches (bytes : List UInt8) (count width : Nat) :
    Matches (new bytes count width)
      (if Packed bytes count width then some (start bytes count width) else none) := by
  unfold new
  refine (packedLen_matches count width).guarded_bind (fun hd => ⟨hd.width_le, hd.bits_lt⟩)
    fun ⟨hwidth, hbits⟩ => ?_
  refine Matches.guarded_failIf (fun hd => not_not.mpr hd.length_eq) fun hlength => ?_
  have hlength := not_not.mp hlength
  rw [orTooLarge_eq (by omega), ok_bind]
  refine (checkPadding_matches _ hlength).guarded_bind (fun hd => hd.value_lt) fun hlt => ?_
  exact .guarded ⟨hwidth, hbits, hlength, hlt⟩ .ok

/-- A loop over a new reader is a loop over the fields of the bytes. -/
theorem forEach_start (h : Packed bytes count width) (body : Nat → Nat → σ → Result σ) (state : σ) :
    (start bytes count width).forEach body state =
      (fields width count (value bytes)).zipIdx.foldlM
        (fun state p => body p.2 p.1 state) state := by
  rw [forEach, forEachFrom_eq (start_sound h) rfl, number_start]
  rfl

end PackedValues

theorem unpack_matches (bytes : List UInt8) (count width : Nat) :
    Matches (unpack bytes count width)
      (if Packed bytes count width then some (fields width count (value bytes))
        else none) := by
  have hpush : ∀ (l : List (Nat × Nat)) (values : List Nat),
      l.foldlM (fun values p => (.ok (values ++ [p.1]) : Result (List Nat))) values =
        .ok (values ++ l.map Prod.fst) := by
    intro l
    induction l with
    | nil =>
      intro values
      rw [map_nil, append_nil]
      rfl
    | cons p l ih =>
      intro values
      rw [foldlM_cons, ok_bind, ih, map_cons, append_assoc]
      rfl
  unfold unpack
  refine (PackedValues.new_matches ..).guarded_bind id fun hpacked => .guarded hpacked ?_
  rw [PackedValues.forEach_start hpacked, hpush, zipIdx_map_fst, nil_append]
  exact .ok

/-! ## The writer -/

/-- The bits of the values written so far, in the output and in the buffer. -/
structure PackState.Holds (state : PackState) (width : Nat) (values : List Nat) : Prop where
  fit : ∀ v ∈ values, v < 2 ^ width
  bits_eq : 8 * state.output.length + state.buffered = width * values.length
  value_eq : value state.output + 2 ^ (8 * state.output.length) * state.buffer =
    joined width values
  buffer_lt : state.buffer < 2 ^ state.buffered

variable {width : Nat} {values : List Nat} {state : PackState}

/-- Moving bytes to the output changes nothing that the state holds. -/
theorem PackState.Holds.flush {fuel : Nat} (h : state.Holds width values)
    (hfuel : state.buffered < 8 * fuel + 8) :
    (state.flush fuel).Holds width values ∧ (state.flush fuel).buffered < 8 := by
  induction fuel generalizing state with
  | zero => exact ⟨h, hfuel⟩
  | succ fuel ih =>
    unfold PackState.flush
    split
    · rename_i hbyte
      obtain ⟨hfit, hbits, hvalue, hbuffer⟩ := h
      have hpow : (256 : Nat) ^ state.output.length = 2 ^ (8 * state.output.length) := by
        rw [Nat.pow_mul]
      refine ih ⟨hfit, ?_, ?_, ?_⟩ ?_
      · dsimp only
        rw [length_append, length_singleton, ← hbits]
        omega
      · dsimp only
        rw [← hvalue, value_append, value_cons, value_nil, UInt8.toNat_ofNat', hpow,
          length_append, length_singleton, Nat.shiftRight_eq_div_pow, Nat.mul_succ,
          Nat.pow_add, mul_zero, add_zero, mul_assoc, add_assoc, ← mul_add,
          Nat.mod_add_div]
      · dsimp only
        rw [Nat.shiftRight_eq_div_pow]
        refine Nat.div_lt_of_lt_mul ?_
        rw [← Nat.pow_add, Nat.add_sub_cancel' hbyte]
        exact hbuffer
      · dsimp only
        omega
    · exact ⟨h, by omega⟩

variable {v : Nat}

/-- One turn of the loop appends a value that fits. -/
theorem packValue_holds (h : state.Holds width values) (hbuffered : state.buffered < 8)
    (hwidth : width ≤ 64) (hfits : v < 2 ^ width) :
    ∃ state', packValue width state v = .ok state' ∧ state'.Holds width (values ++ [v]) ∧
      state'.buffered < 8 := by
  obtain ⟨hfit, hbits, hvalue, hbuffer⟩ := h
  have hcheck : ¬ (width < 64 ∧ 1 <<< width ≤ v) := by
    rw [Nat.one_shiftLeft]
    omega
  unfold packValue corruptIf
  rw [failIf_eq hcheck, ok_bind, shiftLeft_eq (by omega), ok_bind, shiftLeft_mod hfits (by omega),
    lor_shiftLeft _ hbuffer, orTooLarge_eq (by omega), ok_bind]
  refine ⟨_, rfl, PackState.Holds.flush ⟨?_, ?_, ?_, ?_⟩ (by dsimp only; omega)⟩
  · intro x hx
    rcases mem_append.mp hx with hx | hx
    · exact hfit x hx
    · rw [mem_singleton.mp hx]
      exact hfits
  · dsimp only
    rw [length_append, length_singleton, Nat.mul_succ, ← hbits, Nat.add_assoc]
  · rw [joined_append, joined_cons, joined_nil, mul_zero, add_zero, ← hvalue, ← hbits,
      Nat.pow_add]
    ring
  · exact add_pow_mul_lt hbuffer hfits

/-- The loop of `pack` appends all values. -/
theorem foldlM_packValue_holds (hwidth : width ≤ 64) (done : List Nat)
    (h : state.Holds width done) (hbuffered : state.buffered < 8)
    (hvalues : ∀ v ∈ values, v < 2 ^ width) :
    ∃ state', values.foldlM (packValue width) state = .ok state' ∧
      state'.Holds width (done ++ values) ∧ state'.buffered < 8 := by
  induction values generalizing state done with
  | nil =>
    rw [append_nil]
    exact ⟨state, rfl, h, hbuffered⟩
  | cons v values ih =>
    rw [forall_mem_cons] at hvalues
    obtain ⟨next, hnext, hholds, hlow⟩ := packValue_holds h hbuffered hwidth hvalues.1
    rw [foldlM_cons, hnext, ok_bind, append_cons]
    exact ih (done ++ [v]) hholds hlow hvalues.2

/-- The packed bytes stand for the joined values. -/
theorem pack_eq (hwidth : width ≤ 64) (hbits : values.length * width + 7 < 2 ^ 64)
    (hvalues : ∀ v ∈ values, v < 2 ^ width) :
    pack values width = .ok (bytes ((values.length * width + 7) / 8) (joined width values)) := by
  have hstart : PackState.Holds ⟨[], 0, 0⟩ width [] :=
    ⟨fun _ h => (not_mem_nil h).elim, rfl, rfl, one_pos⟩
  obtain ⟨state, hstate, ⟨-, hlength, hvalue, hbuffer⟩, hbuffered⟩ :=
    foldlM_packValue_holds hwidth [] hstart (by decide) hvalues
  rw [nil_append] at hlength hvalue
  have hcapacity : packedLen values.length width = .ok ((values.length * width + 7) / 8) :=
    (packedLen_matches _ _).eq_ok_iff.mpr (if_pos ⟨hwidth, hbits⟩)
  rw [pack, hcapacity, ok_bind, hstate, ok_bind]
  have hpow : (256 : Nat) ^ state.output.length = 2 ^ (8 * state.output.length) := by
    rw [Nat.pow_mul]
  rw [mul_comm values.length, ← hlength]
  -- whether or not bits were left in the buffer
  split
  · rename_i hzero
    rw [hzero, Nat.pow_zero, Nat.lt_one_iff] at hbuffer
    rw [hbuffer, mul_zero, add_zero] at hvalue
    rw [← hvalue, show (8 * state.output.length + state.buffered + 7) / 8 =
      state.output.length by omega, bytes_value]
    rfl
  · have hsmall : state.buffer < 2 ^ 8 :=
      Nat.lt_of_lt_of_le hbuffer (Nat.pow_le_pow_right (by decide) (by omega))
    have hlast : value (state.output ++ [UInt8.ofNat state.buffer]) = joined width values := by
      rw [value_append, value_cons, value_nil, UInt8.toNat_ofNat', Nat.mod_eq_of_lt hsmall,
        mul_zero, add_zero, hpow, hvalue]
    rw [← hlast, show (8 * state.output.length + state.buffered + 7) / 8 =
      (state.output ++ [UInt8.ofNat state.buffer]).length by simp; omega, bytes_value]
    rfl

/-- Only values that fit are packed. -/
theorem lt_of_foldlM_packValue (hwidth : width ≤ 64) (hvalues : ∀ v ∈ values, v < 2 ^ 64)
    {state' : PackState} (h : values.foldlM (packValue width) state = .ok state') :
    ∀ v ∈ values, v < 2 ^ width := by
  induction values generalizing state with
  | nil => exact fun _ h => (not_mem_nil h).elim
  | cons v values ih =>
    rw [forall_mem_cons] at hvalues ⊢
    rw [foldlM_cons] at h
    obtain ⟨next, hnext, hrest⟩ := bind_eq_ok.mp h
    refine ⟨?_, ih hvalues.2 hrest⟩
    unfold packValue corruptIf at hnext
    obtain ⟨hcheck, -⟩ := check_bind_eq_ok.mp hnext
    rw [failIf_eq_ok, Nat.one_shiftLeft] at hcheck
    by_cases hlt : width < 64
    · omega
    · rw [show width = 64 by omega]
      exact hvalues.1

/-- The fields of packed bytes are the values that were packed. -/
theorem fields_of_pack {bytes : List UInt8} (hvalues : ∀ v ∈ values, v < 2 ^ 64)
    (h : pack values width = .ok bytes) :
    Packed bytes values.length width ∧
      fields width values.length (value bytes) = values := by
  obtain ⟨capacity, hcapacity, hloop⟩ := bind_eq_ok.mp h
  obtain ⟨⟨hwidth, hbits⟩, -⟩ :=
    Option.ite_none_right_eq_some.mp ((packedLen_matches _ _).eq_ok_iff.mp hcapacity)
  obtain ⟨state, hstate, -⟩ := bind_eq_ok.mp hloop
  have hfit := lt_of_foldlM_packValue hwidth hvalues hstate
  cases h.symm.trans (pack_eq hwidth hbits hfit)
  have hlt : joined width values < 2 ^ (values.length * width) :=
    mul_comm width _ ▸ joined_lt hfit
  have hvalue : value (LittleEndian.bytes ((values.length * width + 7) / 8)
      (joined width values)) = joined width values := by
    refine value_bytes_of_lt (lt_of_lt_of_le hlt ?_)
    rw [show 256 = 2 ^ 8 from rfl, ← Nat.pow_mul]
    exact Nat.pow_le_pow_right (by decide) (by omega)
  rw [hvalue]
  exact ⟨⟨hwidth, hbits, length_bytes _ _, hvalue.trans_lt hlt⟩, fields_joined hfit⟩

/-- What `pack` writes is read back, and what the reader accepts is what `pack` writes. -/
theorem pack_unpack :
    (∀ width values, width ≤ 64 → (∀ v ∈ values, v < 2 ^ width) →
      if values.length * width + 7 < 2 ^ 64 then
        ∃ bytes, pack values width = .ok bytes ∧
          unpack bytes values.length width = .ok values
      else ∃ error, pack values width = fail error) ∧
    ∀ bytes count width it, PackedValues.new bytes count width = .ok it →
      ∃ values, it.forEach (fun _ value values => .ok (values ++ [value])) [] = .ok values ∧
        values.length = count ∧ (∀ v ∈ values, v < 2 ^ width) ∧
        pack values width = .ok bytes := by
  constructor
  · intro width values hwidth hvalues
    split_ifs with hbits
    · have hpack := pack_eq hwidth hbits hvalues
      obtain ⟨hpacked, hfields⟩ := fields_of_pack (fun v h => lt_of_lt_of_le (hvalues v h)
        (Nat.pow_le_pow_right (by decide) hwidth)) hpack
      refine ⟨_, hpack, (unpack_matches _ _ _).eq_ok_iff.mpr ?_⟩
      rw [if_pos hpacked, hfields]
    · obtain ⟨error, herror⟩ := (packedLen_matches values.length width).exists_fail
        (if_neg fun h => hbits h.2)
      rw [pack, herror]
      exact ⟨error, rfl⟩
  · intro bytes count width it hnew
    have hunpack : unpack bytes count width =
        it.forEach (fun _ value values => .ok (values ++ [value])) [] := by
      rw [unpack, hnew, ok_bind]
    obtain ⟨⟨hwidth, hbits, hlength, hlt⟩, -⟩ := Option.ite_none_right_eq_some.mp
      ((PackedValues.new_matches _ _ _).eq_ok_iff.mp hnew)
    refine ⟨_, ?_, length_fields width count (value bytes), fun v => lt_of_mem_fields, ?_⟩
    · rw [← hunpack, (unpack_matches _ _ _).eq_ok_iff, if_pos ⟨hwidth, hbits, hlength, hlt⟩]
    · rw [pack_eq hwidth (by rwa [length_fields]) fun v => lt_of_mem_fields, joined_fields,
        length_fields, mul_comm width, Nat.mod_eq_of_lt hlt, ← hlength, bytes_value]

end RustDb.Sidecar
