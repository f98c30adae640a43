import Mathlib.Data.Set.Card
import RustDb.Lib.LittleEndian
import RustDb.Native.DeleteVector

/-!
# Delete vectors as canonical sets

A delete vector is built by `empty`, by `from_offsets` or by reading a file, and is
changed by `mark_deleted` only.

* `encode` and `decode` are the byte format of a vector.
* `Reachable`: the vectors that these functions build.
* `sound_iff_decodes`: what `decode` checks is exactly that the counter is the size of
  the set and that no bit is set past the rows.
* `delete_vector_is_canonical`: every reachable vector is a set in its only form.
-/

namespace RustDb.Native.DeleteVector

open RustDb.Lib RustDb.Lib.LittleEndian List

/-! ## Building a vector -/

/-- One turn of the loop of `DeleteVector::from_offsets`. -/
def insertOffset (vector : DeleteVector) (offset : Nat) : Except Error DeleteVector :=
  if vector.rowCount ≤ offset then .error (outsideError offset vector.rowCount)
  else if bitIsSet vector.bits offset then .ok vector
  else .ok (vector.withBit offset (vector.deletedRows + 1))

/-- The vector that deletes the rows at these places. -/
def fromOffsets (rowCount : Nat) (offsets : List Nat) : Except Error DeleteVector := do
  let vector ← empty rowCount
  offsets.foldlM insertOffset vector

/-! ## The byte format -/

/-- `MAGIC`: the bytes of `RDBDV001`. -/
def magic : List UInt8 := [82, 68, 66, 68, 86, 48, 48, 49]

/-- The only version that is read. -/
def formatVersion : Nat := 1

/-- The header of the file of a vector. -/
def header (rowCount deletedRows : Nat) : List UInt8 :=
  magic ++ (bytes 4 formatVersion ++ (bytes 8 rowCount ++ bytes 8 deletedRows))

/-- The header, and a bit for every row. -/
def encode (vector : DeleteVector) : Except Error (List UInt8) :=
  match checkedAdd headerBytes vector.bits.length with
  | none => .error (.resourceExhausted "native delete vector size overflow")
  | some _ =>
    .ok (header vector.rowCount vector.deletedRows ++ vector.bits.map UInt8.ofBitVec)

/-- The number in the `size` bytes at `start`. -/
def field (input : List UInt8) (start size : Nat) : Nat :=
  value ((input.drop start).take size)

/-- The rest of `DeleteVector::decode`, once the two counters are read. -/
def decodeBits (path : Path) (input : List UInt8) (rowCount deletedRows : Nat) :
    Except Error DeleteVector := do
  let _ ← bitBytes rowCount
  if hsize : input.length = headerBytes + (rowCount + 7) / 8 then
    let vector : DeleteVector := {
      rowCount
      deletedRows
      bits := (input.drop headerBytes).map UInt8.toBitVec
      bits_length := by simp [hsize] }
    rejectIf (vector.isCounted = false)
      (.nativeStorage path "native delete vector deleted-row count mismatch")
    rejectIf (vector.isTrimmed = false)
      (.nativeStorage path "native delete vector sets bits beyond the segment row count")
    pure vector
  else .error (.nativeStorage path "native delete vector payload size mismatch")

/-- A vector whose header and bits agree. -/
def decode (path : Path) (input : List UInt8) : Except Error DeleteVector := do
  rejectIf (input.length < headerBytes ∨ input.take magic.length ≠ magic)
    (.nativeStorage path "invalid native delete vector header")
  let version := field input 8 4
  rejectIf (version ≠ formatVersion)
    (.nativeStorage path s!"unsupported native delete vector version {version}")
  decodeBits path input (field input 12 8) (field input 20 8)

/-- The vectors that the constructors and calls of `mark_deleted` build. -/
inductive Reachable : DeleteVector → Prop where
  | empty {rowCount : Nat} {vector : DeleteVector} :
      empty rowCount = .ok vector → Reachable vector
  | fromOffsets {rowCount : Nat} {offsets : List Nat} {vector : DeleteVector} :
      fromOffsets rowCount offsets = .ok vector → Reachable vector
  | decode {path : Path} {input : List UInt8} {vector : DeleteVector} :
      decode path input = .ok vector → Reachable vector
  | markDeleted {vector : DeleteVector} (offset : Nat) :
      Reachable vector → Reachable (vector.markDeletedMut offset).2

/-! ## Sound vectors -/

/-- The bytes of a vector have an index, and so have its rows. -/
def Fits (vector : DeleteVector) : Prop := vector.rowCount + 7 < u64Limit

variable {vector : DeleteVector} {offset rowCount size : Nat}

theorem bitBytes_eq_ok :
    bitBytes rowCount = .ok size ↔ rowCount + 7 < u64Limit ∧ size = (rowCount + 7) / 8 := by
  unfold bitBytes checkedAdd
  by_cases h : rowCount + 7 < u64Limit
  · simp [h, eq_comm]
  · simp [h]

/-! ## What `decode` checks -/

/-- The checks of `decode` leave no bit past the rows. -/
theorem bitAt_of_decodes (h : vector.decodes = true) {x : Nat}
    (hx : vector.rowCount ≤ x) : bitAt vector.bits x = false := by
  have hlen := vector.bits_length
  have hlast := of_decide_eq_true (Bool.and_eq_true_iff.mp h).2
  unfold bitAt
  by_cases hbyte : x / 8 < vector.bits.length
  · -- Only the last byte has both rows and padding.
    have hmod : vector.rowCount % 8 ≠ 0 := by omega
    have hdiv : x / 8 = vector.rowCount / 8 := by omega
    have hzero := hlast hmod
    rw [getLastD_bits hmod] at hzero
    have hbit := congrArg (fun b : BitVec 8 => b.getLsbD (x % 8 - vector.rowCount % 8)) hzero
    simp only [BitVec.getLsbD_ushiftRight] at hbit
    have hrem : vector.rowCount % 8 + (x % 8 - vector.rowCount % 8) = x % 8 := by omega
    rw [hrem] at hbit
    rw [hdiv, hbit]
    simp
  · rw [getD_eq_getElem?_getD, getElem?_eq_none (by omega)]
    simp

/-- `decode` accepts exactly the sound vectors. -/
theorem sound_iff_decodes : vector.Sound ↔ vector.decodes = true := by
  constructor
  · exact Sound.decodes
  · intro h
    have hclear := fun x => bitAt_of_decodes (x := x) h
    refine ⟨?_, hclear⟩
    -- The counter of a vector plays no part in the sum of its bits.
    let recounted : DeleteVector :=
      { vector with deletedRows := (range vector.rowCount).countP vector.contains }
    have hsound : recounted.Sound := ⟨rfl, hclear⟩
    rw [← (of_decide_eq_true (Bool.and_eq_true_iff.mp h).1).1]
    exact hsound.sum_countOnes_eq

/-! ## Round trips -/

@[simp] theorem length_magic : magic.length = 8 := rfl

@[simp] theorem length_header (rowCount deletedRows : Nat) :
    (header rowCount deletedRows).length = headerBytes := by
  simp [header, headerBytes]

theorem field_append {left middle right : List UInt8} {start : Nat} (hstart : left.length = start)
    (hsize : middle.length = size) :
    field (left ++ (middle ++ right)) start size = value middle := by
  rw [field, ← hstart, drop_left, ← hsize, take_left]

theorem field_version (rowCount deletedRows : Nat) (rest : List UInt8) :
    field (header rowCount deletedRows ++ rest) 8 4 = formatVersion := by
  rw [header, append_assoc, append_assoc, field_append length_magic (length_bytes ..),
    value_bytes_of_lt (by decide)]

theorem field_rowCount (h : rowCount < u64Limit) (deletedRows : Nat) (rest : List UInt8) :
    field (header rowCount deletedRows ++ rest) 12 8 = rowCount := by
  have hsplit : header rowCount deletedRows ++ rest = (magic ++ bytes 4 formatVersion) ++
      (bytes 8 rowCount ++ (bytes 8 deletedRows ++ rest)) := by
    simp only [header, append_assoc]
  rw [hsplit, field_append (by simp) (length_bytes ..), value_bytes_of_lt h]

variable {deletedRows : Nat}

theorem field_deletedRows (h : deletedRows < u64Limit) (rowCount : Nat) (rest : List UInt8) :
    field (header rowCount deletedRows ++ rest) 20 8 = deletedRows := by
  have hsplit : header rowCount deletedRows ++ rest =
      (magic ++ (bytes 4 formatVersion ++ bytes 8 rowCount)) ++ (bytes 8 deletedRows ++ rest) := by
    simp only [header, append_assoc]
  rw [hsplit, field_append (by simp) (length_bytes ..), value_bytes_of_lt h]

variable {input : List UInt8}

/-- A file that starts with the fields of a header starts with that header. -/
theorem header_of_fields (hlen : headerBytes ≤ input.length)
    (hmagic : input.take magic.length = magic) (hversion : field input 8 4 = formatVersion) :
    header (field input 12 8) (field input 20 8) ++ input.drop headerBytes = input := by
  have hbytes : ∀ start size, start + size ≤ headerBytes →
      bytes size (field input start size) = (input.drop start).take size := by
    intro start size h
    have hsize : ((input.drop start).take size).length = size := by
      rw [length_take, length_drop]
      omega
    rw [field]
    nth_rewrite 1 [← hsize]
    exact bytes_value _
  rw [header, ← hversion, ← hmagic, hbytes 8 4 (by decide), hbytes 12 8 (by decide),
    hbytes 20 8 (by decide)]
  have hsplit : ∀ start size, (input.drop start).take size ++ input.drop (start + size) =
      input.drop start := by
    intro start size
    rw [← drop_drop, take_append_drop]
  rw [append_assoc, append_assoc, append_assoc, headerBytes, hsplit 20 8,
    hsplit 12 8, hsplit 8 4, length_magic, take_append_drop]

theorem map_ofBitVec_toBitVec (input : List UInt8) :
    (input.map UInt8.toBitVec).map UInt8.ofBitVec = input := by
  simp [map_map, Function.comp_def]

theorem map_toBitVec_ofBitVec (bits : List (BitVec 8)) :
    (bits.map UInt8.ofBitVec).map UInt8.toBitVec = bits := by
  simp [map_map, Function.comp_def]

/-- What `decode` has checked when it returns a vector. -/
structure Decoded (input : List UInt8) (vector : DeleteVector) : Prop where
  file : input =
    header vector.rowCount vector.deletedRows ++ vector.bits.map UInt8.ofBitVec
  rows : vector.Fits
  deleted : vector.deletedRows < u64Limit
  decodes : vector.decodes = true

variable {path : Path}

theorem decodeBits_eq_ok :
    decodeBits path input rowCount deletedRows = .ok vector ↔
      vector.rowCount = rowCount ∧ vector.deletedRows = deletedRows ∧
        vector.bits = (input.drop headerBytes).map UInt8.toBitVec ∧
        input.length = headerBytes + (rowCount + 7) / 8 ∧ vector.Fits ∧
        vector.decodes = true := by
  unfold decodeBits
  constructor
  · intro h
    obtain ⟨size, hbytes, h⟩ := bind_eq_ok.mp h
    split at h
    · rename_i hsize
      simp only [check_bind_eq_ok, rejectIf_eq_ok, Bool.not_eq_false] at h
      obtain ⟨hcount, hlast, ⟨⟩⟩ := h
      exact ⟨rfl, rfl, rfl, hsize, (bitBytes_eq_ok.mp hbytes).1,
        Bool.and_eq_true_iff.mpr ⟨hcount, hlast⟩⟩
    · cases h
  · intro h
    obtain ⟨hrows, hdeleted, hbits, hsize, hfits, hdecodes⟩ := h
    obtain ⟨hcount, hlast⟩ := Bool.and_eq_true_iff.mp hdecodes
    rw [Fits, hrows] at hfits
    refine bind_eq_ok.mpr ⟨_, bitBytes_eq_ok.mpr ⟨hfits, rfl⟩, ?_⟩
    rw [dif_pos hsize]
    simp only [check_bind_eq_ok, rejectIf_eq_ok, Bool.not_eq_false]
    cases vector
    subst hrows hdeleted hbits
    exact ⟨hcount, hlast, rfl⟩

theorem decode_eq_ok : decode path input = .ok vector ↔ Decoded input vector := by
  unfold decode
  constructor
  · intro h
    simp only [check_bind_eq_ok, rejectIf_eq_ok, not_or, not_not, not_lt, decodeBits_eq_ok] at h
    obtain ⟨⟨hlen, hmagic⟩, hversion, hrows, hdeleted, hbits, hsize, hfits, hdecodes⟩ := h
    have hfile := header_of_fields hlen hmagic hversion
    have hlt : field input 20 8 < u64Limit := by
      have h := value_lt ((input.drop 20).take 8)
      have hle : ((input.drop 20).take 8).length ≤ 8 := length_take_le _ _
      exact Nat.lt_of_lt_of_le h (Nat.pow_le_pow_right (n := 256) (by decide) hle)
    refine ⟨?_, hfits, by rwa [hdeleted], hdecodes⟩
    rw [hrows, hdeleted, hbits, map_ofBitVec_toBitVec, hfile]
  · intro h
    have hfits := h.rows
    unfold Fits at hfits
    have hlen : input.length = headerBytes + (vector.rowCount + 7) / 8 := by
      rw [h.file, length_append, length_header, length_map, vector.bits_length]
    have hmagic : input.take magic.length = magic := by
      rw [h.file, header, append_assoc, take_left]
    have hversion : field input 8 4 = formatVersion := by rw [h.file, field_version]
    have hrows : field input 12 8 = vector.rowCount := by
      rw [h.file, field_rowCount (by omega)]
    have hdeleted : field input 20 8 = vector.deletedRows := by
      rw [h.file, field_deletedRows h.deleted]
    have hbits : input.drop headerBytes = vector.bits.map UInt8.ofBitVec := by
      rw [h.file, ← length_header vector.rowCount vector.deletedRows, drop_left]
    simp only [check_bind_eq_ok, rejectIf_eq_ok, not_or, not_not, not_lt, decodeBits_eq_ok]
    refine ⟨⟨by omega, hmagic⟩, hversion, hrows.symm, hdeleted.symm, ?_, by rw [hrows, hlen],
      h.rows, h.decodes⟩
    rw [hbits, map_toBitVec_ofBitVec]

/-- The bytes of a vector that fits. -/
theorem encode_eq (h : vector.Fits) :
    vector.encode =
      .ok (header vector.rowCount vector.deletedRows ++ vector.bits.map UInt8.ofBitVec) := by
  have hsize : headerBytes + vector.bits.length < u64Limit := by
    unfold Fits at h
    rw [vector.bits_length, headerBytes, u64Limit] at *
    omega
  rw [encode, checkedAdd, if_pos hsize]

/-! ## Every reachable vector -/

/-- A vector is sound and its rows have an index. -/
structure Valid (vector : DeleteVector) : Prop where
  sound : vector.Sound
  fits : vector.Fits

theorem Valid.small (h : vector.Valid) : vector.rowCount < u64Limit := by
  have hfits := h.fits
  unfold Fits at hfits
  omega

theorem empty_valid (h : empty rowCount = .ok vector) : vector.Valid := by
  refine ⟨empty_sound h, ?_⟩
  have hrows := (empty_spec h).1
  obtain ⟨size, hsize, -⟩ := bind_eq_ok.mp h
  rw [Fits, hrows]
  exact (bitBytes_eq_ok.mp hsize).1

theorem Valid.markDeletedMut (h : vector.Valid) (offset : Nat) :
    (vector.markDeletedMut offset).2.Valid := by
  rcases h.sound.markDeletedMut_cases h.small offset with ⟨-, heq⟩ | ⟨-, -, heq⟩ | ⟨hlt, hfresh, heq⟩
  · rw [heq]
    exact h
  · rw [heq]
    exact h
  · rw [heq]
    exact ⟨h.sound.withBit hlt hfresh, h.fits⟩

variable {vector' : DeleteVector}

theorem insertOffset_eq_ok (h : vector.Valid) (hinsert : vector.insertOffset offset = .ok vector') :
    offset < vector.rowCount ∧ vector'.Valid ∧ vector'.rowCount = vector.rowCount := by
  unfold insertOffset at hinsert
  split at hinsert
  · cases hinsert
  · rename_i hlt
    have hlt : offset < vector.rowCount := Nat.lt_of_not_le hlt
    rw [← show vector.contains offset = bitIsSet vector.bits offset from if_pos hlt] at hinsert
    cases hin : vector.contains offset with
    | true =>
      rw [hin, if_pos rfl] at hinsert
      cases hinsert
      exact ⟨hlt, h, rfl⟩
    | false =>
      rw [hin, if_neg Bool.false_ne_true] at hinsert
      cases hinsert
      exact ⟨hlt, ⟨h.sound.withBit hlt hin, h.fits⟩, rfl⟩

variable {offsets : List Nat}

/-- The loop of `from_offsets` keeps the vector valid and reads offsets of the segment
only. -/
theorem foldlM_insertOffset (h : vector.Valid)
    (hfold : offsets.foldlM insertOffset vector = .ok vector') :
    vector'.Valid ∧ ∀ offset ∈ offsets, offset < vector.rowCount := by
  induction offsets generalizing vector with
  | nil =>
    cases hfold
    exact ⟨h, by simp⟩
  | cons offset offsets ih =>
    rw [foldlM_cons] at hfold
    obtain ⟨next, hinsert, hfold⟩ := bind_eq_ok.mp hfold
    obtain ⟨hlt, hnext, hrows⟩ := insertOffset_eq_ok h hinsert
    obtain ⟨hvalid, hrest⟩ := ih hnext hfold
    rw [hrows] at hrest
    exact ⟨hvalid, forall_mem_cons.mpr ⟨hlt, hrest⟩⟩

theorem fromOffsets_eq_ok (h : fromOffsets rowCount offsets = .ok vector) :
    vector.Valid ∧ ∀ offset ∈ offsets, offset < rowCount := by
  obtain ⟨start, hstart, hfold⟩ := bind_eq_ok.mp h
  have hinserted := foldlM_insertOffset (empty_valid hstart) hfold
  rwa [(empty_spec hstart).1] at hinserted

theorem Reachable.valid (h : Reachable vector) : vector.Valid := by
  induction h with
  | empty h => exact empty_valid h
  | fromOffsets h => exact (fromOffsets_eq_ok h).1
  | decode h =>
    have hdecoded := decode_eq_ok.mp h
    exact ⟨sound_iff_decodes.mpr hdecoded.decodes, hdecoded.rows⟩
  | markDeleted offset _ ih => exact ih.markDeletedMut offset

/-- The counter is the number of offsets in the set. -/
theorem Sound.ncard_contains (h : vector.Sound) :
    {offset | vector.contains offset = true}.ncard = vector.deletedRows := by
  have hset : {offset | vector.contains offset = true} =
      (((range vector.rowCount).filter vector.contains).toFinset : Set Nat) := by
    ext x
    simp only [Set.mem_ofPred_eq, coe_toFinset, mem_filter, mem_range]
    exact ⟨fun hx => ⟨contains_lt hx, hx⟩, fun hx => hx.2⟩
  rw [hset, Set.ncard_coe_finset, toFinset_card_of_nodup (nodup_range.filter _),
    h.count, countP_eq_length_filter]

/-- A valid vector is written and read back. -/
theorem Valid.decode_encode (h : vector.Valid) (path : Path) :
    ∃ input, vector.encode = .ok input ∧ decode path input = .ok vector := by
  refine ⟨_, encode_eq h.fits, decode_eq_ok.mpr ⟨rfl, h.fits, ?_, h.sound.decodes⟩⟩
  have hfits := h.fits
  have hle := h.sound.deletedRows_le
  unfold Fits at hfits
  omega

/-- Every vector that the code builds is a set of offsets in its only form, every file
that is read is the file of the vector it gives, and an offset past the rows is
refused. -/
theorem delete_vector_is_canonical :
    (∀ vector, Reachable vector →
      {offset | vector.contains offset = true}.ncard = vector.deletedRows ∧
      (∀ x, vector.rowCount ≤ x → bitAt vector.bits x = false) ∧
      (∀ offset, offset < vector.rowCount →
        (vector.markDeletedMut offset).1 = .ok (!vector.contains offset) ∧
        ∀ x, (vector.markDeletedMut offset).2.contains x =
          (vector.contains x || decide (x = offset))) ∧
      (∀ offset, vector.rowCount ≤ offset →
        vector.markDeletedMut offset =
          (.error (outsideError offset vector.rowCount), vector)) ∧
      ∀ path, ∃ input, vector.encode = .ok input ∧ decode path input = .ok vector) ∧
    (∀ path input vector, decode path input = .ok vector → vector.encode = .ok input) ∧
    (∀ rowCount offsets, (∃ offset ∈ offsets, rowCount ≤ offset) →
      ∃ error, fromOffsets rowCount offsets = .error error) := by
  refine ⟨fun vector hreach => ?_, fun path input vector h => ?_, fun rowCount offsets h => ?_⟩
  · have hvalid := hreach.valid
    have hcases := hvalid.sound.markDeletedMut_cases hvalid.small
    refine ⟨hvalid.sound.ncard_contains, hvalid.sound.clear, fun offset hlt => ?_,
      fun offset hle => ?_, hvalid.decode_encode⟩
    · rcases hcases offset with ⟨hle, -⟩ | ⟨-, hin, heq⟩ | ⟨-, hfresh, heq⟩
      · omega
      · rw [heq, hin]
        refine ⟨rfl, fun x => ?_⟩
        by_cases hx : x = offset
        · simp [hx, hin]
        · simp [hx]
      · rw [heq, hfresh]
        exact ⟨rfl, contains_withBit hlt _⟩
    · rcases hcases offset with ⟨-, heq⟩ | ⟨hlt, -, -⟩ | ⟨hlt, -, -⟩
      · exact heq
      · omega
      · omega
  · have hdecoded := decode_eq_ok.mp h
    rw [encode_eq hdecoded.rows, ← hdecoded.file]
  · obtain ⟨offset, hmem, hle⟩ := h
    cases hresult : fromOffsets rowCount offsets with
    | error error => exact ⟨error, rfl⟩
    | ok vector =>
      have hlt := (fromOffsets_eq_ok hresult).2 offset hmem
      omega

/-- The vector of ten rows with the rows 1 and 8 deleted. -/
def twoOfTen : DeleteVector :=
  { rowCount := 10, deletedRows := 2, bits := [2, 1], bits_length := rfl }

theorem delete_vector_of_ten_rows_is_canonical :
    fromOffsets 10 [8, 1, 8] = .ok twoOfTen ∧
      {offset | twoOfTen.contains offset = true}.ncard = 2 ∧
      (∃ input, twoOfTen.encode = .ok input ∧ decode .root input = .ok twoOfTen) ∧
      ∃ error, fromOffsets 10 [8, 10] = .error error := by
  have hbuilt : fromOffsets 10 [8, 1, 8] = .ok twoOfTen := by decide +kernel
  have hall := delete_vector_is_canonical
  have hvector := hall.1 twoOfTen (.fromOffsets hbuilt)
  exact ⟨hbuilt, hvector.1, hvector.2.2.2.2 .root, hall.2.2 10 [8, 10] ⟨10, by simp, by simp⟩⟩

end RustDb.Native.DeleteVector
