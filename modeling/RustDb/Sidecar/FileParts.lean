import RustDb.Sidecar.FileIndex

/-!
# The parts of a sidecar file

Each part of the file reads back as it was written.

* `decodeSha256_spec`: a fingerprint, up to the case of its digits.
* `readNumber_piece` and `readArray_piece`: a field among the fields around it.
* `FileHeader.parse_write`, `DirectoryEntry.parse_write` and `readU32Table_flatMap`.
-/

namespace RustDb.Sidecar

open Std List
open RustDb.Lib RustDb.Lib.Checked RustDb.Lib.LittleEndian
open WholeFile

/-! ## Fingerprints -/

/-- A digit is found again from its value, in lower case. -/
theorem hex_ofNat : ∀ n < 256, ∀ h, hex (UInt8.ofNat n) = some h →
    h.toNat < 16 ∧ hexDigits.getD h.toNat 0 = lowercase (UInt8.ofNat n) ∧
      hex (lowercase (UInt8.ofNat n)) = some h := by
  intro n hn h hh
  have hall : ∀ n < 256, (hex (UInt8.ofNat n)).all (fun h =>
      decide (h.toNat < 16) && decide (hexDigits.getD h.toNat 0 = lowercase (UInt8.ofNat n)) &&
        decide (hex (lowercase (UInt8.ofNat n)) = some h)) = true := by
    decide +kernel
  have := hall n hn
  rw [hh, Option.all_some] at this
  simp only [Bool.and_eq_true, decide_eq_true_eq] at this
  exact ⟨this.1.1, this.1.2, this.2⟩

variable {byte : UInt8}

theorem hex_eq_some {h : UInt8} (hh : hex byte = some h) :
    h.toNat < 16 ∧ hexDigits.getD h.toNat 0 = lowercase byte ∧
      hex (lowercase byte) = some h := by
  have := hex_ofNat byte.toNat byte.toNat_lt h
  rw [UInt8.ofNat_toNat] at this
  exact this hh

theorem nibbles : ∀ high < 16, ∀ low < 16,
    ((UInt8.ofNat high <<< 4 ||| UInt8.ofNat low) >>> 4).toNat = high ∧
      ((UInt8.ofNat high <<< 4 ||| UInt8.ofNat low) &&& 15).toNat = low := by
  decide +kernel

/-- The two digits of a byte. -/
def digitsOf (byte : UInt8) : List UInt8 :=
  [hexDigits.getD (byte >>> 4).toNat 0, hexDigits.getD (byte &&& 15).toNat 0]

theorem decodePair_spec {pair : List UInt8} (hlen : pair.length = 2)
    (h : decodePair pair = .ok byte) :
    digitsOf byte = toAsciiLowercase pair ∧ decodePair (toAsciiLowercase pair) = .ok byte := by
  obtain ⟨a, b, rfl⟩ := length_eq_two.mp hlen
  simp only [decodePair, bind_eq_ok, index_eq_ok, orFail_eq_ok] at h
  obtain ⟨_, ⟨⟩, high, hhigh, _, ⟨⟩, low, hlow, ⟨⟩⟩ := h
  obtain ⟨hhighLt, hhighDigit, hhigh⟩ := hex_eq_some hhigh
  obtain ⟨hlowLt, hlowDigit, hlow⟩ := hex_eq_some hlow
  have hnibbles := nibbles high.toNat hhighLt low.toNat hlowLt
  rw [UInt8.ofNat_toNat, UInt8.ofNat_toNat] at hnibbles
  constructor
  · rw [digitsOf, hnibbles.1, hnibbles.2, hhighDigit, hlowDigit]
    rfl
  · show (orFail (hex (lowercase a)) _ >>= fun high =>
      orFail (hex (lowercase b)) _ >>= fun low => .ok (high <<< 4 ||| low)) = _
    rw [hhigh, hlow]
    rfl

theorem decodeSha256_spec {text decoded : List UInt8} (h : decodeSha256 text = .ok decoded) :
    decoded.length = 32 ∧ encodeSha256 decoded = toAsciiLowercase text ∧
      decodeSha256 (toAsciiLowercase text) = .ok decoded := by
  unfold decodeSha256 corruptIf at h
  obtain ⟨hlength, h⟩ := check_bind_eq_ok.mp h
  rw [failIf_eq_ok, not_not] at hlength
  have hchunks : ∀ text : List UInt8, text.length = 64 → chunksExact 2 text = chunks 2 32 text := by
    intro text hlength
    rw [chunksExact, hlength]
  rw [hchunks text hlength] at h
  have hpairs : Forall₂ (fun pair byte => digitsOf byte = toAsciiLowercase pair ∧
      decodePair (toAsciiLowercase pair) = .ok byte) (chunks 2 32 text) decoded := by
    refine forall₂_imp_of_mem (mapM_eq_ok.mp h) fun pair hpair byte hbyte => ?_
    exact decodePair_spec (length_of_mem_chunks (Nat.le_of_eq hlength.symm) hpair) hbyte
  have hlower : (toAsciiLowercase text).length = 64 := by
    rw [toAsciiLowercase, length_map, hlength]
  refine ⟨?_, ?_, ?_⟩
  · rw [← hpairs.length_eq, length_chunks]
  · have hmap := map_eq_map_of_forall₂ hpairs fun pair byte hpair => hpair.1.symm
    have hflatten := congrArg flatten hmap.symm
    rw [encodeSha256, flatMap_def]
    refine hflatten.trans ?_
    show ((chunks 2 32 text).map (map lowercase)).flatten = text.map lowercase
    rw [← chunks_map, flatten_chunks]
    exact take_of_length_le (Nat.le_of_eq hlower)
  · unfold decodeSha256 corruptIf
    rw [failIf_eq (not_not.mpr hlower), ok_bind, hchunks _ hlower, mapM_eq_ok,
      toAsciiLowercase, chunks_map, forall₂_map_left_iff]
    exact hpairs.imp fun pair byte hpair => hpair.2

/-! ## Sections -/

variable {α : Type}

theorem range?_append (xs ys zs : List α) :
    range? (xs ++ (ys ++ zs)) xs.length (xs.length + ys.length) = some ys := by
  simp [range?, take_length_add_append, ← add_assoc]

/-- One of several pieces, one after the other. -/
theorem range?_flatten {pieces : List (List α)} {i : Nat} {piece : List α}
    (h : pieces[i]? = some piece) (rest : List α) :
    range? (pieces.flatten ++ rest) ((pieces.take i).flatten.length)
      ((pieces.take i).flatten.length + piece.length) = some piece := by
  obtain ⟨hi, rfl⟩ := List.getElem?_eq_some_iff.mp h
  have hsplit : pieces.flatten ++ rest =
      (pieces.take i).flatten ++ (pieces[i] ++ ((pieces.drop (i + 1)).flatten ++ rest)) := by
    conv_lhs => rw [← take_append_drop i pieces, drop_eq_getElem_cons hi]
    rw [flatten_append, flatten_cons, append_assoc, append_assoc]
  rw [hsplit]
  exact range?_append ..

section Pieces

variable {pieces : List (List UInt8)} {lengths : List Nat} {i size offset : Nat}

/-- A field among the fields around it, at the offset that their lengths give. -/
theorem readArray_piece (hlengths : pieces.map length = lengths) {piece : List UInt8}
    (hpiece : pieces[i]? = some piece) (hoffset : (lengths.take i).sum = offset)
    (hsize : piece.length = size) (hlt : offset + size < 2 ^ 64) (rest : List UInt8) :
    readArray size (pieces.flatten ++ rest) offset = .ok piece := by
  have hstart : (pieces.take i).flatten.length = offset := by
    rw [length_flatten, map_take, hlengths, hoffset]
  have hrange := range?_flatten hpiece rest
  rw [hstart, hsize] at hrange
  rw [readArray, add_eq hlt, ok_bind, hrange]
  rfl

theorem readNumber_piece (hlengths : pieces.map length = lengths) {n : Nat}
    (hpiece : pieces[i]? = some (bytes size n)) (hoffset : (lengths.take i).sum = offset)
    (hn : n < 256 ^ size) (hlt : offset + size < 2 ^ 64) (rest : List UInt8) :
    readNumber size (pieces.flatten ++ rest) offset = .ok n := by
  rw [readNumber, readArray_piece hlengths hpiece hoffset (length_bytes size n) hlt rest, ok_bind]
  exact congrArg Except.ok (value_bytes_of_lt hn)

end Pieces

theorem length_flatMap_bytes (size : Nat) (numbers : List Nat) :
    (numbers.flatMap (bytes size)).length = numbers.length * size := by
  simp [length_flatMap]

/-- A table that was written reads back. -/
theorem readU32Table_flatMap {numbers : List Nat} {before after : List UInt8} {offset : Nat}
    (hoffset : before.length = offset) (hnumbers : ∀ n ∈ numbers, n < 2 ^ 32)
    (hlt : offset + numbers.length * 4 < 2 ^ 64) :
    readU32Table (before ++ numbers.flatMap (bytes 4) ++ after) offset numbers.length =
      .ok numbers := by
  have hlength := length_flatMap_bytes 4 numbers
  have hrange := range?_append before (numbers.flatMap (bytes 4)) after
  have hchunks := chunks_flatMap (length_bytes 4) numbers []
  rw [append_nil] at hchunks
  rw [readU32Table, usizeFromU64, orTooLarge_eq (by omega), ok_bind, orTooLarge_eq (by omega),
    ok_bind, add_eq hlt, ok_bind, ← hoffset, append_assoc, ← hlength, hrange]
  show Except.ok ((chunksExact 4 _).map value) = _
  rw [chunksExact, hlength, Nat.mul_div_cancel _ (by decide), hchunks, map_map]
  refine congrArg Except.ok ((map_congr_left ?_).trans (map_id numbers))
  intro n hn
  exact value_bytes_of_lt (hnumbers n hn)

/-! ## The header and the directory -/

/-- The fields of a header have their widths. -/
structure FileHeader.Fits (header : FileHeader) : Prop where
  schemaFingerprint : header.schemaFingerprint.length = 32
  segmentSha256 : header.segmentSha256.length = 32
  segmentRows : header.segmentRows < 2 ^ 64
  rowGroupCount : header.rowGroupCount < 2 ^ 32
  indexedColumnCount : header.indexedColumnCount < 2 ^ 32
  blockCount : header.blockCount < 2 ^ 32
  rowGroupRowsOffset : header.rowGroupRowsOffset < 2 ^ 64
  columnOrdinalsOffset : header.columnOrdinalsOffset < 2 ^ 64
  directoryOffset : header.directoryOffset < 2 ^ 64

variable {header : FileHeader}

theorem FileHeader.Fits.lengths (hfits : header.Fits) :
    header.pieces.map length = [8, 2, 2, 2, 2, 32, 32, 8, 4, 4, 4, 4, 8, 8, 8] := by
  simp only [pieces, map_cons, map_nil, length_bytes, hfits.schemaFingerprint, hfits.segmentSha256]
  rfl

theorem FileHeader.Fits.length_write (hfits : header.Fits) :
    header.write.length = WholeFile.headerBytes := by
  rw [write, length_flatten, hfits.lengths]
  rfl

theorem FileHeader.parse_write (hfits : header.Fits) (rest : List UInt8) :
    FileHeader.parse (header.write ++ rest) = .ok header := by
  have hlengths := hfits.lengths
  have hmagic : range? (header.write ++ rest) 0 8 = some WholeFile.magic :=
    range?_flatten (show header.pieces[0]? = some WholeFile.magic from rfl) rest
  have hlong : ¬ (header.write ++ rest).length < WholeFile.headerBytes := by
    rw [length_append, hfits.length_write]
    omega
  have number {i size offset n : Nat} (hpiece : header.pieces[i]? = some (bytes size n))
      (hoffset : ([8, 2, 2, 2, 2, 32, 32, 8, 4, 4, 4, 4, 8, 8, 8].take i).sum = offset)
      (hn : n < 256 ^ size) (hlt : offset + size < 2 ^ 64) :
      readNumber size (header.write ++ rest) offset = .ok n :=
    readNumber_piece hlengths hpiece hoffset hn hlt rest
  simp only [FileHeader.parse, corruptIf, bind_eq_ok, failIf_eq_ok, not_or, not_not, ne_eq,
    exists_and_left, exists_const]
  exact ⟨⟨hlong, hmagic⟩, _, number (i := 1) rfl rfl (by decide) (by decide), rfl,
    _, number (i := 2) rfl rfl (by decide) (by decide), rfl,
    _, number (i := 3) rfl rfl (by decide) (by decide), rfl,
    _, number (i := 4) rfl rfl (by decide) (by decide), rfl,
    _, number (i := 11) rfl rfl (by decide) (by decide), rfl,
    _, readArray_piece (i := 5) hlengths rfl rfl hfits.schemaFingerprint (by decide) rest,
    _, readArray_piece (i := 6) hlengths rfl rfl hfits.segmentSha256 (by decide) rest,
    _, number (i := 7) rfl rfl hfits.segmentRows (by decide),
    _, number (i := 8) rfl rfl hfits.rowGroupCount (by decide),
    _, number (i := 9) rfl rfl hfits.indexedColumnCount (by decide),
    _, number (i := 10) rfl rfl hfits.blockCount (by decide),
    _, number (i := 12) rfl rfl hfits.rowGroupRowsOffset (by decide),
    _, number (i := 13) rfl rfl hfits.columnOrdinalsOffset (by decide),
    _, number (i := 14) rfl rfl hfits.directoryOffset (by decide), rfl⟩

/-- The fields of a directory entry have their widths. -/
structure DirectoryEntry.Fits (entry : DirectoryEntry) : Prop where
  rowGroup : entry.rowGroup < 2 ^ 32
  columnOrdinal : entry.columnOrdinal < 2 ^ 32
  rowCount : entry.rowCount < 2 ^ 32
  offset : entry.offset < 2 ^ 64
  length : entry.length < 2 ^ 64
  sha256 : entry.sha256.length = 32

variable {entry : DirectoryEntry}

theorem DirectoryEntry.Fits.lengths (hfits : entry.Fits) :
    entry.pieces.map List.length = [4, 4, 4, 4, 8, 8, 32] := by
  simp only [pieces, map_cons, map_nil, length_bytes, hfits.sha256]

theorem DirectoryEntry.Fits.length_write (hfits : entry.Fits) :
    entry.write.length = WholeFile.directoryEntryBytes := by
  rw [write, length_flatten, hfits.lengths]
  rfl

theorem DirectoryEntry.parse_write (hfits : entry.Fits) (before rest : List UInt8)
    (hlt : before.length + 64 < 2 ^ 64) :
    DirectoryEntry.parse (before ++ (entry.write ++ rest)) before.length = .ok entry := by
  have hlengths : (before :: entry.pieces).map List.length =
      [before.length, 4, 4, 4, 4, 8, 8, 32] := by
    rw [map_cons, hfits.lengths]
  have hbytes : before ++ (entry.write ++ rest) = (before :: entry.pieces).flatten ++ rest := by
    rw [flatten_cons, append_assoc]
    rfl
  have field {i size field n : Nat} (hpiece : entry.pieces[i]? = some (bytes size n))
      (hoffset : ([4, 4, 4, 4, 8, 8, 32].take i).sum = field) (hn : n < 256 ^ size)
      (hfield : field + size ≤ 64) :
      DirectoryEntry.readField (readNumber size) (before ++ (entry.write ++ rest))
        before.length field = .ok n := by
    rw [readField, add_eq (by omega), ok_bind, hbytes]
    refine readNumber_piece (i := i + 1) hlengths hpiece ?_ hn (by omega) rest
    rw [take_succ_cons, sum_cons, hoffset]
  have hgroup : readNumber 4 (before ++ (entry.write ++ rest)) before.length =
      .ok entry.rowGroup := by
    rw [hbytes]
    exact readNumber_piece (i := 1) hlengths rfl (add_zero _) hfits.rowGroup (by omega) rest
  have hsha : readArray 32 (before ++ (entry.write ++ rest)) (before.length + 32) =
      .ok entry.sha256 := by
    rw [hbytes]
    refine readArray_piece (i := 7) hlengths rfl ?_ hfits.sha256 (by omega) rest
    rfl
  simp only [DirectoryEntry.parse, corruptIf, bind_eq_ok, failIf_eq_ok, not_not, ne_eq,
    exists_and_left, exists_const]
  exact ⟨_, field (i := 3) rfl rfl (by decide) (by decide), rfl, _, hgroup,
    _, field (i := 1) rfl rfl hfits.columnOrdinal (by decide),
    _, field (i := 2) rfl rfl hfits.rowCount (by decide),
    _, field (i := 4) rfl rfl hfits.offset (by decide),
    _, field (i := 5) rfl rfl hfits.length (by decide), _, add_eq (by omega), _, hsha, rfl⟩

end RustDb.Sidecar
