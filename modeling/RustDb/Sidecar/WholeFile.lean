import RustDb.Sidecar.Encode
import RustDb.Sidecar.Readers

/-!
# The predicate sidecar file

A sidecar file holds the predicate blocks of one segment: a header of 128 bytes, the
rows of every row group, the indexed columns, a directory with 64 bytes for every
block, and the blocks.  Its first sections are enough to find a block, so a scan reads
only them.

* `FileHeader`, `DirectoryEntry`: the fixed parts, with `write` and `parse`.
* `PredicateSidecarIndex.fromMetadata` reads and checks the first sections.
* `PredicateSidecarFile.new`, `toBytes` and `fromBytes`: a whole file.  A block is
  always one that the evaluation accepts (`EncodedPredicateBlock.valid`).

Text is modelled by its UTF-8 bytes, and SHA-256 by any function to 32 bytes.
-/

namespace RustDb.Sidecar

open Std
open RustDb.Lib RustDb.Lib.Checked RustDb.Lib.LittleEndian

/-- A hash to 32 bytes. -/
structure Sha256 where
  digest : List UInt8 → List UInt8
  length_digest : ∀ bytes, (digest bytes).length = 32

/-! ## Fixed parts -/

namespace WholeFile

/-- The bytes of `RDBPRD01`. -/
def magic : List UInt8 := [82, 68, 66, 80, 82, 68, 48, 49]

/-- The only version that is read. -/
def fileFormatVersion : Nat := 1

/-- The length of the header of a file. -/
def headerBytes : Nat := 128

/-- The length of a directory entry. -/
def directoryEntryBytes : Nat := 64

/-- The bytes of a field; a field beyond the end is an error. -/
def readArray (size : Nat) (bytes : List UInt8) (offset : Nat) : Result (List UInt8) := do
  let stop ← add 64 offset size
  orFail (range? bytes offset stop) (.corrupt "truncated predicate sidecar")

/-- A little-endian field of the given size. -/
def readNumber (size : Nat) (bytes : List UInt8) (offset : Nat) : Result Nat := do
  let read ← readArray size bytes offset
  pure (value read)

/-- A field of two bytes. -/
def readU16 : List UInt8 → Nat → Result Nat := readNumber 2

/-- A field of four bytes. -/
def readU32 : List UInt8 → Nat → Result Nat := readNumber 4

/-- A field of eight bytes. -/
def readU64 : List UInt8 → Nat → Result Nat := readNumber 8

/-- A file offset as an index into memory. -/
def usizeFromU64 (value : Nat) : Result Nat := orTooLarge 64 value

/-- The value of a hexadecimal digit. -/
def hex (byte : UInt8) : Option UInt8 :=
  if 48 ≤ byte ∧ byte ≤ 57 then some (byte - 48)
  else if 97 ≤ byte ∧ byte ≤ 102 then some (byte - 97 + 10)
  else if 65 ≤ byte ∧ byte ≤ 70 then some (byte - 65 + 10)
  else none

/-- One byte from two hexadecimal digits. -/
def decodePair (pair : List UInt8) : Result UInt8 := do
  let first ← index pair 0
  let high ← orFail (hex first) (.corrupt "invalid SHA-256 binding")
  let second ← index pair 1
  let low ← orFail (hex second) (.corrupt "invalid SHA-256 binding")
  pure (high <<< 4 ||| low)

/-- The digest that 64 hexadecimal digits stand for. -/
def decodeSha256 (value : List UInt8) : Result (List UInt8) := do
  corruptIf (value.length ≠ 64) "invalid SHA-256 binding"
  (chunksExact 2 value).mapM decodePair

/-- The bytes of `0123456789abcdef`. -/
def hexDigits : List UInt8 :=
  [48, 49, 50, 51, 52, 53, 54, 55, 56, 57, 97, 98, 99, 100, 101, 102]

/-- The lower-case hexadecimal digits of a digest. -/
def encodeSha256 (bytes : List UInt8) : List UInt8 :=
  bytes.flatMap fun byte : UInt8 =>
    [hexDigits.getD (byte >>> 4).toNat 0, hexDigits.getD (byte &&& 15).toNat 0]

/-- `to_ascii_lowercase` of one byte. -/
def lowercase (byte : UInt8) : UInt8 :=
  if 65 ≤ byte ∧ byte ≤ 90 then byte + 32 else byte

/-- The bytes with ASCII capitals made small. -/
def toAsciiLowercase (value : List UInt8) : List UInt8 := value.map lowercase

/-- The row groups are not empty and add up to the rows of the segment. -/
def validateRowGroups (segmentRows : Nat) (rows : List Nat) : Result Unit := do
  corruptIf (rows = [] ∨ 0 ∈ rows) "predicate sidecar has invalid row groups"
  let total ← rows.foldlM (fun total rows => orTooLarge 64 (total + rows)) 0
  corruptIf (total ≠ segmentRows) "predicate sidecar segment row count mismatch"

/-- A table of `u32` values at an offset. -/
def readU32Table (bytes : List UInt8) (offset count : Nat) : Result (List Nat) := do
  let start ← usizeFromU64 offset
  let byteLen ← orTooLarge 64 (count * 4)
  let stop ← add 64 start byteLen
  let table ← orFail (range? bytes start stop) (.corrupt "truncated predicate sidecar table")
  pure ((chunksExact 4 table).map value)

end WholeFile

open WholeFile

/-- The header: what the file belongs to, how much it holds and where its tables begin. -/
structure FileHeader where
  schemaFingerprint : List UInt8
  segmentSha256 : List UInt8
  segmentRows : Nat
  rowGroupCount : Nat
  indexedColumnCount : Nat
  blockCount : Nat
  rowGroupRowsOffset : Nat
  columnOrdinalsOffset : Nat
  directoryOffset : Nat
deriving DecidableEq, Repr

namespace FileHeader

/-- The header at the front of the bytes, with its magic, version and reserved bytes checked. -/
def parse (bytes : List UInt8) : Result FileHeader := do
  corruptIf (bytes.length < WholeFile.headerBytes ∨ range? bytes 0 8 ≠ some WholeFile.magic)
    "missing predicate sidecar header"
  let unsupported := "unsupported predicate sidecar header"
  let version ← WholeFile.readU16 bytes 8
  corruptIf (version ≠ fileFormatVersion) unsupported
  let headerLen ← WholeFile.readU16 bytes 10
  corruptIf (headerLen ≠ WholeFile.headerBytes) unsupported
  let entryLen ← WholeFile.readU16 bytes 12
  corruptIf (entryLen ≠ WholeFile.directoryEntryBytes) unsupported
  let reserved ← WholeFile.readU16 bytes 14
  corruptIf (reserved ≠ 0) unsupported
  let reserved ← WholeFile.readU32 bytes 100
  corruptIf (reserved ≠ 0) unsupported
  let schemaFingerprint ← readArray 32 bytes 16
  let segmentSha256 ← readArray 32 bytes 48
  let segmentRows ← readU64 bytes 80
  let rowGroupCount ← WholeFile.readU32 bytes 88
  let indexedColumnCount ← WholeFile.readU32 bytes 92
  let blockCount ← WholeFile.readU32 bytes 96
  let rowGroupRowsOffset ← readU64 bytes 104
  let columnOrdinalsOffset ← readU64 bytes 112
  let directoryOffset ← readU64 bytes 120
  pure {
    schemaFingerprint, segmentSha256, segmentRows, rowGroupCount, indexedColumnCount
    blockCount, rowGroupRowsOffset, columnOrdinalsOffset, directoryOffset }

/-- The fields of the header in the order in which they are written. -/
def pieces (header : FileHeader) : List (List UInt8) :=
  [WholeFile.magic, bytes 2 fileFormatVersion, bytes 2 WholeFile.headerBytes,
    bytes 2 WholeFile.directoryEntryBytes, bytes 2 0, header.schemaFingerprint,
    header.segmentSha256, bytes 8 header.segmentRows, bytes 4 header.rowGroupCount,
    bytes 4 header.indexedColumnCount, bytes 4 header.blockCount, bytes 4 0,
    bytes 8 header.rowGroupRowsOffset, bytes 8 header.columnOrdinalsOffset,
    bytes 8 header.directoryOffset]

/-- The bytes of a header. -/
def write (header : FileHeader) : List UInt8 := header.pieces.flatten

/-- Where the blocks begin, behind the directory. -/
def payloadOffset (header : FileHeader) : Result Nat := do
  let directoryLen ← mul 64 header.blockCount WholeFile.directoryEntryBytes
  orTooLarge 64 (header.directoryOffset + directoryLen)

/-- The tables follow each other without gaps and the file is long enough for them. -/
def validateLayout (header : FileHeader) (fileLen : Nat) : Result Unit := do
  corruptIf (header.segmentRows = 0 ∨ header.rowGroupCount = 0 ∨
      header.indexedColumnCount = 0 ∨ header.blockCount = 0 ∨
      header.rowGroupRowsOffset ≠ WholeFile.headerBytes)
    "invalid predicate sidecar counts"
  let rowGroupLen ← mul 64 header.rowGroupCount 4
  let columns ← add 64 header.rowGroupRowsOffset rowGroupLen
  let columnLen ← mul 64 header.indexedColumnCount 4
  let directory ← add 64 columns columnLen
  let message := "invalid predicate sidecar section offsets"
  corruptIf (header.columnOrdinalsOffset ≠ columns ∨ header.directoryOffset ≠ directory) message
  let payloadOffset ← header.payloadOffset
  corruptIf (fileLen < payloadOffset) message
  let slots ← mul 64 header.rowGroupCount header.indexedColumnCount
  corruptIf (slots < header.blockCount) message

end FileHeader

/-- A directory entry: the place, size and digest of one block. -/
structure DirectoryEntry where
  rowGroup : Nat
  columnOrdinal : Nat
  rowCount : Nat
  offset : Nat
  length : Nat
  sha256 : List UInt8
deriving DecidableEq, Repr

namespace DirectoryEntry

/-- The number in `size` bytes at `field` of the entry at `offset`. -/
def readField (read : List UInt8 → Nat → Result Nat) (bytes : List UInt8)
    (offset field : Nat) : Result Nat := do
  let start ← add 64 offset field
  read bytes start

/-- The entry at an offset; its reserved bytes are zero. -/
def parse (bytes : List UInt8) (offset : Nat) : Result DirectoryEntry := do
  let reserved ← readField WholeFile.readU32 bytes offset 12
  corruptIf (reserved ≠ 0) "non-zero predicate directory reserved bytes"
  let rowGroup ← WholeFile.readU32 bytes offset
  let columnOrdinal ← readField WholeFile.readU32 bytes offset 4
  let rowCount ← readField WholeFile.readU32 bytes offset 8
  let entryOffset ← readField readU64 bytes offset 16
  let length ← readField readU64 bytes offset 24
  let start ← add 64 offset 32
  let sha256 ← readArray 32 bytes start
  pure { rowGroup, columnOrdinal, rowCount, offset := entryOffset, length, sha256 }

/-- The fields of the entry in the order in which they are written. -/
def pieces (entry : DirectoryEntry) : List (List UInt8) :=
  [bytes 4 entry.rowGroup, bytes 4 entry.columnOrdinal, bytes 4 entry.rowCount, bytes 4 0,
    bytes 8 entry.offset, bytes 8 entry.length, entry.sha256]

/-- The bytes of an entry. -/
def write (entry : DirectoryEntry) : List UInt8 := entry.pieces.flatten

end DirectoryEntry

/-! ## The index -/

/-- The key `(row_group, column_ordinal)` of a block. -/
structure BlockKey where
  rowGroup : Nat
  columnOrdinal : Nat
deriving DecidableEq, Repr

namespace BlockKey

/-- The order of the keys, as of pairs. -/
def cmp : BlockKey → BlockKey → Ordering :=
  compareLex (compareOn BlockKey.rowGroup) (compareOn BlockKey.columnOrdinal)

instance : TransCmp cmp :=
  inferInstanceAs (TransCmp
    (compareLex (compareOn BlockKey.rowGroup) (compareOn BlockKey.columnOrdinal)))

instance : LawfulEqCmp cmp where
  eq_of_compare {a b} h := by
    obtain ⟨hgroup, hcolumn⟩ := Ordering.then_eq_eq.mp h
    cases a
    cases b
    rw [mk.injEq]
    exact ⟨Std.compare_eq_iff_eq.mp hgroup, Std.compare_eq_iff_eq.mp hcolumn⟩

end BlockKey

/-- A map from the places of blocks, in their order. -/
abbrev BlockMap (α : Type) := ExtTreeMap BlockKey α BlockKey.cmp

/-- What an index keeps of a directory entry beside its place. -/
structure PredicateBlockEntry where
  rowCount : Nat
  offset : Nat
  length : Nat
  sha256 : List UInt8
deriving DecidableEq, Repr

/-- The checked metadata of a file, with its blocks not read. -/
structure PredicateSidecarIndex where
  schemaFingerprint : List UInt8
  segmentSha256 : List UInt8
  segmentRows : Nat
  rowGroupRows : List Nat
  indexedColumnOrdinals : List Nat
  entries : BlockMap PredicateBlockEntry

/-- The place of the block of an entry. -/
def DirectoryEntry.key (entry : DirectoryEntry) : BlockKey :=
  { rowGroup := entry.rowGroup, columnOrdinal := entry.columnOrdinal }

/-- An entry without its place. -/
def DirectoryEntry.block (entry : DirectoryEntry) : PredicateBlockEntry where
  rowCount := entry.rowCount
  offset := entry.offset
  length := entry.length
  sha256 := entry.sha256

/-- The state of the loop over the directory. -/
structure IndexState where
  entries : BlockMap PredicateBlockEntry
  payloadCursor : Nat
  previousKey : Option BlockKey

namespace PredicateSidecarIndex

/-- How many bytes at the front of the file hold the metadata. -/
def metadataPrefixLen (headerBytes : List UInt8) : Result Nat := do
  let header ← FileHeader.parse headerBytes
  let offset ← header.payloadOffset
  usizeFromU64 offset

/-- The checks of one directory entry.  A binary search in the ordered ordinals finds
exactly their members. -/
def checkEntry (header : FileHeader) (rowGroupRows ordinals : List Nat) (state : IndexState)
    (entry : DirectoryEntry) : Result Unit := do
  let message := "invalid predicate block directory entry"
  corruptIf (header.rowGroupCount ≤ entry.rowGroup ∨ entry.columnOrdinal ∉ ordinals) message
  let rows ← index rowGroupRows entry.rowGroup
  corruptIf (entry.rowCount ≠ rows ∨ entry.offset ≠ state.payloadCursor ∨ entry.length = 0 ∨
    state.previousKey.any (fun previous => BlockKey.cmp previous entry.key ≠ .lt)) message

/-- One turn of the loop over the directory. -/
def addEntry (metadata : List UInt8) (totalFileLen : Nat) (header : FileHeader)
    (rowGroupRows ordinals : List Nat) (state : IndexState) (entryIndex : Nat) :
    Result IndexState := do
  let distance ← mul 64 entryIndex WholeFile.directoryEntryBytes
  let directoryOffset ← add 64 header.directoryOffset distance
  let start ← usizeFromU64 directoryOffset
  let entry ← DirectoryEntry.parse metadata start
  checkEntry header rowGroupRows ordinals state entry
  let payloadCursor ← orTooLarge 64 (entry.offset + entry.length)
  corruptIf (totalFileLen < payloadCursor) "predicate block range is outside the file"
  pure {
    entries := state.entries.insert entry.key entry.block
    payloadCursor
    previousKey := some entry.key }

/-- `from_metadata`: the index in the first sections of a file of `totalFileLen` bytes.  The entries
are in order, their blocks fill the rest of the file, and every indexed column has one. -/
def fromMetadata (metadata : List UInt8) (totalFileLen : Nat) :
    Result PredicateSidecarIndex := do
  let header ← FileHeader.parse metadata
  header.validateLayout totalFileLen
  let payloadOffset ← header.payloadOffset
  corruptIf (payloadOffset ≠ metadata.length)
    "predicate sidecar metadata prefix length mismatch"
  let rowGroupRows ← readU32Table metadata header.rowGroupRowsOffset header.rowGroupCount
  validateRowGroups header.segmentRows rowGroupRows
  let ordinals ← readU32Table metadata header.columnOrdinalsOffset header.indexedColumnCount
  corruptIf (ordinals = [] ∨ (ordinals.zip ordinals.tail).any fun pair => pair.2 ≤ pair.1)
    "indexed column ordinals are empty or unordered"
  let payloadCursor ← header.payloadOffset
  let state ← (List.range header.blockCount).foldlM
    (addEntry metadata totalFileLen header rowGroupRows ordinals)
    { entries := ∅, payloadCursor, previousKey := none }
  corruptIf (state.payloadCursor ≠ totalFileLen ∨
      ordinals.any fun ordinal => !state.entries.keys.any fun key => key.columnOrdinal = ordinal)
    "predicate sidecar has trailing or unreferenced data"
  pure {
    schemaFingerprint := encodeSha256 header.schemaFingerprint
    segmentSha256 := encodeSha256 header.segmentSha256
    segmentRows := header.segmentRows
    rowGroupRows
    indexedColumnOrdinals := ordinals
    entries := state.entries }

end PredicateSidecarIndex

/-- The range of a block in the file. -/
def PredicateBlockEntry.byteRange (entry : PredicateBlockEntry) : Result (Nat × Nat) := do
  let start ← usizeFromU64 entry.offset
  let stop ← orTooLarge 64 (entry.offset + entry.length)
  let stop ← usizeFromU64 stop
  pure (start, stop)

/-! ## Whole files -/

/-- A block that the evaluation accepts. -/
structure EncodedPredicateBlock where
  bytes : List UInt8
  valid : (evaluateBlock bytes .isNotNull).isOk = true
deriving DecidableEq, Repr

/-- A block that the encoder retains is accepted. -/
theorem isOk_evaluateBlock {dataType : PredicateType} {values : List (Option Int64)}
    {bytes : List UInt8} (h : encodeBlock dataType values = .ok (some bytes)) :
    (evaluateBlock bytes .isNotNull).isOk = true := by
  obtain ⟨parts, hparse, -, hrows⟩ := parse_encodeBlock h
  have hsound : parts.Sound := (parse_returns bytes).of_eq_ok hparse
  have hbits := (evaluateParts_matches hsound [.isNotNull]).eq_ok_iff.mpr
    (by rw [hrows, Option.map_some])
  rw [evaluateBlock, evaluateAllBlock, hparse, ok_bind, hbits]
  rfl

namespace EncodedPredicateBlock

/-- The block of some values, where it is at most half as long as they are. -/
def encode (dataType : PredicateType) (values : List (Option Int64)) :
    Result (Option EncodedPredicateBlock) :=
  match h : encodeBlock dataType values with
  | .ok (some bytes) => .ok (some { bytes, valid := isOk_evaluateBlock h })
  | .ok none => .ok none
  | .error e => .error e

/-- The bytes of a block from elsewhere, which are read once to check them. -/
def fromBytes (bytes : List UInt8) : Result EncodedPredicateBlock :=
  match h : evaluateBlock bytes .isNotNull with
  | .ok _ => .ok { bytes, valid := by rw [h]; rfl }
  | .error e => .error e

/-- The number of rows that the header of a block states. -/
def rowCount (block : EncodedPredicateBlock) : Result Nat := do
  let parts ← parse block.bytes
  pure parts.rowCount

end EncodedPredicateBlock

/-- A block with its place in the segment and the number of its rows. -/
structure PredicateSidecarBlock where
  rowGroup : UInt32
  columnOrdinal : UInt32
  rowCount : Nat
  block : EncodedPredicateBlock
  rowCount_eq : block.rowCount = .ok rowCount
deriving DecidableEq, Repr

/-- A block at its place, which must have fewer than `2 ^ 32` rows. -/
def PredicateSidecarBlock.new (rowGroup columnOrdinal : UInt32)
    (block : EncodedPredicateBlock) : Result PredicateSidecarBlock :=
  match h : block.rowCount with
  | .ok rowCount =>
    if rowCount < 2 ^ 32 then
      .ok { rowGroup, columnOrdinal, rowCount, block, rowCount_eq := h }
    else fail .tooLarge
  | .error e => .error e

/-- The place of a block. -/
def PredicateSidecarBlock.key (entry : PredicateSidecarBlock) : BlockKey where
  rowGroup := entry.rowGroup.toNat
  columnOrdinal := entry.columnOrdinal.toNat

/-- A file with all its blocks in memory. -/
structure PredicateSidecarFile where
  schemaFingerprint : List UInt8
  segmentSha256 : List UInt8
  segmentRows : Nat
  rowGroupRows : List Nat
  indexedColumnOrdinals : List Nat
  blocks : BlockMap EncodedPredicateBlock

namespace PredicateSidecarFile

/-- The state of the loop of `new`: the indexed columns and the blocks by key. -/
abbrev Collected := ExtTreeSet Nat Ord.compare × BlockMap EncodedPredicateBlock

/-- One turn of the loop of `new`. -/
def addBlock (rowGroupCount : Nat) (rowGroupRows : List Nat) (state : Collected)
    (entry : PredicateSidecarBlock) : Result Collected := do
  let message := "predicate block row-group binding mismatch"
  corruptIf (rowGroupCount ≤ entry.rowGroup.toNat) message
  let rows ← index rowGroupRows entry.rowGroup.toNat
  corruptIf (entry.rowCount ≠ rows) message
  corruptIf (entry.key ∈ state.2) "duplicate predicate block directory key"
  pure (state.1.insert entry.columnOrdinal.toNat, state.2.insert entry.key entry.block)

/-- A file of blocks, whose places and row counts must agree with the row groups. -/
def new (schemaFingerprint segmentSha256 : List UInt8) (segmentRows : UInt64)
    (groupRows : List UInt32) (blocks : List PredicateSidecarBlock) :
    Result PredicateSidecarFile := do
  let rowGroupRows := groupRows.map UInt32.toNat
  let _decoded ← decodeSha256 schemaFingerprint
  let _decoded ← decodeSha256 segmentSha256
  validateRowGroups segmentRows.toNat rowGroupRows
  corruptIf (blocks = []) "predicate sidecar contains no blocks"
  let rowGroupCount ← orTooLarge 32 rowGroupRows.length
  let state ← blocks.foldlM (addBlock rowGroupCount rowGroupRows) (∅, ∅)
  pure {
    schemaFingerprint := toAsciiLowercase schemaFingerprint
    segmentSha256 := toAsciiLowercase segmentSha256
    segmentRows := segmentRows.toNat
    rowGroupRows
    indexedColumnOrdinals := state.1.toList
    blocks := state.2 }

/-- The header of the file, and its size. -/
def layout (file : PredicateSidecarFile) : Result (FileHeader × Nat) := do
  let rowGroupCount ← orTooLarge 32 file.rowGroupRows.length
  let indexedColumnCount ← orTooLarge 32 file.indexedColumnOrdinals.length
  let blockCount ← orTooLarge 32 file.blocks.size
  let rowGroupLen ← mul 64 rowGroupCount 4
  let columnOrdinalsOffset ← add 64 WholeFile.headerBytes rowGroupLen
  let columnLen ← mul 64 indexedColumnCount 4
  let directoryOffset ← add 64 columnOrdinalsOffset columnLen
  let directoryLen ← mul 64 blockCount WholeFile.directoryEntryBytes
  let payloadOffset ← orTooLarge 64 (directoryOffset + directoryLen)
  let total ← (file.blocks.toList.map Prod.snd).foldlM (fun total block => do
    let length ← orTooLarge 64 block.bytes.length
    orTooLarge 64 (total + length)) payloadOffset
  let schemaFingerprint ← decodeSha256 file.schemaFingerprint
  let segmentSha256 ← decodeSha256 file.segmentSha256
  let totalBytes ← usizeFromU64 total
  pure ({
    schemaFingerprint, segmentSha256, segmentRows := file.segmentRows, rowGroupCount
    indexedColumnCount, blockCount, rowGroupRowsOffset := WholeFile.headerBytes
    columnOrdinalsOffset, directoryOffset }, totalBytes)

/-- The state of the loop that writes the directory: the bytes and the next offset. -/
def writeEntry (sha : Sha256) (rowGroupRows : List Nat) (state : List UInt8 × Nat)
    (block : BlockKey × EncodedPredicateBlock) : Result (List UInt8 × Nat) := do
  let length ← orTooLarge 64 block.2.bytes.length
  let rowCount ← index rowGroupRows block.1.rowGroup
  let entry : DirectoryEntry := {
    rowGroup := block.1.rowGroup
    columnOrdinal := block.1.columnOrdinal
    rowCount
    offset := state.2
    length
    sha256 := sha.digest block.2.bytes }
  let offset ← orTooLarge 64 (state.2 + length)
  pure (state.1 ++ entry.write, offset)

/-- `to_bytes`.  An allocation is at most `isize::MAX` bytes. -/
def toBytes (sha : Sha256) (file : PredicateSidecarFile) : Result (List UInt8) := do
  let layout ← file.layout
  failIf (2 ^ 63 ≤ layout.2) .tooLarge
  let tables := layout.1.write ++ file.rowGroupRows.flatMap (bytes 4) ++
    file.indexedColumnOrdinals.flatMap (bytes 4)
  let offset ← layout.1.payloadOffset
  let state ← file.blocks.toList.foldlM (writeEntry sha file.rowGroupRows) (tables, offset)
  pure (state.1 ++ file.blocks.toList.flatMap fun block => block.2.bytes)

/-- `PredicateSidecarIndex::decode_block`: the block of an entry, with its checksum. -/
def decodeEntry (sha : Sha256) (entry : PredicateBlockEntry) (bytes : List UInt8) :
    Result EncodedPredicateBlock := do
  corruptIf (bytes.length ≠ entry.length ∨ sha.digest bytes ≠ entry.sha256)
    "predicate block checksum or length mismatch"
  let block ← EncodedPredicateBlock.fromBytes bytes
  let rows ← block.rowCount
  corruptIf (fits 32 rows ≠ some entry.rowCount) "predicate block row count mismatch"
  pure block

/-- One turn of the loop of `from_bytes`. -/
def readBlock (sha : Sha256) (bytes : List UInt8) (blocks : BlockMap EncodedPredicateBlock)
    (entry : BlockKey × PredicateBlockEntry) : Result (BlockMap EncodedPredicateBlock) := do
  let range ← entry.2.byteRange
  let blockBytes ← orFail (range? bytes range.1 range.2)
    (.corrupt "predicate block range is outside the file")
  let block ← decodeEntry sha entry.2 blockBytes
  pure (blocks.insert entry.1 block)

/-- A whole file: its index, its blocks and their digests are checked. -/
def fromBytes (sha : Sha256) (bytes : List UInt8) : Result PredicateSidecarFile := do
  let prefixLen ← PredicateSidecarIndex.metadataPrefixLen bytes
  let metadata ← orFail (range? bytes 0 prefixLen)
    (.corrupt "truncated predicate sidecar metadata")
  let total ← orTooLarge 64 bytes.length
  let index ← PredicateSidecarIndex.fromMetadata metadata total
  let blocks ← index.entries.toList.foldlM (readBlock sha bytes) ∅
  pure {
    schemaFingerprint := index.schemaFingerprint
    segmentSha256 := index.segmentSha256
    segmentRows := index.segmentRows
    rowGroupRows := index.rowGroupRows
    indexedColumnOrdinals := index.indexedColumnOrdinals
    blocks }

end PredicateSidecarFile

end RustDb.Sidecar
