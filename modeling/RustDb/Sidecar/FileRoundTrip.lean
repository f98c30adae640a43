import Mathlib.Algebra.Order.BigOperators.Group.List
import RustDb.Sidecar.FileParts

/-!
# Writing a sidecar file and reading it back

* `PredicateSidecarFile.Sound`: what `new` guarantees of a file (`new_sound`).
* `toBytes_eq_ok`: a file is written exactly when its counts and its size fit, as
  `image`: the header, the tables, the directory and the blocks.
* `Acceptable`: a directory that the loop of `from_metadata` accepts, turn by turn
  (`Acceptable.addEntry`) and so as a whole (`Acceptable.loop`).
* `fromBytes_image`: the image reads back as the file.
-/

namespace RustDb.Sidecar

open Std List DirectoryEntry PredicateSidecarIndex Except
open RustDb.Lib RustDb.Lib.Checked RustDb.Lib.LittleEndian
open WholeFile

/-! ## Files that `new` builds -/

/-- The text of 32 bytes, in lower case. -/
def IsFingerprint (text decoded : List UInt8) : Prop :=
  decodeSha256 text = .ok decoded ∧ decoded.length = 32 ∧ encodeSha256 decoded = text

theorem isFingerprint_of_decode {text decoded : List UInt8}
    (h : decodeSha256 text = .ok decoded) :
    IsFingerprint (toAsciiLowercase text) decoded := by
  obtain ⟨hlength, hencode, hdecode⟩ := decodeSha256_spec h
  exact ⟨hdecode, hlength, hencode⟩

/-- The blocks have the rows of their row groups, and `columns` are the columns of the
blocks. -/
structure Bound (rowGroupRows : List Nat) (blocks : BlockMap EncodedPredicateBlock)
    (columns : Nat → Prop) : Prop where
  rows : ∀ {key : BlockKey} {block : EncodedPredicateBlock}, blocks[key]? = some block →
    ∃ rows : Nat, rowGroupRows[key.rowGroup]? = some rows ∧ block.rowCount = .ok rows
  columns_lt : ∀ {key : BlockKey} {block : EncodedPredicateBlock}, blocks[key]? = some block →
    key.columnOrdinal < 2 ^ 32
  columns_iff : ∀ column, columns column ↔
    ∃ (key : BlockKey) (block : EncodedPredicateBlock), blocks[key]? = some block ∧
      key.columnOrdinal = column

namespace PredicateSidecarFile

variable {rowGroupCount : Nat} {rowGroupRows : List Nat} {state state' : Collected}
  {entry : PredicateSidecarBlock}

theorem addBlock_eq_ok (h : addBlock rowGroupCount rowGroupRows state entry = .ok state') :
    rowGroupRows[entry.key.rowGroup]? = some entry.rowCount ∧ entry.key ∉ state.2 ∧
      state' = (state.1.insert entry.key.columnOrdinal,
        state.2.insert entry.key entry.block) := by
  simp only [addBlock, corruptIf, bind_eq_ok, index_eq_ok, failIf_eq_ok, not_not, ne_eq,
    exists_and_left, exists_const] at h
  obtain ⟨-, rows, hrows, rfl, hnew, ⟨⟩⟩ := h
  exact ⟨hrows, hnew, rfl⟩

/-- One turn of the loop of `new` keeps the blocks bound. -/
theorem Bound.addBlock (hbound : Bound rowGroupRows state.2 (· ∈ state.1))
    (h : addBlock rowGroupCount rowGroupRows state entry = .ok state') :
    Bound rowGroupRows state'.2 (· ∈ state'.1) := by
  obtain ⟨hrows, hnew, rfl⟩ := addBlock_eq_ok h
  refine ⟨fun hblock => ?_, fun hblock => ?_, fun column => ?_⟩
  · rcases getElem?_insert_eq_some.mp hblock with ⟨rfl, rfl⟩ | ⟨-, hblock⟩
    · exact ⟨entry.rowCount, hrows, entry.rowCount_eq⟩
    · exact hbound.rows hblock
  · rcases getElem?_insert_eq_some.mp hblock with ⟨rfl, rfl⟩ | ⟨-, hblock⟩
    · exact entry.columnOrdinal.toNat_lt
    · exact hbound.columns_lt hblock
  · rw [ExtTreeSet.mem_insert, Std.compare_eq_iff_eq, hbound.columns_iff]
    constructor
    · rintro (rfl | ⟨key, block, hblock, rfl⟩)
      · exact ⟨entry.key, entry.block, ExtTreeMap.getElem?_insert_self, rfl⟩
      · refine ⟨key, block, getElem?_insert_eq_some.mpr (.inr ⟨?_, hblock⟩), rfl⟩
        rintro rfl
        exact hnew (mem_iff_exists_getElem?.mpr ⟨block, hblock⟩)
    · rintro ⟨key, block, hblock, rfl⟩
      rcases getElem?_insert_eq_some.mp hblock with ⟨rfl, -⟩ | ⟨-, hblock⟩
      · exact .inl rfl
      · exact .inr ⟨key, block, hblock, rfl⟩

variable {blocks : List PredicateSidecarBlock}

/-- The loop of `new` keeps the blocks bound. -/
theorem Bound.foldlM (hbound : Bound rowGroupRows state.2 (· ∈ state.1))
    (h : blocks.foldlM (PredicateSidecarFile.addBlock rowGroupCount rowGroupRows) state =
      .ok state') :
    Bound rowGroupRows state'.2 (· ∈ state'.1) ∧
      (blocks ≠ [] ∨ state.2 ≠ ∅ → state'.2 ≠ ∅) := by
  induction blocks generalizing state with
  | nil =>
    cases h
    exact ⟨hbound, fun hne => hne.resolve_left (fun hnil => hnil rfl)⟩
  | cons entry blocks ih =>
    rw [foldlM_cons] at h
    obtain ⟨next, hnext, h⟩ := bind_eq_ok.mp h
    obtain ⟨hbound', hne⟩ := ih (Bound.addBlock hbound hnext) h
    refine ⟨hbound', fun _ => hne (.inr ?_)⟩
    obtain ⟨-, -, rfl⟩ := addBlock_eq_ok hnext
    exact ExtTreeMap.insert_ne_empty

/-- What `new` guarantees of a file. -/
structure Sound (file : PredicateSidecarFile) : Prop where
  schemaFingerprint : ∃ decoded, IsFingerprint file.schemaFingerprint decoded
  segmentSha256 : ∃ decoded, IsFingerprint file.segmentSha256 decoded
  rowGroups : validateRowGroups file.segmentRows file.rowGroupRows = .ok ()
  rows_lt : ∀ rows ∈ file.rowGroupRows, rows < 2 ^ 32
  groups_lt : file.rowGroupRows.length < 2 ^ 32
  blocks_ne : file.blocks ≠ ∅
  bound : Bound file.rowGroupRows file.blocks (· ∈ file.indexedColumnOrdinals)
  ordered : file.indexedColumnOrdinals.Pairwise (· < ·)

theorem new_sound {schemaFingerprint segmentSha256 : List UInt8} {segmentRows : UInt64}
    {groupRows : List UInt32} {file : PredicateSidecarFile}
    (h : new schemaFingerprint segmentSha256 segmentRows groupRows blocks = .ok file) :
    file.Sound := by
  simp only [new, corruptIf, bind_eq_ok, failIf_eq_ok, orTooLarge_eq_ok, exists_and_left,
    exists_const] at h
  obtain ⟨schema, hschema, segment, hsegment, _, hgroups, hblocks, count, ⟨hlt, rfl⟩, state,
    hloop, ⟨⟩⟩ := h
  have hempty : Bound (groupRows.map UInt32.toNat) (∅ : BlockMap EncodedPredicateBlock)
      (· ∈ (∅ : ExtTreeSet Nat Ord.compare)) := by
    constructor <;> simp
  obtain ⟨hbound, hne⟩ := Bound.foldlM hempty hloop
  refine {
    schemaFingerprint := ⟨schema, isFingerprint_of_decode hschema⟩
    segmentSha256 := ⟨segment, isFingerprint_of_decode hsegment⟩
    rowGroups := hgroups
    rows_lt := ?_
    groups_lt := hlt
    blocks_ne := hne (.inl hblocks)
    bound := ⟨hbound.rows, hbound.columns_lt, ?_⟩
    ordered := ?_ }
  · intro rows hrows
    obtain ⟨r, -, rfl⟩ := mem_map.mp hrows
    exact r.toNat_lt
  · intro column
    exact ExtTreeSet.mem_toList.trans (hbound.columns_iff column)
  · refine ExtTreeSet.ordered_toList.imp fun h => ?_
    exact Nat.compare_eq_lt.mp h

/-! ## What is written -/

/-- The blocks, one after the other. -/
def payload (blocks : List (BlockKey × EncodedPredicateBlock)) : List UInt8 :=
  blocks.flatMap fun block => block.2.bytes

/-- The directory entry of a block that lies at `offset`. -/
def entryOf (sha : Sha256) (rowGroupRows : List Nat) (offset : Nat)
    (block : BlockKey × EncodedPredicateBlock) : DirectoryEntry where
  rowGroup := block.1.rowGroup
  columnOrdinal := block.1.columnOrdinal
  rowCount := rowGroupRows[block.1.rowGroup]?.getD 0
  offset
  length := block.2.bytes.length
  sha256 := sha.digest block.2.bytes

/-- The directory of blocks that lie one after the other from `offset`. -/
def directoryOf (sha : Sha256) (rowGroupRows : List Nat) :
    Nat → List (BlockKey × EncodedPredicateBlock) → List DirectoryEntry
  | _, [] => []
  | offset, block :: blocks =>
    entryOf sha rowGroupRows offset block ::
      directoryOf sha rowGroupRows (offset + block.2.bytes.length) blocks

theorem length_payload_cons (block : BlockKey × EncodedPredicateBlock)
    (blocks : List (BlockKey × EncodedPredicateBlock)) :
    (payload (block :: blocks)).length = block.2.bytes.length + (payload blocks).length := by
  rw [payload, flatMap_cons, length_append]
  rfl

theorem length_directoryOf (sha : Sha256) (rowGroupRows : List Nat) (offset : Nat)
    (blocks : List (BlockKey × EncodedPredicateBlock)) :
    (directoryOf sha rowGroupRows offset blocks).length = blocks.length := by
  induction blocks generalizing offset with
  | nil => rfl
  | cons block blocks ih => rw [directoryOf, length_cons, ih, length_cons]

variable {blocks : List (BlockKey × EncodedPredicateBlock)} {offset : Nat}

/-- The loop over the blocks writes the directory. -/
theorem foldlM_writeEntry (sha : Sha256)
    (hrows : ∀ block ∈ blocks, ∃ rows, rowGroupRows[block.1.rowGroup]? = some rows)
    (written : List UInt8) (hlt : offset + (payload blocks).length < 2 ^ 64) :
    blocks.foldlM (writeEntry sha rowGroupRows) (written, offset) =
      .ok (written ++ (directoryOf sha rowGroupRows offset blocks).flatMap write,
        offset + (payload blocks).length) := by
  induction blocks generalizing written offset with
  | nil =>
    rw [directoryOf, flatMap_nil, append_nil]
    rfl
  | cons block blocks ih =>
    obtain ⟨rows, hrow⟩ := hrows block (mem_cons_self ..)
    rw [length_payload_cons] at hlt ⊢
    have hstep : writeEntry sha rowGroupRows (written, offset) block =
        .ok (written ++ (entryOf sha rowGroupRows offset block).write,
          offset + block.2.bytes.length) := by
      unfold writeEntry
      rw [orTooLarge_eq (by omega), ok_bind, index_eq hrow, ok_bind, orTooLarge_eq (by omega),
        ok_bind, entryOf, hrow]
      rfl
    rw [foldlM_cons, hstep, ok_bind,
      ih (fun block hblock => hrows block (mem_cons_of_mem _ hblock)) _ (by omega),
      directoryOf, flatMap_cons, append_assoc, add_assoc]

section Image

variable (file : PredicateSidecarFile)

/-- The offset of the directory. -/
def directoryStart : Nat :=
  WholeFile.headerBytes + file.rowGroupRows.length * 4 + file.indexedColumnOrdinals.length * 4

/-- The offset of the blocks. -/
def payloadStart : Nat :=
  file.directoryStart + file.blocks.size * WholeFile.directoryEntryBytes

/-- The size of the file in bytes. -/
def size : Nat := file.payloadStart + (payload file.blocks.toList).length

/-- The file can be written: its blocks can be counted, and its bytes allocated. -/
def Fits : Prop := file.blocks.size < 2 ^ 32 ∧ file.size < 2 ^ 63

/-- The header of the file with its decoded fingerprints. -/
def headerOf (schemaFingerprint segmentSha256 : List UInt8) : FileHeader where
  schemaFingerprint
  segmentSha256
  segmentRows := file.segmentRows
  rowGroupCount := file.rowGroupRows.length
  indexedColumnCount := file.indexedColumnOrdinals.length
  blockCount := file.blocks.size
  rowGroupRowsOffset := WholeFile.headerBytes
  columnOrdinalsOffset := WholeFile.headerBytes + file.rowGroupRows.length * 4
  directoryOffset := file.directoryStart

/-- The entries that the file is written with. -/
def directory (sha : Sha256) : List DirectoryEntry :=
  directoryOf sha file.rowGroupRows file.payloadStart file.blocks.toList

/-- The sections before the blocks. -/
def metadata (sha : Sha256) (schemaFingerprint segmentSha256 : List UInt8) : List UInt8 :=
  (file.headerOf schemaFingerprint segmentSha256).write ++
    file.rowGroupRows.flatMap (bytes 4) ++ file.indexedColumnOrdinals.flatMap (bytes 4) ++
    (file.directory sha).flatMap write

/-- The bytes of the file. -/
def image (sha : Sha256) (schemaFingerprint segmentSha256 : List UInt8) : List UInt8 :=
  file.metadata sha schemaFingerprint segmentSha256 ++ payload file.blocks.toList

end Image

variable {file : PredicateSidecarFile} {schema segment : List UInt8}

/-- Every indexed column has a block, so there are not more columns than blocks. -/
theorem Sound.columns_le (hsound : file.Sound) :
    file.indexedColumnOrdinals.length ≤ file.blocks.size := by
  have hnodup : file.indexedColumnOrdinals.Nodup := hsound.ordered.imp Nat.ne_of_lt
  have hsubset : file.indexedColumnOrdinals ⊆ file.blocks.keys.map BlockKey.columnOrdinal := by
    intro column hcolumn
    obtain ⟨key, block, hblock, rfl⟩ := (hsound.bound.columns_iff column).mp hcolumn
    have hkey := mem_iff_exists_getElem?.mpr ⟨block, hblock⟩
    exact mem_map_of_mem (ExtTreeMap.mem_keys.mpr hkey)
  have hle := (subperm_of_subset hnodup hsubset).length_le
  rw [length_map, ExtTreeMap.length_keys] at hle
  exact hle

/-- A block lies in a row group and an indexed column. -/
theorem Sound.blocks_le (hsound : file.Sound) :
    file.blocks.size ≤ file.rowGroupRows.length * file.indexedColumnOrdinals.length := by
  have hnodup : file.blocks.keys.Nodup := ExtTreeMap.nodup_keys
  have hsubset : file.blocks.keys ⊆
      (range file.rowGroupRows.length ×ˢ file.indexedColumnOrdinals).map
        fun slot => { rowGroup := slot.1, columnOrdinal := slot.2 } := by
    intro key hkey
    obtain ⟨block, hblock⟩ := mem_iff_exists_getElem?.mp (ExtTreeMap.mem_keys.mp hkey)
    obtain ⟨rows, hrows, -⟩ := hsound.bound.rows hblock
    have hcolumn := (hsound.bound.columns_iff key.columnOrdinal).mpr ⟨key, block, hblock, rfl⟩
    have hgroup := (List.getElem?_eq_some_iff.mp hrows).1
    refine mem_map.mpr ⟨(key.rowGroup, key.columnOrdinal), ?_, rfl⟩
    exact pair_mem_product.mpr ⟨mem_range.mpr hgroup, hcolumn⟩
  have hle := (subperm_of_subset hnodup hsubset).length_le
  rw [ExtTreeMap.length_keys, length_map, length_product, length_range] at hle
  exact hle

theorem Sound.columns_ne (hsound : file.Sound) : file.indexedColumnOrdinals ≠ [] := by
  intro hnil
  have hle := hsound.blocks_le
  rw [hnil, length_nil, mul_zero] at hle
  exact hsound.blocks_ne (ExtTreeMap.eq_empty_iff_size_eq_zero.mpr (Nat.le_zero.mp hle))

variable {total : Nat}

/-- The size of the file is computed without overflow, or refused. -/
theorem foldlM_total_eq_ok (hoffset : offset < 2 ^ 64) :
    (blocks.map Prod.snd).foldlM (fun total block => do
        let length ← orTooLarge 64 block.bytes.length
        orTooLarge 64 (total + length)) offset = .ok total ↔
      offset + (payload blocks).length < 2 ^ 64 ∧ total = offset + (payload blocks).length := by
  -- the length of a block is refused alone only where the sum is refused too
  have hbody (total length : Nat) : (orTooLarge 64 length >>= fun length =>
      orTooLarge 64 (total + length)) = orTooLarge 64 (total + length) := by
    by_cases hlt : length < 2 ^ 64
    · rw [orTooLarge_eq hlt, ok_bind]
    · rw [orTooLarge, orTooLarge, fits, fits, if_neg hlt, if_neg (by omega)]
      rfl
  rw [payload, length_flatMap, ← foldlM_sum_eq_ok hoffset, foldlM_map, foldlM_map]
  simp only [hbody]

theorem layout_eq_ok (hsound : file.Sound) (hschema : decodeSha256 file.schemaFingerprint =
      .ok schema) (hsegment : decodeSha256 file.segmentSha256 = .ok segment)
    {result : FileHeader × Nat} :
    file.layout = .ok result ↔ file.blocks.size < 2 ^ 32 ∧ file.size < 2 ^ 64 ∧
      result = (file.headerOf schema segment, file.size) := by
  have hgroups := hsound.groups_lt
  have hcolumns := hsound.columns_le
  simp only [layout, usizeFromU64, bind_eq_ok, orTooLarge_eq_ok, mul_eq_ok, add_eq_ok, hschema,
    hsegment, ok.injEq, and_assoc, exists_and_left, exists_eq_left, exists_eq_left']
  constructor
  · rintro ⟨-, -, hcount, -, -, -, -, -, hlt, total, htotal, -, h⟩
    obtain ⟨hlt, rfl⟩ := (foldlM_total_eq_ok hlt).mp htotal
    exact ⟨hcount, hlt, (ok.inj h).symm⟩
  · rintro ⟨hcount, hlt, rfl⟩
    have hsize := hlt
    unfold size payloadStart directoryStart at hsize
    exact ⟨hgroups, by omega, hcount, by omega, by omega, by omega, by omega, by omega,
      by omega, _, (foldlM_total_eq_ok (by omega)).mpr ⟨hlt, rfl⟩, hlt, rfl⟩

theorem payloadOffset_headerOf (hlt : file.payloadStart < 2 ^ 64) :
    (file.headerOf schema segment).payloadOffset = .ok file.payloadStart := by
  have hlen : file.blocks.size * WholeFile.directoryEntryBytes < 2 ^ 64 :=
    Nat.lt_of_le_of_lt (Nat.le_add_left ..) hlt
  rw [FileHeader.payloadOffset]
  refine bind_eq_ok.mpr ⟨_, mul_eq hlen, ?_⟩
  exact orTooLarge_eq hlt

theorem Sound.blocks_spec (hsound : file.Sound) : ∀ block ∈ file.blocks.toList, ∃ rows,
    file.rowGroupRows[block.1.rowGroup]? = some rows ∧ block.2.rowCount = .ok rows ∧
      rows < 2 ^ 32 := by
  intro block hblock
  obtain ⟨rows, hrows, hcount⟩ :=
    hsound.bound.rows (ExtTreeMap.mem_toList_iff_getElem?_eq_some.mp hblock)
  exact ⟨rows, hrows, hcount, hsound.rows_lt rows (mem_of_getElem? hrows)⟩

/-- A file is written exactly when it fits, as its image. -/
theorem toBytes_eq_ok {sha : Sha256} (hsound : file.Sound)
    (hschema : decodeSha256 file.schemaFingerprint = .ok schema)
    (hsegment : decodeSha256 file.segmentSha256 = .ok segment) {bytes : List UInt8} :
    toBytes sha file = .ok bytes ↔ file.Fits ∧ bytes = file.image sha schema segment := by
  have hwrite (hlt : file.size < 2 ^ 63) := foldlM_writeEntry sha
    (fun block hblock => (hsound.blocks_spec block hblock).imp fun _ h => h.1)
    ((file.headerOf schema segment).write ++ file.rowGroupRows.flatMap (LittleEndian.bytes 4) ++
      file.indexedColumnOrdinals.flatMap (LittleEndian.bytes 4))
    (show file.payloadStart + _ < 2 ^ 64 from Nat.lt_trans hlt (by decide))
  have hstart (hlt : file.size < 2 ^ 63) : file.payloadStart < 2 ^ 64 :=
    Nat.lt_of_le_of_lt (Nat.le_add_right ..) (Nat.lt_trans hlt (by decide))
  simp only [toBytes, bind_eq_ok, layout_eq_ok hsound hschema hsegment, failIf_eq_ok, and_assoc,
    exists_and_left, exists_const, exists_eq_left, Nat.not_le, Fits]
  constructor
  · rintro ⟨hcount, -, hlt, h⟩
    rw [payloadOffset_headerOf (hstart hlt)] at h
    obtain ⟨_, ⟨⟩, _, h, ⟨⟩⟩ := h
    cases (hwrite hlt).symm.trans h
    exact ⟨hcount, hlt, rfl⟩
  · rintro ⟨hcount, hlt, rfl⟩
    exact ⟨hcount, Nat.lt_trans hlt (by decide), hlt, _, payloadOffset_headerOf (hstart hlt), _,
      hwrite hlt, rfl⟩

/-! ## The directory is accepted -/

/-- A directory in the metadata that the loop of `from_metadata` accepts. -/
structure Acceptable (metadata : List UInt8) (header : FileHeader)
    (rowGroupRows ordinals : List Nat) (start total : Nat)
    (entries : List DirectoryEntry) : Prop where
  read : ∀ {i entry}, entries[i]? = some entry → entryAt metadata header i = .ok entry
  ordered : entries.Pairwise fun a b => BlockKey.cmp a.key b.key = .lt
  tiled : Tiled start total (entries.map range)
  rows_eq : ∀ entry ∈ entries, rowGroupRows[entry.rowGroup]? = some entry.rowCount
  indexed : ∀ entry ∈ entries, entry.columnOrdinal ∈ ordinals
  groups_eq : rowGroupRows.length = header.rowGroupCount
  directory_lt : header.directoryOffset + entries.length * WholeFile.directoryEntryBytes <
    2 ^ 64
  total_lt : total < 2 ^ 64

section Accepted

variable {metadata : List UInt8} {header : FileHeader} {rowGroupRows ordinals : List Nat}
  {start total : Nat} {state : IndexState} {past rest : List DirectoryEntry}

/-- The next entry passes the checks of the loop. -/
theorem Acceptable.addEntry {entry : DirectoryEntry}
    (hi : Indexed rowGroupRows ordinals start state past)
    (hall : Acceptable metadata header rowGroupRows ordinals start total
      (past ++ entry :: rest)) :
    ∃ state', addEntry metadata total header rowGroupRows ordinals state
      past.length = .ok state' := by
  have hmem : entry ∈ past ++ entry :: rest :=
    mem_append_right _ (mem_cons_self ..)
  have hread : entryAt metadata header past.length = .ok entry :=
    hall.read (by rw [getElem?_append_right (Nat.le_refl _), Nat.sub_self]; rfl)
  have hrows := hall.rows_eq entry hmem
  have hgroup := (List.getElem?_eq_some_iff.mp hrows).1
  rw [hall.groups_eq] at hgroup
  have hlength : (past ++ entry :: rest).length = past.length + (rest.length + 1) := by
    rw [length_append, length_cons]
  -- the entry starts where the loop stands
  have htiled := hall.tiled
  rw [map_append] at htiled
  obtain ⟨middle, hpast, hoffset, hpos, hrest⟩ := htiled.of_append
  have hcursor := hpast.stop_unique hi.tiled
  subst hcursor
  have hstop : entry.offset + entry.length ≤ total := by
    rw [show entry.offset = _ from hoffset]
    exact hrest.le
  have hdirectory := hall.directory_lt
  have htotal := hall.total_lt
  rw [hlength, add_mul] at hdirectory
  refine ⟨_, addEntry_eq_ok.mpr ⟨by omega, entry, hread, hgroup, hall.indexed entry hmem, hrows,
    hoffset, hpos, ?_, by omega, hstop, rfl⟩⟩
  -- the previous key is that of the last entry
  intro previous hprevious
  rw [hi.previous_eq, Option.map_eq_some_iff] at hprevious
  obtain ⟨last, hlast, rfl⟩ := hprevious
  exact (pairwise_append.mp hall.ordered).2.2 last (mem_of_getLast? hlast) entry
    (mem_cons_self ..)

/-- The loop accepts the rest of the directory. -/
theorem Acceptable.foldlM (hi : Indexed rowGroupRows ordinals start state past)
    (hall : Acceptable metadata header rowGroupRows ordinals start total (past ++ rest)) :
    ∃ state', (range' past.length rest.length).foldlM
      (PredicateSidecarIndex.addEntry metadata total header rowGroupRows ordinals) state =
        .ok state' ∧ Indexed rowGroupRows ordinals start state' (past ++ rest) := by
  induction rest generalizing state past with
  | nil =>
    refine ⟨state, rfl, ?_⟩
    rw [append_nil]
    exact hi
  | cons entry rest ih =>
    obtain ⟨next, hnext⟩ := Acceptable.addEntry hi hall
    obtain ⟨read, hread, hi⟩ := hi.addEntry hnext
    have heq : entryAt metadata header past.length = .ok entry :=
      hall.read (by rw [getElem?_append_right (Nat.le_refl _), Nat.sub_self]; rfl)
    cases hread.symm.trans heq
    rw [append_cons] at hall
    obtain ⟨state', hloop, hi⟩ := ih hi hall
    rw [length_append, length_singleton] at hloop
    refine ⟨state', ?_, ?_⟩
    · rw [length_cons, range'_succ, foldlM_cons, hnext, ok_bind]
      exact hloop
    · rw [append_cons]
      exact hi

end Accepted

/-! ## The image reads back -/

/-- A block is not empty. -/
theorem EncodedPredicateBlock.length_pos (block : EncodedPredicateBlock) :
    0 < block.bytes.length := by
  obtain ⟨bytes, hvalid⟩ := block
  cases bytes with
  | nil => cases hvalid
  | cons byte bytes => exact Nat.succ_pos _

theorem EncodedPredicateBlock.fromBytes_bytes (block : EncodedPredicateBlock) :
    EncodedPredicateBlock.fromBytes block.bytes = .ok block := by
  have hvalid := block.valid
  unfold EncodedPredicateBlock.fromBytes
  split
  · rfl
  · next e he =>
    rw [he] at hvalid
    cases hvalid

section Read

variable {sha : Sha256} {rowGroupRows : List Nat}

section

variable (offset : Nat) (blocks : List (BlockKey × EncodedPredicateBlock))

theorem tiled_directoryOf : Tiled offset (offset + (payload blocks).length)
      ((directoryOf sha rowGroupRows offset blocks).map range) := by
  induction blocks generalizing offset with
  | nil => rfl
  | cons block blocks ih =>
    rw [length_payload_cons, ← add_assoc]
    exact ⟨rfl, EncodedPredicateBlock.length_pos block.2, ih _⟩

theorem map_key_directoryOf :
    (directoryOf sha rowGroupRows offset blocks).map key =
      blocks.map Prod.fst := by
  induction blocks generalizing offset with
  | nil => rfl
  | cons block blocks ih => rw [directoryOf, map_cons, ih, map_cons]; rfl

end

variable {offset : Nat} {blocks : List (BlockKey × EncodedPredicateBlock)}

/-- Every entry is that of a block, at an offset in the file. -/
theorem mem_directoryOf {entry : DirectoryEntry}
    (h : entry ∈ directoryOf sha rowGroupRows offset blocks) :
    ∃ block ∈ blocks, ∃ position, entry = entryOf sha rowGroupRows position block ∧
      position + block.2.bytes.length ≤ offset + (payload blocks).length := by
  induction blocks generalizing offset with
  | nil => cases h
  | cons block blocks ih =>
    rw [length_payload_cons]
    rcases mem_cons.mp h with rfl | h
    · exact ⟨block, mem_cons_self .., offset, rfl, by omega⟩
    · obtain ⟨found, hfound, position, heq, hle⟩ := ih h
      exact ⟨found, mem_cons_of_mem _ hfound, position, heq, by omega⟩

/-- The loop of `from_bytes` reads every block back. -/
theorem foldlM_readBlock (sha : Sha256) {bytes before : List UInt8}
    (hbytes : bytes = before ++ payload blocks) (hoffset : before.length = offset)
    (hlt : offset + (payload blocks).length < 2 ^ 64)
    (hrows : ∀ block ∈ blocks, ∃ rows, rowGroupRows[block.1.rowGroup]? = some rows ∧
      block.2.rowCount = .ok rows ∧ rows < 2 ^ 32) (found : BlockMap EncodedPredicateBlock) :
    ((directoryOf sha rowGroupRows offset blocks).map
        fun entry => (entry.key, entry.block)).foldlM (readBlock sha bytes) found =
      .ok (blocks.foldl (fun found block => found.insert block.1 block.2) found) := by
  induction blocks generalizing before offset found with
  | nil => rfl
  | cons block blocks ih =>
    obtain ⟨rows, hrow, hcount, hrowsLt⟩ := hrows block (mem_cons_self ..)
    rw [length_payload_cons] at hlt
    have hsplit : bytes = before ++ block.2.bytes ++ payload blocks := by
      rw [hbytes, payload, flatMap_cons, append_assoc]
      rfl
    have hrange : range? bytes offset (offset + block.2.bytes.length) = some block.2.bytes := by
      rw [hsplit, append_assoc, ← hoffset]
      exact range?_append ..
    have hdecode : decodeEntry sha (entryOf sha rowGroupRows offset block).block
        block.2.bytes = .ok block.2 := by
      simp [decodeEntry, corruptIf, EncodedPredicateBlock.fromBytes_bytes, hcount,
        DirectoryEntry.block, entryOf, hrow]
      omega
    have hstep : readBlock sha bytes found ((entryOf sha rowGroupRows offset block).key,
        (entryOf sha rowGroupRows offset block).block) = .ok (found.insert block.1 block.2) := by
      have hbyteRange : (entryOf sha rowGroupRows offset block).block.byteRange =
          .ok (offset, offset + block.2.bytes.length) := by
        simp [PredicateBlockEntry.byteRange, usizeFromU64, DirectoryEntry.block, entryOf]
        omega
      rw [readBlock, hbyteRange, ok_bind, hrange]
      exact bind_eq_ok.mpr ⟨_, rfl, bind_eq_ok.mpr ⟨_, hdecode, rfl⟩⟩
    rw [directoryOf, map_cons, foldlM_cons, hstep, ok_bind, foldl_cons]
    refine ih hsplit ?_ (by omega) ?_ _
    · rw [length_append, hoffset]
    · exact fun block hblock => hrows block (mem_cons_of_mem _ hblock)

end Read

variable {header : FileHeader} {entries : List DirectoryEntry}

/-- The loop accepts the whole directory. -/
theorem Acceptable.loop {metadata : List UInt8} {ordinals : List Nat} {start : Nat}
    (hall : Acceptable metadata header rowGroupRows ordinals start total entries) :
    ∃ state, (range entries.length).foldlM
      (PredicateSidecarIndex.addEntry metadata total header rowGroupRows ordinals)
        { entries := ∅, payloadCursor := start, previousKey := none } = .ok state ∧
      Indexed rowGroupRows ordinals start state entries := by
  rw [range_eq_range']
  exact Acceptable.foldlM (Indexed.empty rowGroupRows ordinals start) hall

theorem length_flatMap_write (hfits : ∀ entry ∈ entries, entry.Fits) :
    (entries.flatMap write).length =
      entries.length * WholeFile.directoryEntryBytes := by
  rw [length_flatMap, map_congr_left fun entry hentry => (hfits entry hentry).length_write]
  simp

/-- An entry of a written directory reads back. -/
theorem entryAt_flatMap_write {before : List UInt8} (hfits : ∀ entry ∈ entries, entry.Fits)
    (hbefore : before.length = header.directoryOffset)
    (hlt : header.directoryOffset + entries.length * WholeFile.directoryEntryBytes < 2 ^ 63)
    {i : Nat} {entry : DirectoryEntry} (hentry : entries[i]? = some entry) :
    entryAt (before ++ entries.flatMap write) header i = .ok entry := by
  obtain ⟨hi, rfl⟩ := List.getElem?_eq_some_iff.mp hentry
  have hsplit : entries.flatMap write =
      (entries.take i).flatMap write ++ (entries[i].write ++
        (entries.drop (i + 1)).flatMap write) := by
    conv_lhs => rw [← take_append_drop i entries, drop_eq_getElem_cons hi]
    rw [flatMap_append, flatMap_cons]
  have hlength : (before ++ (entries.take i).flatMap write).length =
      header.directoryOffset + i * WholeFile.directoryEntryBytes := by
    rw [length_append, hbefore,
      length_flatMap_write fun entry hentry => hfits entry (mem_of_mem_take hentry),
      length_take, Nat.min_eq_left (Nat.le_of_lt hi)]
  have hle := Nat.mul_le_mul_right WholeFile.directoryEntryBytes (Nat.le_of_lt hi)
  rw [entryAt, hsplit, ← append_assoc, ← hlength]
  exact parse_write (hfits _ (getElem_mem hi)) _ _ (by omega)

section Assemble

variable (sha : Sha256) (hsound : file.Sound) (hfits : file.Fits)
  (hschema : IsFingerprint file.schemaFingerprint schema)
  (hsegment : IsFingerprint file.segmentSha256 segment)

include hfits in
theorem Fits.payloadStart_lt : file.payloadStart < 2 ^ 63 :=
  Nat.lt_of_le_of_lt (Nat.le_add_right ..) hfits.2

include hsound hfits hschema hsegment in
theorem headerOf_fits : (file.headerOf schema segment).Fits := by
  have hstart := hfits.payloadStart_lt
  have hcolumns := hsound.columns_le
  have hcount := hfits.1
  unfold payloadStart directoryStart at hstart
  exact {
    schemaFingerprint := hschema.2.1
    segmentSha256 := hsegment.2.1
    segmentRows := (validateRowGroups_eq_ok.mp hsound.rowGroups).2.2.2
    rowGroupCount := hsound.groups_lt
    indexedColumnCount := Nat.lt_of_le_of_lt hcolumns hcount
    blockCount := hcount
    rowGroupRowsOffset := show WholeFile.headerBytes < 2 ^ 64 by decide
    columnOrdinalsOffset := by
      show WholeFile.headerBytes + file.rowGroupRows.length * 4 < _
      omega
    directoryOffset := by
      show WholeFile.headerBytes + file.rowGroupRows.length * 4 +
        file.indexedColumnOrdinals.length * 4 < _
      omega }

include hsound hfits in
theorem directory_fits : ∀ entry ∈ file.directory sha, entry.Fits := by
  intro entry hentry
  obtain ⟨block, hblock, position, rfl, hle⟩ := mem_directoryOf hentry
  obtain ⟨rows, hrows, -, hrowsLt⟩ := hsound.blocks_spec block hblock
  have hcolumn := hsound.bound.columns_lt (ExtTreeMap.mem_toList_iff_getElem?_eq_some.mp hblock)
  have hgroup := (List.getElem?_eq_some_iff.mp hrows).1
  have hgroups := hsound.groups_lt
  have hsize : position + block.2.bytes.length < 2 ^ 63 := Nat.lt_of_le_of_lt hle hfits.2
  exact {
    rowGroup := Nat.lt_trans hgroup hgroups
    columnOrdinal := hcolumn
    rowCount := by
      rw [entryOf, hrows]
      exact hrowsLt
    offset := by
      show position < _
      omega
    length := by
      show block.2.bytes.length < _
      omega
    sha256 := sha.length_digest _ }

theorem length_directory : (file.directory sha).length = file.blocks.size := by
  rw [directory, length_directoryOf, ExtTreeMap.length_toList]

/-- The tables, up to the directory. -/
theorem length_tables (hheader : (file.headerOf schema segment).Fits) :
    ((file.headerOf schema segment).write ++ file.rowGroupRows.flatMap (bytes 4) ++
      file.indexedColumnOrdinals.flatMap (bytes 4)).length = file.directoryStart := by
  rw [length_append, length_append, hheader.length_write, length_flatMap_bytes,
    length_flatMap_bytes]
  rfl

include hsound hfits hschema hsegment in
theorem length_metadata :
    (file.metadata sha schema segment).length = file.payloadStart := by
  have hheader := headerOf_fits hsound hfits hschema hsegment
  rw [metadata, length_append, length_tables hheader,
    length_flatMap_write (directory_fits sha hsound hfits), length_directory]
  rfl

include hsound hfits hschema hsegment in
/-- The directory that was written is accepted. -/
theorem acceptable_directory :
    Acceptable (file.metadata sha schema segment) (file.headerOf schema segment)
      file.rowGroupRows file.indexedColumnOrdinals file.payloadStart file.size
      (file.directory sha) := by
  have hheader := headerOf_fits hsound hfits hschema hsegment
  have hstart := hfits.payloadStart_lt
  have hdirectory : file.directoryStart +
      (file.directory sha).length * WholeFile.directoryEntryBytes < 2 ^ 63 := by
    rw [length_directory]
    exact hstart
  exact {
    read := entryAt_flatMap_write (directory_fits sha hsound hfits) (length_tables hheader)
      hdirectory
    ordered := by
      have hkeys : ((file.directory sha).map key).Pairwise
          fun a b => BlockKey.cmp a b = .lt := by
        rw [directory, map_key_directoryOf]
        exact pairwise_map.mpr ExtTreeMap.ordered_keys_toList
      exact pairwise_map.mp hkeys
    tiled := tiled_directoryOf _ _
    rows_eq := by
      intro entry hentry
      obtain ⟨block, hblock, position, rfl, -⟩ := mem_directoryOf hentry
      obtain ⟨rows, hrows, -⟩ := hsound.blocks_spec block hblock
      rw [entryOf, hrows]
      rfl
    indexed := by
      intro entry hentry
      obtain ⟨block, hblock, position, rfl, -⟩ := mem_directoryOf hentry
      exact (hsound.bound.columns_iff _).mpr
        ⟨block.1, block.2, ExtTreeMap.mem_toList_iff_getElem?_eq_some.mp hblock, rfl⟩
    groups_eq := rfl
    directory_lt := Nat.lt_trans hdirectory (by decide)
    total_lt := Nat.lt_trans hfits.2 (by decide) }

include hsound hfits in
theorem validateLayout_headerOf :
    (file.headerOf schema segment).validateLayout file.size = .ok () := by
  have hstart := hfits.payloadStart_lt
  have hgroups := hsound.groups_lt
  have hcount := hfits.1
  have hcolumnsLe := hsound.columns_le
  have hblocksLe := hsound.blocks_le
  obtain ⟨hne, hzero, hsum, hlt⟩ := validateRowGroups_eq_ok.mp hsound.rowGroups
  have hblocks : file.blocks.size ≠ 0 :=
    fun h => hsound.blocks_ne (ExtTreeMap.eq_empty_iff_size_eq_zero.mpr h)
  have hcolumns := mt length_eq_zero_iff.mp hsound.columns_ne
  have hsegmentRows : file.segmentRows ≠ 0 := by
    rw [← hsum]
    intro h
    obtain ⟨rows, hrows⟩ := exists_mem_of_ne_nil _ hne
    exact hzero (sum_eq_zero_iff.mp h rows hrows ▸ hrows)
  have hslots : file.rowGroupRows.length * file.indexedColumnOrdinals.length < 2 ^ 64 := by
    calc file.rowGroupRows.length * file.indexedColumnOrdinals.length
        ≤ file.rowGroupRows.length * 2 ^ 32 := Nat.mul_le_mul_left _ (by omega)
      _ < 2 ^ 32 * 2 ^ 32 := mul_lt_mul_of_pos_right hgroups (by decide)
      _ = 2 ^ 64 := by decide
  have hdirectory : file.directoryStart < 2 ^ 63 :=
    Nat.lt_of_le_of_lt (Nat.le_add_right ..) hstart
  unfold directoryStart at hdirectory
  simp only [FileHeader.validateLayout, corruptIf, bind_eq_ok, mul_eq_ok, add_eq_ok, failIf_eq_ok,
    payloadOffset_headerOf (Nat.lt_trans hstart (by decide)), not_or, not_not, ne_eq,
    exists_and_left, exists_const, exists_eq_left, and_assoc, ok.injEq, exists_eq_left',
    Nat.not_lt]
  exact ⟨hsegmentRows, fun h => hne (length_eq_zero_iff.mp h), hcolumns, hblocks, rfl,
    show file.rowGroupRows.length * 4 < _ by omega,
    show WholeFile.headerBytes + file.rowGroupRows.length * 4 < _ by omega,
    show file.indexedColumnOrdinals.length * 4 < _ by omega,
    Nat.lt_trans hdirectory (by decide), rfl, rfl, Nat.le_add_right .., hslots, hblocksLe⟩

include hsound in
/-- The ordered columns pass the check of `from_metadata`. -/
theorem Sound.columns_ordered :
    ¬ (file.indexedColumnOrdinals = [] ∨
      (file.indexedColumnOrdinals.zip file.indexedColumnOrdinals.tail).any
        fun pair => pair.2 ≤ pair.1) := by
  rw [not_or, any_eq_true]
  refine ⟨hsound.columns_ne, ?_⟩
  rintro ⟨pair, hpair, hle⟩
  rw [decide_eq_true_eq] at hle
  have hlt : pair.1 < pair.2 := by
    obtain ⟨i, hi, hget⟩ := mem_iff_getElem.mp hpair
    rw [getElem_zip, getElem_tail] at hget
    rw [← hget]
    exact pairwise_iff_getElem.mp hsound.ordered _ _ _ _ (Nat.lt_succ_self i)
  omega

include hsound hfits hschema hsegment in
/-- The metadata of a written file is accepted. -/
theorem fromMetadata_metadata : ∃ entries,
    fromMetadata (file.metadata sha schema segment) file.size = .ok {
      schemaFingerprint := file.schemaFingerprint
      segmentSha256 := file.segmentSha256
      segmentRows := file.segmentRows
      rowGroupRows := file.rowGroupRows
      indexedColumnOrdinals := file.indexedColumnOrdinals
      entries } ∧
    entries.toList = (file.directory sha).map fun entry => (entry.key, entry.block) := by
  have hheader := headerOf_fits hsound hfits hschema hsegment
  have hstart := hfits.payloadStart_lt
  have hcolumnsLe := hsound.columns_le
  have hdirectory : file.directoryStart < 2 ^ 63 :=
    Nat.lt_of_le_of_lt (Nat.le_add_right ..) hstart
  unfold directoryStart at hdirectory
  have hoffset : (file.headerOf schema segment).payloadOffset = .ok file.payloadStart :=
    payloadOffset_headerOf (Nat.lt_trans hstart (by decide))
  have hlength := length_metadata sha hsound hfits hschema hsegment
  have hrowsTable : readU32Table (file.metadata sha schema segment) WholeFile.headerBytes
      file.rowGroupRows.length = .ok file.rowGroupRows := by
    rw [metadata, append_assoc, append_assoc, ← append_assoc]
    exact readU32Table_flatMap hheader.length_write hsound.rows_lt (by omega)
  have hcolumnsTable : readU32Table (file.metadata sha schema segment)
      (WholeFile.headerBytes + file.rowGroupRows.length * 4)
      file.indexedColumnOrdinals.length = .ok file.indexedColumnOrdinals := by
    refine readU32Table_flatMap ?_ ?_ (by omega)
    · rw [length_append, hheader.length_write, length_flatMap_bytes]
    · intro column hcolumn
      obtain ⟨key, block, hblock, rfl⟩ := (hsound.bound.columns_iff column).mp hcolumn
      exact hsound.bound.columns_lt hblock
  have hacceptable := acceptable_directory sha hsound hfits hschema hsegment
  obtain ⟨state, hloop, hi⟩ := hacceptable.loop
  rw [length_directory] at hloop
  have hcursor := hi.tiled.stop_unique hacceptable.tiled
  refine ⟨state.entries, ?_, hi.entries_eq⟩
  have hparse : FileHeader.parse (file.metadata sha schema segment) =
      .ok (file.headerOf schema segment) := by
    rw [metadata, append_assoc, append_assoc]
    exact FileHeader.parse_write hheader _
  have hkeys : state.entries.keys = file.blocks.toList.map Prod.fst := by
    rw [← ExtTreeMap.map_fst_toList_eq_keys, hi.entries_eq, map_map]
    exact map_key_directoryOf ..
  simp only [fromMetadata, corruptIf, bind_eq_ok, failIf_eq_ok,
    exists_and_left, exists_const]
  refine ⟨_, hparse, _, validateLayout_headerOf hsound hfits, _, hoffset,
    not_not.mpr hlength.symm, _, hrowsTable, _, hsound.rowGroups, _, hcolumnsTable,
    hsound.columns_ordered, _, hoffset, state, hloop, ?_, ?_⟩
  · rw [not_or, not_not, any_eq_true]
    refine ⟨hcursor, ?_⟩
    rintro ⟨column, hcolumn, hnone⟩
    -- a block of the column is in the directory, so its key is among the entries
    obtain ⟨key, block, hblock, rfl⟩ := (hsound.bound.columns_iff column).mp hcolumn
    rw [Bool.not_eq_true', any_eq_false, hkeys] at hnone
    refine hnone key (mem_map.mpr ⟨(key, block), ?_, rfl⟩) (decide_eq_true rfl)
    exact ExtTreeMap.mem_toList_iff_getElem?_eq_some.mpr hblock
  · rw [← hschema.2.2, ← hsegment.2.2]
    rfl

include hsound hfits hschema hsegment in
/-- The image of a file reads back as the file. -/
theorem fromBytes_image :
    fromBytes sha (file.image sha schema segment) = .ok file := by
  have hheader := headerOf_fits hsound hfits hschema hsegment
  have hstart := hfits.payloadStart_lt
  have hlength := length_metadata sha hsound hfits hschema hsegment
  have himage : (file.image sha schema segment).length = file.size := by
    rw [image, length_append, hlength]
    rfl
  have hparse : FileHeader.parse (file.image sha schema segment) =
      .ok (file.headerOf schema segment) := by
    rw [image, metadata, append_assoc, append_assoc, append_assoc]
    exact FileHeader.parse_write hheader _
  have hprefix : metadataPrefixLen (file.image sha schema segment) =
      .ok file.payloadStart := by
    refine bind_eq_ok.mpr ⟨_, hparse, bind_eq_ok.mpr ⟨_, payloadOffset_headerOf ?_, ?_⟩⟩
    · exact Nat.lt_trans hstart (by decide)
    · exact orTooLarge_eq (Nat.lt_trans hstart (by decide))
  have hmetadata : range? (file.image sha schema segment) 0 file.payloadStart =
      some (file.metadata sha schema segment) := by
    rw [range?_eq (Nat.zero_le _) (by rw [himage]; exact Nat.le_add_right ..), ← hlength,
      image, take_left, drop_zero]
  obtain ⟨entries, hindex, hentries⟩ :=
    fromMetadata_metadata sha hsound hfits hschema hsegment
  have hblocks := foldlM_readBlock sha (rfl : file.image sha schema segment = _)
    hlength (Nat.lt_trans hfits.2 (by decide)) hsound.blocks_spec ∅
  simp only [fromBytes, bind_eq_ok, himage]
  refine ⟨_, hprefix, _, by rw [hmetadata]; rfl, _, orTooLarge_eq (Nat.lt_trans hfits.2 (by decide)), _, hindex,
    file.blocks, ?_, rfl⟩
  show entries.toList.foldlM _ _ = _
  rw [hentries]
  exact hblocks.trans (congrArg ok (foldl_insert_toList file.blocks))

end Assemble

end PredicateSidecarFile

/-! ## Round trip and soundness -/

/-- A file that `new` builds can be written when it fits, and what was written reads back
as the file; an index that is accepted describes its file. -/
theorem file_round_trip_and_index_sound (sha : Sha256) :
    (∀ schemaFingerprint segmentSha256 segmentRows groupRows blocks file,
      PredicateSidecarFile.new schemaFingerprint segmentSha256 segmentRows groupRows blocks =
        .ok file →
      (file.Fits → ∃ bytes, file.toBytes sha = .ok bytes) ∧
      ∀ bytes, file.toBytes sha = .ok bytes →
        PredicateSidecarFile.fromBytes sha bytes = .ok file) ∧
    ∀ metadata totalFileLen index,
      PredicateSidecarIndex.fromMetadata metadata totalFileLen = .ok index →
      ∃ header directory, FileHeader.parse metadata = .ok header ∧
        (List.range header.blockCount).mapM (entryAt metadata header) = .ok directory ∧
        DirectorySound index metadata.length totalFileLen directory := by
  constructor
  · intro schemaFingerprint segmentSha256 segmentRows groupRows blocks file hnew
    have hsound := PredicateSidecarFile.new_sound hnew
    obtain ⟨schema, hschema⟩ := hsound.schemaFingerprint
    obtain ⟨segment, hsegment⟩ := hsound.segmentSha256
    constructor
    · intro hfits
      exact ⟨_, (PredicateSidecarFile.toBytes_eq_ok hsound hschema.1 hsegment.1).mpr ⟨hfits, rfl⟩⟩
    · intro bytes hbytes
      obtain ⟨hfits, rfl⟩ :=
        (PredicateSidecarFile.toBytes_eq_ok hsound hschema.1 hsegment.1).mp hbytes
      exact PredicateSidecarFile.fromBytes_image sha hsound hfits hschema hsegment
  · intro metadata totalFileLen index h
    exact fromMetadata_sound h

/-- A hash that counts the bytes. -/
def sampleSha : Sha256 where
  digest bytes := LittleEndian.bytes 32 bytes.length
  length_digest _ := length_bytes ..

/-- A block of 32 rows at the given place. -/
def samplePlace (rowGroup columnOrdinal : UInt32) : Result PredicateSidecarBlock := do
  let encoded ← EncodedPredicateBlock.encode .int64 (replicate 16 [some 7, none]).flatten
  let block ← orFail encoded (.corrupt "no block")
  PredicateSidecarBlock.new rowGroup columnOrdinal block

/-- A file of two row groups of 32 rows, with three blocks in two columns. -/
def sampleFile : Result PredicateSidecarFile := do
  let first ← samplePlace 1 4
  let second ← samplePlace 0 9
  let third ← samplePlace 0 4
  PredicateSidecarFile.new (replicate 64 65) (replicate 64 48) 64 [32, 32]
    [first, second, third]

/-- The sample is written, read back and indexed. -/
theorem sample_file_round_trip :
    ∃ file bytes index, sampleFile = .ok file ∧ file.toBytes sampleSha = .ok bytes ∧
      PredicateSidecarFile.fromBytes sampleSha bytes = .ok file ∧
      PredicateSidecarIndex.fromMetadata (bytes.take 336) bytes.length = .ok index ∧
      ∃ directory, DirectorySound index 336 bytes.length directory := by
  have hrun : (do
      let file ← sampleFile
      let bytes ← file.toBytes sampleSha
      let index ← fromMetadata (bytes.take 336) bytes.length
      pure ((bytes.take 336).length, index.rowGroupRows)).toOption = some (336, [32, 32]) := by
    decide +kernel
  obtain ⟨file, hfile, hrun⟩ := bind_eq_ok.mp (toOption_eq_some.mp hrun)
  simp only [bind_eq_ok] at hrun
  obtain ⟨bytes, hbytes, index, hindex, hrun⟩ := hrun
  have hlength : (bytes.take 336).length = 336 := congrArg Prod.fst (Except.ok.inj hrun)
  have hfile' := hfile
  simp only [sampleFile, bind_eq_ok] at hfile'
  obtain ⟨first, -, second, -, third, -, hfile'⟩ := hfile'
  have hround :=
    ((file_round_trip_and_index_sound sampleSha).1 _ _ _ _ _ _ hfile').2 bytes hbytes
  obtain ⟨header, directory, -, -, hsound⟩ :=
    (file_round_trip_and_index_sound sampleSha).2 _ _ _ hindex
  rw [hlength] at hsound
  exact ⟨file, bytes, index, hfile, hbytes, hround, hindex, directory, hsound⟩

end RustDb.Sidecar
