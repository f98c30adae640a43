import RustDb.Sidecar.Decode

/-!
# Encoding a predicate block

The encoder builds a dictionary block and a frame-of-reference block, and keeps the
smaller one when it is at most half the size of the raw values.

* `buildValidity_spec`: the bitmap that is built has a bit for every row.
* `Candidate.Represents`: what a candidate has to be for the decoder to find the
  values again.  Both candidates are.
* `decodeBlock_encodeBlock`: the round trip.
-/

namespace RustDb.Sidecar

open RustDb.Lib RustDb.Lib.Checked RustDb.Lib.LittleEndian List Option BlockParts

/-! ## The encoder -/

/-- The values in one of the two encodings. -/
structure Candidate where
  encoding : Encoding
  bitWidth : Nat
  auxiliaryCount : Nat
  payload : List UInt8
deriving DecidableEq, Repr

/-- `dedup`: drops an element that is equal to the next one. -/
def dedup : List Int64 → List Int64
  | a :: b :: rest => if a = b then dedup (b :: rest) else a :: dedup (b :: rest)
  | rest => rest

/-- The sorted values without repetition. -/
def buildDictionary (values : List (Option Int64)) : List Int64 :=
  dedup ((values.filterMap id).insertionSort (· ≤ ·))

/-- The id of a value in the dictionary; null rows have the id `0`. -/
def dictionaryId (dictionary : List Int64) (value : Option Int64) : Nat :=
  (value.bind fun value => dictionary.idxOf? value).getD 0

/-- The sorted distinct values, and for every row the number of its value. -/
def dictionaryCandidate (values : List (Option Int64)) : Result Candidate := do
  let dictionary := buildDictionary values
  let ids := values.map (dictionaryId dictionary)
  let width := bitWidth (dictionary.length - 1)
  let dictionaryBytes ← orTooLarge 64 (dictionary.length * 8)
  let packedBytes ← packedLen values.length width
  let _capacity ← orTooLarge 64 (dictionaryBytes + packedBytes)
  let packed ← pack ids width
  let auxiliaryCount ← orTooLarge 32 dictionary.length
  pure {
    encoding := .dictionary
    bitWidth := width
    auxiliaryCount
    payload := dictionary.flatMap i64ToLeBytes ++ packed }

/-- The distance of a value from the base; null rows have the distance `0`. -/
def frameDelta (base : Int64) : Option Int64 → Result Nat
  | some value =>
    let delta := value.toInt - base.toInt
    if 0 ≤ delta ∧ delta < 2 ^ 64 then .ok delta.toNat else fail .tooLarge
  | none => .ok 0

/-- The smallest value, and for every row the distance from it; none without a value. -/
def frameCandidate (values : List (Option Int64)) : Result (Option Candidate) :=
  match (values.filterMap id).min? with
  | none => .ok none
  | some base => do
    let deltas ← values.mapM (frameDelta base)
    let width := deltas.max?.elim 0 bitWidth
    let packedBytes ← packedLen values.length width
    let _capacity ← orTooLarge 64 (8 + packedBytes)
    let packed ← pack deltas width
    pure (some {
      encoding := .frameOfReference
      bitWidth := width
      auxiliaryCount := 0
      payload := i64ToLeBytes base ++ packed })

/-- One turn of the loop of `build_validity`. -/
def markValid (state : List UInt8 × Nat) (p : Option Int64 × Nat) :
    Result (List UInt8 × Nat) :=
  match p.1 with
  | some _ => do
    let byte ← index state.1 (p.2 / 8)
    let bit ← shiftLeft 8 1 (p.2 % 8)
    pure (state.1.set (p.2 / 8) (byte ||| UInt8.ofNat bit), state.2)
  | none => do
    let nullCount ← orTooLarge 32 (state.2 + 1)
    pure (state.1, nullCount)

/-- `build_validity`: the bitmap and the number of nulls. -/
def buildValidity (values : List (Option Int64)) : Result (List UInt8 × Nat) :=
  values.zipIdx.foldlM markValid (replicate ((values.length + 7) / 8) 0, 0)

/-- The smaller candidate. -/
def chooseCandidate (dictionary : Candidate) : Option Candidate → Candidate
  | some frame => if frame.payload.length < dictionary.payload.length then frame else dictionary
  | none => dictionary

/-- A product that stops at the largest `usize`. -/
def saturatingMul (x y : Nat) : Nat := min (x * y) (2 ^ 64 - 1)

/-- The shorter of the two encodings, if the block and its directory entry take at most half of the
bytes of the raw values. -/
def encodeBlock (dataType : PredicateType) (values : List (Option Int64)) :
    Result (Option (List UInt8)) := do
  dataType.validate
  ForM.forM (values.filterMap id) dataType.validateValue
  let rowCount ← orTooLarge 32 values.length
  let built ← buildValidity values
  let dictionary ← dictionaryCandidate values
  let frame ← frameCandidate values
  let candidate := chooseCandidate dictionary frame
  let validityLen ← orTooLarge 32 built.1.length
  let payloadLen ← orTooLarge 32 candidate.payload.length
  let bytes ← assemble {
      dataType
      encoding := candidate.encoding
      bitWidth := candidate.bitWidth
      rowCount
      nullCount := built.2
      auxiliaryCount := candidate.auxiliaryCount
      validityLen
      payloadLen } built.1 candidate.payload
  let rawBytes ← orTooLarge 64 (values.length * dataType.rawWidth)
  let retainedBytes ← orTooLarge 64 (bytes.length + directoryEntryBytes)
  pure (if saturatingMul retainedBytes 2 ≤ rawBytes then some bytes else none)

/-! ## The bitmap -/

/-- A bitmap that marks the rows of `done`. -/
structure Marks (state : List UInt8 × Nat) (done : List (Option Int64)) : Prop where
  testBit : ∀ row, (value state.1).testBit row = (done[row]?.any isSome)
  nulls : state.2 = done.countP isNone

theorem any_isSome_concat (done : List (Option Int64)) (v : Option Int64) (row : Nat) :
    (done ++ [v])[row]?.any isSome =
      (done[row]?.any isSome || (decide (row = done.length) && v.isSome)) := by
  rcases lt_trichotomy row done.length with hlt | heq | hgt
  · rw [getElem?_append_left hlt, decide_eq_false (ne_of_lt hlt), Bool.false_and, Bool.or_false]
  · rw [heq, getElem?_concat_length, getElem?_eq_none (le_refl _)]
    simp
  · rw [getElem?_eq_none (by rw [length_append, length_singleton]; omega),
      getElem?_eq_none (le_of_lt hgt), decide_eq_false (ne_of_gt hgt)]
    rfl

variable {state state' : List UInt8 × Nat} {done : List (Option Int64)}

/-- One turn of the loop marks one more row. -/
theorem Marks.concat {v : Option Int64} (h : Marks state done)
    (hmark : markValid state (v, done.length) = .ok state') :
    Marks state' (done ++ [v]) ∧ state'.1.length = state.1.length := by
  cases v with
  | some x =>
    have hmod : done.length % 8 < 8 := Nat.mod_lt _ (by decide)
    have hbit : 1 <<< (done.length % 8) % 2 ^ 8 = 2 ^ (done.length % 8) := by
      rw [Nat.one_shiftLeft, Nat.mod_eq_of_lt (Nat.pow_lt_pow_right (by decide) hmod)]
    obtain ⟨byte, hbyte, hmark⟩ := bind_eq_ok.mp hmark
    rw [shiftLeft_eq hmod, ok_bind, hbit] at hmark
    cases hmark
    refine ⟨⟨fun row => ?_, ?_⟩, length_set⟩
    · rw [testBit_value_set (index_eq_ok.mp hbyte), any_isSome_concat, h.testBit]
      simp
    · rw [countP_append, h.nulls]
      rfl
  | none =>
    obtain ⟨nullCount, hcount, hmark⟩ := bind_eq_ok.mp hmark
    cases hmark
    have hcount := (orTooLarge_eq_ok.mp hcount).2
    refine ⟨⟨fun row => ?_, ?_⟩, rfl⟩
    · rw [any_isSome_concat, h.testBit]
      simp
    · rw [countP_append, hcount, h.nulls]
      rfl

/-- The whole loop marks all rows. -/
theorem Marks.append {rest : List (Option Int64)} (h : Marks state done)
    (hfold : (rest.zipIdx done.length).foldlM markValid state = .ok state') :
    Marks state' (done ++ rest) ∧ state'.1.length = state.1.length := by
  induction rest generalizing state done with
  | nil =>
    cases hfold
    rw [append_nil]
    exact ⟨h, rfl⟩
  | cons v rest ih =>
    rw [zipIdx_cons, foldlM_cons] at hfold
    obtain ⟨next, hnext, hfold⟩ := bind_eq_ok.mp hfold
    obtain ⟨hmarks, hlength⟩ := h.concat hnext
    rw [append_cons, ← hlength]
    refine ih hmarks ?_
    rw [length_append, length_singleton]
    exact hfold

variable {values : List (Option Int64)} {built : List UInt8 × Nat}

theorem buildValidity_spec (h : buildValidity values = .ok built) :
    Marks built values ∧ built.1.length = (values.length + 7) / 8 := by
  have hempty : Marks (replicate ((values.length + 7) / 8) 0, 0) [] := by
    refine ⟨fun row => ?_, rfl⟩
    rw [testBit_value, getD_eq_getElem?_getD, getElem?_replicate]
    split <;> simp
  unfold buildValidity at h
  have hfold := hempty.append h
  rw [nil_append, length_replicate] at hfold
  exact hfold

/-- The number of nulls, by the bits of the rows. -/
theorem Marks.nulls_eq (h : Marks built values) :
    built.2 = (range values.length).countP fun row => !(value built.1).testBit row := by
  have hrange : range values.length = values.zipIdx.map Prod.snd := by
    rw [zipIdx_map_snd, range_eq_range']
  have hvalues : values.countP isNone = values.zipIdx.countP fun p => p.1.isNone := by
    conv_lhs => rw [← zipIdx_map_fst 0 values, countP_map]
    rfl
  rw [h.nulls, hrange, countP_map, hvalues]
  refine countP_congr fun p hp => ?_
  obtain ⟨hlt, heq⟩ := mem_zipIdx' hp
  rw [Function.comp_apply, h.testBit, getElem?_eq_getElem hlt, ← heq]
  cases p.1 <;> simp

theorem Marks.value_lt (h : Marks built values) : value built.1 < 2 ^ values.length := by
  refine Nat.lt_pow_two_of_testBit _ fun row hrow => ?_
  rw [h.testBit, getElem?_eq_none hrow]
  rfl

/-! ## The dictionary -/

variable {l : List Int64} {a : Int64}

theorem mem_dedup : a ∈ dedup l ↔ a ∈ l := by
  fun_induction dedup l with
  | case1 b rest ih => rw [ih]; simp
  | case2 a b rest hne ih => simp only [mem_cons, ih]
  | case3 rest _ => rfl

/-- Without repetition, ordered values are strictly ordered. -/
theorem pairwise_dedup (h : l.Pairwise (· ≤ ·)) : (dedup l).Pairwise (· < ·) := by
  fun_induction dedup l with
  | case1 b rest ih => exact ih (pairwise_cons.mp h).2
  | case2 a b rest hne ih =>
    obtain ⟨hhead, htail⟩ := pairwise_cons.mp h
    refine pairwise_cons.mpr ⟨fun c hc => ?_, ih htail⟩
    have hab := Int64.lt_of_le_of_ne (hhead b (mem_cons_self ..)) hne
    rcases mem_cons.mp (mem_dedup.mp hc) with rfl | hc
    · exact hab
    · exact Int64.lt_of_lt_of_le hab ((pairwise_cons.mp htail).1 c hc)
  | case3 rest hshort =>
    match rest, hshort with
    | [], _ => exact .nil
    | [a], _ => exact pairwise_singleton ..
    | a :: b :: rest, hshort => exact (hshort a b rest rfl).elim

theorem mem_buildDictionary : a ∈ buildDictionary values ↔ some a ∈ values := by
  rw [buildDictionary, mem_dedup, mem_insertionSort, mem_filterMap]
  simp

theorem outOfOrder_eq_false (h : l.Pairwise (· < ·)) : outOfOrder l = false := by
  induction l with
  | nil => rfl
  | cons a l ih =>
    obtain ⟨hhead, htail⟩ := pairwise_cons.mp h
    cases l with
    | nil => rfl
    | cons b l =>
      have hab : decide (b ≤ a) = false :=
        decide_eq_false (Int64.not_le.mpr (hhead b (mem_cons_self ..)))
      show (decide (b ≤ a) || outOfOrder (b :: l)) = false
      rw [hab, ih htail]
      rfl

theorem i64FromLeBytes_i64ToLeBytes (n : Int64) : i64FromLeBytes (i64ToLeBytes n) = n := by
  rw [i64FromLeBytes, i64ToLeBytes, value_bytes_of_lt n.toUInt64.toNat_lt, UInt64.ofNat_toNat,
    Int64.toInt64_toUInt64]

theorem length_i64ToLeBytes (n : Int64) : (i64ToLeBytes n).length = 8 := length_bytes ..

theorem length_flatMap_i64ToLeBytes (dictionary : List Int64) :
    (dictionary.flatMap i64ToLeBytes).length = dictionary.length * 8 := by
  simp [length_flatMap, length_i64ToLeBytes]

/-- The entries of a dictionary that was written. -/
theorem dictionaryEntries_flatMap (dictionary : List Int64) :
    dictionaryEntries (dictionary.flatMap i64ToLeBytes) = dictionary := by
  have hchunks := chunks_flatMap length_i64ToLeBytes dictionary []
  rw [append_nil] at hchunks
  rw [dictionaryEntries, chunksExact, length_flatMap_i64ToLeBytes,
    Nat.mul_div_cancel _ (by decide), hchunks, List.map_map]
  exact map_id'' i64FromLeBytes_i64ToLeBytes dictionary

/-! ## The candidates -/

/-- The parts of a block that is assembled from a candidate. -/
def Candidate.toParts (candidate : Candidate) (dataType : PredicateType)
    (values : List (Option Int64)) (built : List UInt8 × Nat) : BlockParts where
  dataType := dataType
  encoding := candidate.encoding
  bitWidth := candidate.bitWidth
  rowCount := values.length
  nullCount := built.2
  auxiliaryCount := candidate.auxiliaryCount
  validity := built.1
  payload := candidate.payload

/-- The slot of a row stands for its value. -/
def BlockParts.StandsFor (parts : BlockParts) : Option Int64 → Nat → Prop
  | some v, slot => parts.lookup slot = some v
  | none, slot => slot = 0

/-- A block whose slots stand for the values has these values as its rows. -/
theorem rows_eq_of_standsFor {parts : BlockParts}
    (hlayout : parts.Layout) (hslots : Forall₂ parts.StandsFor values parts.slots)
    (hvalid : ∀ row, parts.valid row = values[row]?.any isSome)
    (hrange : ∀ v, some v ∈ values → parts.dataType.InRange v) :
    parts.rows = some values := by
  rw [rows, if_pos hlayout]
  refine mapM_zipIdx_eq_some hslots fun row v slot hrow hstands => ?_
  rw [BlockParts.row, hvalid, hrow, any_some]
  cases v with
  | some v =>
    have hin := hrange v (mem_of_getElem? hrow)
    rw [isSome_some, if_pos rfl, show parts.lookup slot = some v from hstands]
    simp [hin]
  | none =>
    rw [isSome_none, if_neg Bool.false_ne_true, if_pos (show slot = 0 from hstands)]

/-- What a candidate has to be for the decoder to find the values again. -/
structure Candidate.Represents (candidate : Candidate) (dataType : PredicateType)
    (values : List (Option Int64)) (built : List UInt8 × Nat) : Prop where
  layout : (candidate.toParts dataType values built).Layout
  standsFor : Forall₂ (candidate.toParts dataType values built).StandsFor values
    (candidate.toParts dataType values built).slots
  auxiliary_lt : candidate.auxiliaryCount < 2 ^ 32

section Candidates

variable {dataType : PredicateType} {values : List (Option Int64)} {built : List UInt8 × Nat}
  {candidate : Candidate}

/-- The id of a value finds the value in the dictionary. -/
theorem getElem?_dictionaryId {v : Int64} (h : some v ∈ values) :
    (buildDictionary values)[dictionaryId (buildDictionary values) (some v)]? = some v := by
  have hmem := mem_buildDictionary.mpr h
  obtain ⟨i, hi⟩ : ∃ i, (buildDictionary values).idxOf? v = some i := by
    refine ne_none_iff_exists'.mp fun hnone => ?_
    exact idxOf?_eq_none_iff.mp hnone hmem
  obtain ⟨hlt, heq, -⟩ := idxOf?_eq_some_iff.mp hi
  rw [dictionaryId, bind_some, hi, getD_some, getElem?_eq_getElem hlt, heq]

theorem dictionaryId_le (dictionary : List Int64) (v : Option Int64) :
    dictionaryId dictionary v ≤ dictionary.length := by
  cases v with
  | none => exact Nat.zero_le _
  | some v =>
    rw [dictionaryId, bind_some]
    cases hi : dictionary.idxOf? v with
    | none => exact Nat.zero_le _
    | some i =>
      obtain ⟨hlt, -⟩ := idxOf?_eq_some_iff.mp hi
      exact le_of_lt hlt

theorem dictionaryCandidate_spec (h : dictionaryCandidate values = .ok candidate) :
    candidate.Represents dataType values built := by
  simp only [dictionaryCandidate, bind_eq_ok, orTooLarge_eq_ok] at h
  obtain ⟨-, -, -, -, -, -, packed, hpack, _, ⟨hsmall, rfl⟩, h⟩ := h
  have hcandidate := Except.ok.inj h
  have hids : ∀ id ∈ values.map (dictionaryId (buildDictionary values)), id < 2 ^ 64 := by
    intro id hid
    obtain ⟨v, -, rfl⟩ := mem_map.mp hid
    have := dictionaryId_le (buildDictionary values) v
    omega
  have hlength := length_flatMap_i64ToLeBytes (buildDictionary values)
  obtain ⟨hpacked, hfields⟩ := fields_of_pack hids hpack
  rw [length_map] at hpacked hfields
  -- the parts of the payload
  set parts := candidate.toParts dataType values built with hparts
  rw [← hcandidate] at hparts
  have hencoding : parts.encoding = .dictionary := by
    rw [hparts]
    rfl
  have hdrop : parts.packed = packed := by
    rw [hparts]
    exact drop_left' hlength
  have hdictionary : parts.dictionary = buildDictionary values := by
    rw [hparts]
    exact (congrArg dictionaryEntries (take_left' hlength)).trans (dictionaryEntries_flatMap _)
  have hslots : parts.slots = values.map (dictionaryId (buildDictionary values)) := by
    rw [slots, hdrop, hparts]
    exact hfields
  have hlayout : parts.Layout := by
    rw [Layout, hdrop, hdictionary, hparts]
    refine ⟨hpacked, rfl, ?_, ?_⟩
    · show _ ≤ (_ ++ packed).length
      rw [length_append, hlength]
      exact Nat.le_add_right ..
    · exact outOfOrder_eq_false (pairwise_dedup (pairwise_insertionSort ..))
  have hstands : Forall₂ parts.StandsFor values parts.slots := by
    rw [hslots, forall₂_map_right_iff, forall₂_same]
    intro v hv
    cases v with
    | some v =>
      rw [BlockParts.StandsFor, BlockParts.lookup, hencoding]
      dsimp only
      rw [hdictionary, getElem?_dictionaryId hv]
    | none => rfl
  refine ⟨hlayout, hstands, ?_⟩
  rw [← hcandidate]
  exact hsmall

/-- The delta leads back to the value. -/
def LeadsBack (base : Int64) : Option Int64 → Nat → Prop
  | some v, delta => base.toInt + delta = v.toInt
  | none, delta => delta = 0

theorem frameDelta_spec {base : Int64} {v : Option Int64} {delta : Nat}
    (h : frameDelta base v = .ok delta) : delta < 2 ^ 64 ∧ LeadsBack base v delta := by
  unfold LeadsBack
  cases v with
  | some v =>
    unfold frameDelta at h
    dsimp only at h
    split at h
    · rename_i hdelta
      cases h
      omega
    · cases h
  | none =>
    cases h
    exact ⟨by decide, rfl⟩

theorem frameCandidate_spec (hmarks : Marks built values)
    (h : frameCandidate values = .ok (some candidate)) :
    candidate.Represents dataType values built := by
  unfold frameCandidate at h
  split at h
  · cases h
  rename_i base hbase
  simp only [bind_eq_ok] at h
  obtain ⟨deltas, hdeltas, -, -, -, -, packed, hpack, h⟩ := h
  have hcandidate := some.inj (Except.ok.inj h)
  have hdeltas : Forall₂ (fun v delta => delta < 2 ^ 64 ∧ LeadsBack base v delta)
      values deltas := (mapM_eq_ok.mp hdeltas).imp fun v delta h => frameDelta_spec h
  have hfit : ∀ delta ∈ deltas, delta < 2 ^ 64 := by
    intro delta hdelta
    obtain ⟨v, -, hv⟩ := exists_mem_zip_of_forall₂ hdeltas.flip hdelta
    exact hv.1
  obtain ⟨hpacked, hfields⟩ := fields_of_pack hfit hpack
  rw [← hdeltas.length_eq] at hpacked hfields
  -- a base exists, so some row is not null
  have hnulls : built.2 ≠ values.length := by
    rw [hmarks.nulls]
    intro hall
    have hnone := countP_eq_length.mp hall
    cases hvalues : values.filterMap id with
    | nil =>
      rw [hvalues] at hbase
      cases hbase
    | cons v rest =>
      have hv : v ∈ values.filterMap id := hvalues ▸ mem_cons_self ..
      obtain ⟨w, hw, rfl⟩ := mem_filterMap.mp hv
      cases hnone _ hw
  -- the parts of the payload
  set parts := candidate.toParts dataType values built with hparts
  rw [← hcandidate] at hparts
  have hdrop : parts.packed = packed := by
    rw [hparts]
    exact drop_left' (length_i64ToLeBytes base)
  have hframe : parts.base = base := by
    rw [hparts]
    exact (congrArg i64FromLeBytes (take_left' (length_i64ToLeBytes base))).trans
      (i64FromLeBytes_i64ToLeBytes base)
  have hslots : parts.slots = deltas := by
    rw [slots, hdrop, hparts]
    exact hfields
  have hlayout : parts.Layout := by
    rw [Layout, hdrop, hslots, hparts]
    refine ⟨hpacked, rfl, rfl, ?_, hnulls⟩
    show 8 ≤ (i64ToLeBytes base ++ packed).length
    rw [length_append, length_i64ToLeBytes]
    exact Nat.le_add_right ..
  have hstands : Forall₂ parts.StandsFor values parts.slots := by
    rw [hslots]
    refine hdeltas.imp fun v delta hdelta => ?_
    cases v with
    | some v =>
      have hback : base.toInt + delta = v.toInt := hdelta.2
      rw [BlockParts.StandsFor, BlockParts.lookup, hframe, hback, hparts]
      exact i64TryFrom_toInt v
    | none => exact hdelta.2
  refine ⟨hlayout, hstands, ?_⟩
  rw [← hcandidate]
  exact Nat.two_pow_pos 32

end Candidates

variable {dataType : PredicateType}

theorem chooseCandidate_spec (hmarks : Marks built values) {dictionary : Candidate}
    {frame : Option Candidate} (hdictionary : dictionaryCandidate values = .ok dictionary)
    (hframe : frameCandidate values = .ok frame) :
    (chooseCandidate dictionary frame).Represents dataType values built := by
  cases frame with
  | none => exact dictionaryCandidate_spec hdictionary
  | some frame =>
    unfold chooseCandidate
    dsimp only
    split
    · exact frameCandidate_spec hmarks hframe
    · exact dictionaryCandidate_spec hdictionary

/-- The encoder produces sound parts with the rows that were encoded. -/
theorem parse_encodeBlock {bytes : List UInt8}
    (h : encodeBlock dataType values = .ok (some bytes)) :
    ∃ parts, parse bytes = .ok parts ∧ parts.dataType = dataType ∧ parts.rows = some values := by
  simp only [encodeBlock, bind_eq_ok, orTooLarge_eq_ok] at h
  obtain ⟨_, htype, _, hvalues, _, ⟨hrowsLt, rfl⟩, built, hbuilt, dictionary, hdictionary, frame,
    hframe, validityLen, -, _, ⟨hpayloadLt, rfl⟩, assembled, hassemble, rawBytes, -,
    retainedBytes, -, h⟩ := h
  obtain ⟨-, ⟨⟩⟩ := ite_none_right_eq_some.mp (Except.ok.inj h)
  obtain ⟨hmarks, hlength⟩ := buildValidity_spec hbuilt
  have hrepresents : (chooseCandidate dictionary frame).Represents dataType values built :=
    chooseCandidate_spec hmarks hdictionary hframe
  have hsound : ((chooseCandidate dictionary frame).toParts dataType values built).Sound := {
    type_valid := htype
    width_le := hrepresents.layout.1.width_le
    rows_lt := hrowsLt
    auxiliary_lt := hrepresents.auxiliary_lt
    payload_lt := hpayloadLt
    validity_length := hlength
    validity_lt := hmarks.value_lt
    nulls := hmarks.nulls_eq }
  refine ⟨_, parse_assemble hassemble hsound, rfl, ?_⟩
  refine rows_eq_of_standsFor hrepresents.layout hrepresents.standsFor hmarks.testBit ?_
  intro v hv
  have hcheck := forM_eq_ok.mp hvalues v (mem_filterMap.mpr ⟨some v, hv, rfl⟩)
  have hmatches := PredicateType.validateValue_matches htype v
  exact (ite_none_right_eq_some.mp (hmatches.eq_ok_iff.mp hcheck)).1

/-- What was encoded is decoded to the same type and the same values. -/
theorem decodeBlock_encodeBlock {dataType : PredicateType} {values : List (Option Int64)}
    {bytes : List UInt8} (h : encodeBlock dataType values = .ok (some bytes)) :
    decodeBlock bytes = .ok { dataType, values } := by
  obtain ⟨parts, hparse, rfl, hrows⟩ := parse_encodeBlock h
  refine (decodeBlock_matches bytes).eq_ok_iff.mpr ?_
  rw [toOption_eq_some.mpr hparse, bind_some, hrows, map_some]

/-- Nulls and both ends of the `i64` range, in a number of rows that is no multiple of
eight. -/
theorem full_range_round_trip :
    ∃ bytes, encodeBlock .int64 (List.replicate 9
        [some Int64.minValue, none, some Int64.maxValue]).flatten = .ok (some bytes) ∧
      decodeBlock bytes = .ok {
        dataType := .int64
        values := (List.replicate 9
          [some Int64.minValue, none, some Int64.maxValue]).flatten } := by
  have hsome : (encodeBlock .int64 (replicate 9
      [some Int64.minValue, none, some Int64.maxValue]).flatten).toOption.join.isSome =
      true := by
    decide +kernel
  obtain ⟨bytes, hbytes⟩ := isSome_iff_exists.mp hsome
  have hencode := toOption_eq_some.mp (join_eq_some_iff.mp hbytes)
  exact ⟨bytes, hencode, decodeBlock_encodeBlock hencode⟩

end RustDb.Sidecar
