import RustDb.Sidecar.Readers

/-!
# The readers agree with the decoder

The decoder says what a byte string holds.  The two streaming readers, which never
build the list of values, say the same.

* `Predicate.Holds`: a predicate of a value in three-valued logic, where a null
  satisfies only `IsNull`.
* `ArrayRef.values`: the numbers in an array, of whatever width.
* `readers_agree_with_decoder`: on every byte string the readers succeed when the
  decoder does, with the same rows, fail when it fails, and never panic.  The array
  reader also refuses a decimal type whose scale exceeds its precision
  (`scale_above_precision_is_refused`), which the decoder does not.
-/

namespace RustDb.Sidecar

open RustDb.Lib RustDb.Lib.Checked RustDb.Lib.LittleEndian List Option PredicateType Matches

/-! ## What a predicate says -/

/-- The comparison as a proposition. -/
def ComparisonOp.Holds (x y : Int) : ComparisonOp → Prop
  | .equal => x = y
  | .notEqual => x ≠ y
  | .less => x < y
  | .lessOrEqual => x ≤ y
  | .greater => x > y
  | .greaterOrEqual => x ≥ y

/-- The predicate is true of the value; a null satisfies only `IsNull`. -/
def Predicate.Holds (v : Option Int64) : Predicate → Prop
  | .isNull => v = none
  | .isNotNull => v ≠ none
  | .compare op c => ∃ x, v = some x ∧ op.Holds x.toInt c.toInt

theorem compare_iff {x c : Int64} {op : ComparisonOp} :
    compare x c op = true ↔ op.Holds x.toInt c.toInt := by
  cases op <;> simp only [compare, ComparisonOp.Holds, decide_eq_true_eq]
  · exact Int64.toInt_inj.symm
  · exact not_congr Int64.toInt_inj.symm
  · exact Int64.lt_iff_toInt_lt
  · exact Int64.le_iff_toInt_le
  · exact Int64.lt_iff_toInt_lt
  · exact Int64.le_iff_toInt_le

variable {v : Option Int64}

theorem evaluateValue_iff {predicate : Predicate} :
    evaluateValue v predicate = true ↔ predicate.Holds v := by
  cases predicate with
  | isNull => exact isNone_iff_eq_none
  | isNotNull => exact isSome_iff_ne_none
  | compare op c =>
    rw [evaluateValue, Option.any_eq_true]
    exact exists_congr fun x => and_congr Iff.rfl compare_iff

theorem evaluateAllValues_iff {predicates : List Predicate} :
    evaluateAllValues v predicates = true ↔ ∀ predicate ∈ predicates, predicate.Holds v := by
  rw [evaluateAllValues, List.all_eq_true]
  exact forall₂_congr fun predicate _ => evaluateValue_iff

/-! ## Arrays -/

/-- The column type of a predicate type. -/
def PredicateType.toArrow : PredicateType → ArrowType
  | .int8 => .int8
  | .int16 => .int16
  | .int32 => .int32
  | .int64 => .int64
  | .date32 => .date32
  | .decimal128 precision scale => .decimal128 precision scale

/-- The scale of a decimal type is at most its precision. -/
def PredicateType.ScaleFits : PredicateType → Prop
  | .decimal128 precision scale => scale.toInt ≤ precision.toNat
  | _ => True

namespace ArrayRef

/-- The type of an array. -/
def dataType : ArrayRef → ArrowType
  | .int8 _ => .int8
  | .int16 _ => .int16
  | .int32 _ => .int32
  | .int64 _ => .int64
  | .date32 _ => .date32
  | .decimal128 precision scale _ => .decimal128 precision scale

/-- The numbers in the array. -/
def values : ArrayRef → List (Option Int)
  | .int8 values => values.map (·.map Int8.toInt)
  | .int16 values => values.map (·.map Int16.toInt)
  | .int32 values => values.map (·.map Int32.toInt)
  | .int64 values => values.map (·.map Int64.toInt)
  | .date32 values => values.map (·.map Int32.toInt)
  | .decimal128 _ _ values => values

end ArrayRef

variable {dataType : PredicateType}

theorem fromArrow_toArrow (h : dataType.validate = .ok ()) :
    fromArrow dataType.toArrow = .ok dataType := by
  cases dataType with
  | decimal128 precision scale =>
    exact if_pos (validate_decimal128.mp h).2
  | _ => rfl

theorem fromArrow_returns (arrow : ArrowType) :
    Returns (fromArrow arrow) fun _ => True := by
  cases arrow with
  | decimal128 precision scale =>
    show Returns (if precision ≤ 18 then _ else _) _
    split
    · exact .ok trivial
    · exact .fail
  | other name => exact .fail
  | _ => exact .ok trivial

/-- A number in the range of a narrow type survives the cast. -/
theorem toInt_narrow {width : Nat} {v : Int64} (h : isSigned (width + 1) v = true) :
    v.toInt.bmod (2 ^ (width + 1)) = v.toInt := by
  unfold isSigned at h
  rw [decide_eq_true_eq, Nat.add_sub_cancel] at h
  have hpow : ((2 ^ (width + 1) : Nat) : Int) = 2 * 2 ^ width := by
    rw [Nat.pow_succ', Nat.cast_mul, Nat.cast_pow]
    rfl
  refine Int.bmod_eq_of_le ?_ ?_
  · rw [hpow]
    omega
  · rw [hpow]
    omega

variable {α : Type} {l : List (Option Int64)}

theorem map_map_toInt {f : Int64 → α} {g : α → Int} (h : ∀ v, some v ∈ l → g (f v) = v.toInt) :
    (l.map (·.map f)).map (·.map g) = l.map (·.map Int64.toInt) := by
  rw [List.map_map]
  refine List.map_congr_left fun v hv => ?_
  cases v with
  | none => rfl
  | some v => exact congrArg some (h v hv)

/-- The finished array holds the appended numbers. -/
theorem finishArray_matches [DecimalMetadata] (htype : dataType.validate = .ok ())
    (hrange : ∀ v, some v ∈ l → dataType.InRange v) :
    (dataType.ScaleFits → ∃ array, finishArray dataType l = .ok array ∧
      array.dataType = dataType.toArrow ∧ array.values = l.map (·.map Int64.toInt)) ∧
    (¬ dataType.ScaleFits → ∃ e, finishArray dataType l = fail e) := by
  cases dataType with
  | int8 =>
    refine ⟨fun _ => ⟨_, rfl, rfl, map_map_toInt fun v hv => ?_⟩, fun h => (h trivial).elim⟩
    exact (Int64.toInt_toInt8 v).trans (toInt_narrow (hrange v hv))
  | int16 =>
    refine ⟨fun _ => ⟨_, rfl, rfl, map_map_toInt fun v hv => ?_⟩, fun h => (h trivial).elim⟩
    exact (Int64.toInt_toInt16 v).trans (toInt_narrow (hrange v hv))
  | int32 | date32 =>
    refine ⟨fun _ => ⟨_, rfl, rfl, map_map_toInt fun v hv => ?_⟩, fun h => (h trivial).elim⟩
    exact (Int64.toInt_toInt32 v).trans (toInt_narrow (hrange v hv))
  | int64 => exact ⟨fun _ => ⟨_, rfl, rfl, rfl⟩, fun h => (h trivial).elim⟩
  | decimal128 precision scale =>
    have ⟨hpos, hle⟩ := validate_decimal128.mp htype
    have hnone : DecimalMetadata.error precision scale = none ↔ scale.toInt ≤ precision.toNat :=
      DecimalMetadata.error_eq_none hpos (Nat.le_trans hle (by decide))
    unfold finishArray
    dsimp only
    cases herror : DecimalMetadata.error precision scale with
    | none => exact ⟨fun _ => ⟨_, rfl, rfl, rfl⟩, fun h => (h (hnone.mp herror)).elim⟩
    | some error =>
      refine ⟨fun hfits => ?_, fun _ => ⟨_, rfl⟩⟩
      rw [hnone.mpr hfits] at herror
      cases herror

/-! ## Agreement -/

variable {parts : BlockParts}

theorem inRange_of_rows {values : List (Option Int64)} (h : parts.rows = some values) {v : Int64}
    (hv : some v ∈ values) : parts.dataType.InRange v := by
  obtain ⟨-, h⟩ := ite_none_right_eq_some.mp h
  obtain ⟨p, -, hrow⟩ := exists_mem_zip_of_forall₂ (mapM_eq_some.mp h).flip hv
  unfold BlockParts.row at hrow
  split at hrow
  · obtain ⟨w, hw, heq⟩ := map_eq_some_iff.mp hrow
    cases heq
    exact of_decide_eq_true (filter_eq_some_iff.mp hw).2
  · split at hrow
    · cases hrow
    · cases hrow

theorem mem_of_mem_selectRows {selection : List Bool} {rows : List α} {v : α}
    (h : v ∈ selectRows selection rows) : v ∈ rows := by
  obtain ⟨p, hp, hsome⟩ := mem_filterMap.mp h
  split at hsome
  · cases hsome
    exact (of_mem_zip hp).2
  · cases hsome

/-- The bytes hold no dictionary with an entry out of range. -/
def EntriesInRange (bytes : List UInt8) : Prop :=
  ∀ parts, parse bytes = .ok parts → parts.EntriesInRange

/-- The evaluation of a byte string computes its rows. -/
theorem evaluateAllBlockTyped_matches (bytes : List UInt8) (expected : PredicateType)
    (predicates : List Predicate) :
    Matches (evaluateAllBlockTyped bytes expected predicates)
      ((parse bytes).toOption.bind fun parts =>
        if parts.dataType = expected then
          parts.rows.map fun values => values.map fun v => evaluateAllValues v predicates
        else none) := by
  have hparse := parse_returns bytes
  refine (of_returns hparse).bind fun parts hparts => ?_
  have hsound : parts.Sound := hparse.of_eq_ok (toOption_eq_some.mp hparts)
  refine guarded_failIf (fun htype => not_not.mpr htype) fun htype => ?_
  exact .guarded (not_not.mp htype) (evaluateParts_matches hsound predicates)

theorem finishArray_returns [DecimalMetadata] (dataType : PredicateType) (l : List (Option Int64)) :
    Returns (finishArray dataType l) fun _ => True := by
  cases dataType with
  | decimal128 precision scale =>
    unfold finishArray
    dsimp only
    cases DecimalMetadata.error precision scale with
    | none => exact .ok trivial
    | some error => exact .fail
  | _ => exact .ok trivial

/-- The array reader copies the selected rows of a byte string. -/
theorem decodeSelectedArray_matches [DecimalMetadata] (bytes : List UInt8) (arrow : ArrowType)
    (selection : List Bool) :
    Matches (decodeSelectedArray bytes arrow selection)
      ((fromArrow arrow).toOption.bind fun expected =>
        (parse bytes).toOption.bind fun parts =>
          if parts.dataType = expected ∧ selection.length = parts.rowCount then
            (if parts.EntriesInRange then parts.rows.map (selectRows selection) else none).bind
              fun l => (finishArray expected l).toOption
          else none) := by
  have hparse := parse_returns bytes
  refine (of_returns (fromArrow_returns arrow)).bind fun expected _ => ?_
  refine (of_returns hparse).bind fun parts hparts => ?_
  have hsound : parts.Sound := hparse.of_eq_ok (toOption_eq_some.mp hparts)
  refine guarded_failIf (fun hd => not_not.mpr hd.1) fun htype => ?_
  refine guarded_failIf (fun hd => not_not.mpr hd.2) fun hlength => ?_
  refine .guarded ⟨not_not.mp htype, not_not.mp hlength⟩ ?_
  refine (visitSelected_matches hsound (not_not.mp hlength)).bind fun l _ => ?_
  exact .of_returns (finishArray_returns expected l)

variable {bytes : List UInt8}

theorem decodeBlock_eq_ok {block : DecodedPredicateBlock} :
    decodeBlock bytes = .ok block ↔ ∃ parts, parse bytes = .ok parts ∧
      parts.dataType = block.dataType ∧ parts.rows = some block.values := by
  rw [(decodeBlock_matches bytes).eq_ok_iff, bind_eq_some_iff]
  constructor
  · rintro ⟨parts, hparts, hmap⟩
    obtain ⟨values, hrows, rfl⟩ := map_eq_some_iff.mp hmap
    exact ⟨parts, toOption_eq_some.mp hparts, rfl, hrows⟩
  · rintro ⟨parts, hparts, htype, hrows⟩
    refine ⟨parts, toOption_eq_some.mpr hparts, ?_⟩
    rw [hrows, map_some, htype]

/-- Where the decoder has no value, a byte string has no rows. -/
theorem rows_eq_none {e : PredicateSidecarError} (h : decodeBlock bytes = fail e)
    (hparts : (parse bytes).toOption = some parts) : parts.rows = none := by
  cases hrows : parts.rows with
  | none => rfl
  | some values =>
    have hok : decodeBlock bytes = .ok { dataType := parts.dataType, values } :=
      decodeBlock_eq_ok.mpr ⟨parts, toOption_eq_some.mp hparts, rfl, hrows⟩
    rw [hok] at h
    cases h

section Agreement

variable (bytes : List UInt8) {block : DecodedPredicateBlock}

theorem evaluate_agrees (h : decodeBlock bytes = .ok block) (predicates : List Predicate) :
    ∃ bits, evaluateAllBlockTyped bytes block.dataType predicates = .ok bits ∧
      List.Forall₂ (fun v bit => bit = true ↔ ∀ predicate ∈ predicates, predicate.Holds v)
        block.values bits := by
  obtain ⟨parts, hparts, htype, hrows⟩ := decodeBlock_eq_ok.mp h
  refine ⟨block.values.map fun v => evaluateAllValues v predicates, ?_, ?_⟩
  · rw [(evaluateAllBlockTyped_matches ..).eq_ok_iff, toOption_eq_some.mpr hparts,
      bind_some, if_pos htype, hrows, map_some]
  · rw [forall₂_map_right_iff, forall₂_same]
    exact fun v _ => evaluateAllValues_iff

variable [DecimalMetadata]

theorem selected_agrees (h : decodeBlock bytes = .ok block) (hentries : EntriesInRange bytes)
    {selection : List Bool} (hlength : selection.length = block.values.length)
    (hscale : block.dataType.ScaleFits) :
    ∃ array, decodeSelectedArray bytes block.dataType.toArrow selection = .ok array ∧
      array.dataType = block.dataType.toArrow ∧
      array.values = (selectRows selection block.values).map (·.map Int64.toInt) := by
  obtain ⟨parts, hparts, htype, hrows⟩ := decodeBlock_eq_ok.mp h
  have hsound := (parse_returns bytes).of_eq_ok hparts
  have hcount : block.values.length = parts.rowCount := by
    have hmap := congrArg length (BlockParts.isNone_of_rows hrows)
    rw [length_map, length_map, length_range] at hmap
    exact hmap
  have hvalid : block.dataType.validate = .ok () := htype ▸ hsound.type_valid
  obtain ⟨hfinish, -⟩ := finishArray_matches hvalid
    (l := selectRows selection block.values) fun v hv =>
      htype ▸ inRange_of_rows hrows (mem_of_mem_selectRows hv)
  obtain ⟨array, harray, hfacts⟩ := hfinish hscale
  refine ⟨array, ?_, hfacts⟩
  rw [(decodeSelectedArray_matches ..).eq_ok_iff,
    toOption_eq_some.mpr (fromArrow_toArrow hvalid), bind_some,
    toOption_eq_some.mpr hparts, bind_some, if_pos ⟨htype, hlength.trans hcount⟩,
    if_pos (hentries parts hparts), hrows, map_some, bind_some]
  exact toOption_eq_some.mpr harray

theorem readers_fail {e : PredicateSidecarError} (h : decodeBlock bytes = fail e) :
    (∀ expected predicates, ∃ e, evaluateAllBlockTyped bytes expected predicates = fail e) ∧
      ∀ arrow selection, ∃ e, decodeSelectedArray bytes arrow selection = fail e := by
  constructor
  · intro expected predicates
    refine (evaluateAllBlockTyped_matches ..).exists_fail ?_
    rw [bind_eq_none_iff]
    intro parts hparts
    rw [rows_eq_none h hparts, map_none, ite_self]
  · intro arrow selection
    refine (decodeSelectedArray_matches ..).exists_fail ?_
    rw [bind_eq_none_iff]
    intro expected _
    rw [bind_eq_none_iff]
    intro parts hparts
    rw [rows_eq_none h hparts, map_none, ite_self, bind_none, ite_self]

/-- On every byte string, the readers succeed with the rows of the decoder where it
succeeds, fail where it fails, and never panic.  The array reader also needs a decimal
type whose scale is at most its precision. -/
theorem readers_agree_with_decoder (predicates : List Predicate) (selection : List Bool) :
    (∀ block, decodeBlock bytes = .ok block → EntriesInRange bytes →
      (∃ bits, evaluateAllBlockTyped bytes block.dataType predicates = .ok bits ∧
        List.Forall₂ (fun v bit => bit = true ↔ ∀ predicate ∈ predicates, predicate.Holds v)
          block.values bits) ∧
      (selection.length = block.values.length → block.dataType.ScaleFits →
        ∃ array, decodeSelectedArray bytes block.dataType.toArrow selection = .ok array ∧
          array.dataType = block.dataType.toArrow ∧
          array.values = (selectRows selection block.values).map (·.map Int64.toInt))) ∧
    (∀ e, decodeBlock bytes = fail e →
      (∀ expected, ∃ e, evaluateAllBlockTyped bytes expected predicates = fail e) ∧
        ∀ arrow, ∃ e, decodeSelectedArray bytes arrow selection = fail e) ∧
    decodeBlock bytes ≠ panic ∧
    (∀ expected, evaluateAllBlockTyped bytes expected predicates ≠ panic) ∧
    ∀ arrow, decodeSelectedArray bytes arrow selection ≠ panic := by
  refine ⟨fun block h hentries => ⟨evaluate_agrees bytes h predicates, ?_⟩, ?_, ?_, ?_, ?_⟩
  · exact fun hlength hscale => selected_agrees bytes h hentries hlength hscale
  · intro e h
    obtain ⟨hevaluate, hselected⟩ := readers_fail bytes h
    exact ⟨fun expected => hevaluate expected predicates, fun arrow => hselected arrow selection⟩
  · exact (decodeBlock_matches bytes).ne_panic
  · exact fun expected => (evaluateAllBlockTyped_matches ..).ne_panic
  · exact fun arrow => (decodeSelectedArray_matches ..).ne_panic

end Agreement

/-- Three rows `-5`, null and `7` of a decimal type of precision five. -/
def sampleBlock (scale : Int8) : List UInt8 :=
  Header.write {
    dataType := .decimal128 5 scale
    encoding := .dictionary
    bitWidth := 1
    rowCount := 3
    nullCount := 1
    auxiliaryCount := 2
    validityLen := 1
    payloadLen := 17 } ++ [5] ++ (i64ToLeBytes (-5) ++ i64ToLeBytes 7 ++ [4])

/-- What the sample is parsed into. -/
def sampleParts (scale : Int8) : BlockParts where
  dataType := .decimal128 5 scale
  encoding := .dictionary
  bitWidth := 1
  rowCount := 3
  nullCount := 1
  auxiliaryCount := 2
  validity := [5]
  payload := i64ToLeBytes (-5) ++ i64ToLeBytes 7 ++ [4]

theorem entriesInRange_of_parse (hparse : parse bytes = .ok parts) (h : parts.EntriesInRange) :
    EntriesInRange bytes := by
  intro other hother
  cases hparse.symm.trans hother
  exact h

/-- A check that refuses only a scale above the precision. -/
@[reducible] def sampleMetadata : DecimalMetadata where
  error precision scale :=
    if scale.toInt ≤ precision.toNat then none else some "scale is greater than precision"
  error_eq_none _ _ := by simp

section

attribute [local instance] sampleMetadata

/-- The readers on the sample with the scale two. -/
theorem sample_readers_agree :
    decodeBlock (sampleBlock 2) =
      .ok { dataType := .decimal128 5 2, values := [some (-5), none, some 7] } ∧
    (∃ bits, evaluateAllBlockTyped (sampleBlock 2) (.decimal128 5 2) [.compare .greater 0] =
        .ok bits ∧
      List.Forall₂ (fun v bit => bit = true ↔
        ∀ predicate ∈ [Predicate.compare .greater 0], predicate.Holds v)
        [some (-5), none, some 7] bits) ∧
    ∃ array, decodeSelectedArray (sampleBlock 2) (.decimal128 5 2) [true, true, false] =
        .ok array ∧
      array.dataType = .decimal128 5 2 ∧ array.values = [some (-5), none] := by
  have hdecode : decodeBlock (sampleBlock 2) =
      .ok { dataType := .decimal128 5 2, values := [some (-5), none, some 7] } := by
    decide +kernel
  have hparse : parse (sampleBlock 2) = .ok (sampleParts 2) := by decide +kernel
  have hentries : EntriesInRange (sampleBlock 2) :=
    entriesInRange_of_parse hparse (by decide +kernel)
  obtain ⟨hevaluate, hselected⟩ := (readers_agree_with_decoder (sampleBlock 2)
    [.compare .greater 0] [true, true, false]).1 _ hdecode hentries
  have hscale : (PredicateType.decimal128 5 2).ScaleFits :=
    show (2 : Int8).toInt ≤ (5 : UInt8).toNat by decide
  exact ⟨hdecode, hevaluate, hselected rfl hscale⟩

end

/-- The decoder takes the sample with the scale ten, and the array reader refuses it, whichever
way the check of the metadata words its error. -/
theorem scale_above_precision_is_refused :
    decodeBlock (sampleBlock 10) =
      .ok { dataType := .decimal128 5 10, values := [some (-5), none, some 7] } ∧
    EntriesInRange (sampleBlock 10) ∧
    ∀ _ : DecimalMetadata, ∃ message,
      decodeSelectedArray (sampleBlock 10) (.decimal128 5 10) [true, true, false] =
        fail (.corrupt ("invalid decimal metadata: " ++ message)) := by
  have hparse : parse (sampleBlock 10) = .ok (sampleParts 10) := by decide +kernel
  have hentries : (sampleParts 10).EntriesInRange := by decide +kernel
  refine ⟨by decide +kernel, entriesInRange_of_parse hparse hentries, fun _ => ?_⟩
  have hrefused : DecimalMetadata.error 5 10 ≠ none := fun h =>
    absurd ((DecimalMetadata.error_eq_none (by decide) (by decide)).mp h) (by decide)
  obtain ⟨message, hmessage⟩ := ne_none_iff_exists'.mp hrefused
  have hvisit : visitSelected (sampleParts 10) [true, true, false] = .ok [some (-5), none] := by
    decide +kernel
  refine ⟨message, ?_⟩
  unfold decodeSelectedArray
  rw [hparse]
  show (visitSelected (sampleParts 10) [true, true, false] >>= finishArray (.decimal128 5 10)) = _
  rw [hvisit]
  show finishArray (.decimal128 5 10) [some (-5), none] = _
  unfold finishArray
  dsimp only
  rw [hmessage]
  rfl

end RustDb.Sidecar
