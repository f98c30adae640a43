import RustDb.Sidecar.Decode

/-!
# The streaming readers of a predicate block

A scan never decodes a block into a list of values.  It evaluates predicates on the
packed ids or deltas, or copies the selected rows to an array.

* `evaluateAllBlockTyped` and `decodeSelectedArray` are the two readers, each with its
  own checks.
* `evaluateParts_matches` and `visitSelected_matches`: both compute the rows of the
  block, and never panic.
-/

namespace RustDb.Sidecar

open RustDb.Lib RustDb.Lib.Checked RustDb.Lib.LittleEndian List BlockParts PackedValues PredicateType Matches

/-! ## Predicates -/

/-- The comparisons with a constant. -/
inductive ComparisonOp where
  | equal
  | notEqual
  | less
  | lessOrEqual
  | greater
  | greaterOrEqual
deriving DecidableEq, Repr

/-- The predicates that a block answers. -/
inductive Predicate where
  | compare (op : ComparisonOp) (value : Int64)
  | isNull
  | isNotNull
deriving DecidableEq, Repr

/-- The comparison of a value with the constant on its right. -/
def compare (lhs rhs : Int64) : ComparisonOp → Bool
  | .equal => lhs = rhs
  | .notEqual => lhs ≠ rhs
  | .less => lhs < rhs
  | .lessOrEqual => lhs ≤ rhs
  | .greater => rhs < lhs
  | .greaterOrEqual => rhs ≤ lhs

/-- A predicate on one row; no comparison holds of a null. -/
def evaluateValue (value : Option Int64) : Predicate → Bool
  | .isNull => value.isNone
  | .isNotNull => value.isSome
  | .compare op rhs => value.any fun lhs => compare lhs rhs op

/-- The conjunction of the predicates on one row. -/
def evaluateAllValues (value : Option Int64) (predicates : List Predicate) : Bool :=
  predicates.all fun predicate => evaluateValue value predicate

/-! ## Evaluating predicates -/

/-- One turn of the loop of `validate_dictionary`. -/
def checkOrder (previous : Option Int64) (value : Int64) : Result (Option Int64) := do
  corruptIf (previous.any fun previous => value ≤ previous)
    "dictionary values are not strictly ordered"
  pure (some value)

/-- `validate_dictionary` of the evaluation. -/
def validateDictionary (dictionary : List UInt8) : Result Unit := do
  let _last ← (dictionaryEntries dictionary).foldlM checkOrder none
  pure ()

/-- The entry of a dictionary with this number. -/
def dictionaryValue (dictionary : List UInt8) (id : Nat) : Result Int64 := do
  let start ← orTooLarge 64 (id * 8)
  let stop ← orTooLarge 64 (start + 8)
  let bytes ← orFail (range? dictionary start stop)
    (.corrupt s!"dictionary id {id} is out of range")
  pure (i64FromLeBytes bytes)

/-- One turn of the loop of `evaluate_dictionary`. -/
def evaluateDictionaryRow (parts : BlockParts) (dictionary : List UInt8)
    (predicates : List Predicate) (row id : Nat) (selection : List Bool) :
    Result (List Bool) := do
  let valid ← isValid parts.validity row
  if valid = false then do
    corruptIf (id ≠ 0) "null dictionary row has a non-zero id"
    pure (selection ++ [evaluateAllValues none predicates])
  else do
    let id ← orTooLarge 64 id
    let value ← dictionaryValue dictionary id
    parts.dataType.validateValue value
    pure (selection ++ [evaluateAllValues (some value) predicates])

/-- The predicates on the rows of a dictionary block, which are read as numbers of entries. -/
def evaluateDictionary (parts : BlockParts) (predicates : List Predicate) :
    Result (List Bool) := do
  let dictionary ← dictionaryTable parts
  validateDictionary dictionary
  let packed ← dictionaryIds parts
  let ids ← new packed parts.rowCount parts.bitWidth
  ids.forEach (evaluateDictionaryRow parts dictionary predicates) []

/-- The value of a row that is not null, in a frame. -/
def frameValue (base : Int64) (delta : Nat) : Result Int64 :=
  orFail (i64TryFrom (base.toInt + delta)) (.corrupt "frame delta overflows i64")

/-- One turn of the loop of `evaluate_frame`: the selection and the largest delta. -/
def evaluateFrameRow (parts : BlockParts) (base : Int64) (predicates : List Predicate)
    (row delta : Nat) (state : List Bool × Nat) : Result (List Bool × Nat) := do
  let maxDelta := max state.2 delta
  let valid ← isValid parts.validity row
  if valid = false then do
    corruptIf (delta ≠ 0) "null frame row has a non-zero delta"
    pure (state.1 ++ [evaluateAllValues none predicates], maxDelta)
  else do
    let value ← frameValue base delta
    parts.dataType.validateValue value
    pure (state.1 ++ [evaluateAllValues (some value) predicates], maxDelta)

/-- The predicates on the rows of a frame block, which are read as distances from its base. -/
def evaluateFrame (parts : BlockParts) (predicates : List Predicate) : Result (List Bool) := do
  corruptIf (parts.auxiliaryCount ≠ 0 ∨ parts.nullCount = parts.rowCount)
    "invalid frame-of-reference metadata"
  let baseBytes ← orFail (range? parts.payload 0 8) (.corrupt "missing frame base")
  let base := i64FromLeBytes baseBytes
  let packed ← slice parts.payload 8 parts.payload.length
  let deltas ← new packed parts.rowCount parts.bitWidth
  let state ← deltas.forEach (evaluateFrameRow parts base predicates) ([], 0)
  corruptIf (parts.bitWidth ≠ bitWidth state.2)
    (frameWidthMessage parts.bitWidth (bitWidth state.2))
  pure state.1

/-- The predicates on the rows of a parsed block. -/
def evaluateParts (parts : BlockParts) (predicates : List Predicate) : Result (List Bool) :=
  match parts.encoding with
  | .dictionary => evaluateDictionary parts predicates
  | .frameOfReference => evaluateFrame parts predicates

/-- The predicates on the rows of a block. -/
def evaluateAllBlock (bytes : List UInt8) (predicates : List Predicate) :
    Result (List Bool) := do
  let parts ← parse bytes
  evaluateParts parts predicates

/-- One predicate on the rows of a block. -/
def evaluateBlock (bytes : List UInt8) (predicate : Predicate) : Result (List Bool) :=
  evaluateAllBlock bytes [predicate]

/-- The error of a block of another type. -/
def typeMismatch (expected found : PredicateType) : String :=
  "predicate block type mismatch: expected " ++ expected.debug ++ ", found " ++ found.debug

/-- The predicates on the rows of a block that must have the type of its column. -/
def evaluateAllBlockTyped (bytes : List UInt8) (expected : PredicateType)
    (predicates : List Predicate) : Result (List Bool) := do
  let parts ← parse bytes
  corruptIf (parts.dataType ≠ expected) (typeMismatch expected parts.dataType)
  evaluateParts parts predicates

/-! ## Copying selected rows -/

/-- The arrays that the reader builds. -/
inductive ArrayRef where
  | int8 (values : List (Option Int8))
  | int16 (values : List (Option Int16))
  | int32 (values : List (Option Int32))
  | int64 (values : List (Option Int64))
  | date32 (values : List (Option Int32))
  | decimal128 (precision : UInt8) (scale : Int8) (values : List (Option Int))
deriving DecidableEq, Repr

/-- `validate_dictionary` of the array reader, which also checks the range. -/
def validateTypedDictionary (dataType : PredicateType) (dictionary : List UInt8) :
    Result Unit := do
  let _last ← (dictionaryEntries dictionary).foldlM (fun previous value => do
    dataType.validateValue value
    checkOrder previous value) none
  pure ()

/-- A row is appended if the selection has it. -/
def appendSelected (selection : List Bool) (row : Nat) (value : Option Int64)
    (appended : List (Option Int64)) : Result (List (Option Int64)) := do
  let selected ← index selection row
  pure (if selected then appended ++ [value] else appended)

/-- The value of a row, as `visit_dictionary` computes it. -/
def visitDictionaryValue (parts : BlockParts) (dictionary : List UInt8) (row id : Nat) :
    Result (Option Int64) := do
  let valid ← isValid parts.validity row
  if valid then do
    let id ← orTooLarge 64 id
    let value ← dictionaryValue dictionary id
    pure (some value)
  else do
    corruptIf (id ≠ 0) "null dictionary row has a non-zero id"
    pure none

/-- The selected rows of a dictionary block; the rows between them are checked too. -/
def visitDictionary (parts : BlockParts) (selection : List Bool) :
    Result (List (Option Int64)) := do
  let dictionary ← dictionaryTable parts
  validateTypedDictionary parts.dataType dictionary
  let packed ← dictionaryIds parts
  let ids ← new packed parts.rowCount parts.bitWidth
  ids.forEach (fun row id appended => do
    let value ← visitDictionaryValue parts dictionary row id
    appendSelected selection row value appended) []

/-- The value of a row, as `visit_frame` computes it. -/
def visitFrameValue (parts : BlockParts) (base : Int64) (row delta : Nat) :
    Result (Option Int64) := do
  let valid ← isValid parts.validity row
  if valid then do
    let value ← frameValue base delta
    parts.dataType.validateValue value
    pure (some value)
  else do
    corruptIf (delta ≠ 0) "null frame row has a non-zero delta"
    pure none

/-- The selected rows of a frame block; the rows between them are checked too. -/
def visitFrame (parts : BlockParts) (selection : List Bool) :
    Result (List (Option Int64)) := do
  corruptIf (parts.auxiliaryCount ≠ 0 ∨ parts.nullCount = parts.rowCount)
    "invalid frame-of-reference metadata"
  let baseBytes ← orFail (range? parts.payload 0 8) (.corrupt "missing frame base")
  let base := i64FromLeBytes baseBytes
  let packed ← slice parts.payload 8 parts.payload.length
  let deltas ← new packed parts.rowCount parts.bitWidth
  let state ← deltas.forEach (fun row delta (state : List (Option Int64) × Nat) => do
    let value ← visitFrameValue parts base row delta
    let appended ← appendSelected selection row value state.1
    pure (appended, max state.2 delta)) ([], 0)
  corruptIf (parts.bitWidth ≠ bitWidth state.2)
    (frameWidthMessage parts.bitWidth (bitWidth state.2))
  pure state.1

/-- The selected rows of a parsed block. -/
def visitSelected (parts : BlockParts) (selection : List Bool) :
    Result (List (Option Int64)) :=
  match parts.encoding with
  | .dictionary => visitDictionary parts selection
  | .frameOfReference => visitFrame parts selection

/-- Arrow's `with_precision_and_scale`: the text of its error, if it refuses a precision
and a scale.  It documents that a positive scale must not exceed the precision. -/
class DecimalMetadata where
  error : UInt8 → Int8 → Option String
  error_eq_none {precision : UInt8} {scale : Int8} :
    1 ≤ precision.toNat → precision.toNat ≤ 38 →
      (error precision scale = none ↔ scale.toInt ≤ precision.toNat)

section

variable [DecimalMetadata]

/-- The typed array of the appended values. -/
def finishArray (dataType : PredicateType) (values : List (Option Int64)) : Result ArrayRef :=
  match dataType with
  | .int8 => .ok (.int8 (values.map (·.map Int64.toInt8)))
  | .int16 => .ok (.int16 (values.map (·.map Int64.toInt16)))
  | .int32 => .ok (.int32 (values.map (·.map Int64.toInt32)))
  | .int64 => .ok (.int64 values)
  | .date32 => .ok (.date32 (values.map (·.map Int64.toInt32)))
  | .decimal128 precision scale =>
    match DecimalMetadata.error precision scale with
    | some error => corrupt s!"invalid decimal metadata: {error}"
    | none => .ok (.decimal128 precision scale (values.map (·.map Int64.toInt)))

/-- The selected rows of a block as an array of the type of its column.  Every row is checked, also
those that are not selected. -/
def decodeSelectedArray (bytes : List UInt8) (dataType : ArrowType) (selection : List Bool) :
    Result ArrayRef := do
  let expected ← fromArrow dataType
  let parts ← parse bytes
  corruptIf (parts.dataType ≠ expected) (typeMismatch expected parts.dataType)
  corruptIf (selection.length ≠ parts.rowCount)
    ("selection has " ++ toString selection.length ++ " rows, expected " ++
      toString parts.rowCount)
  let values ← visitSelected parts selection
  finishArray expected values

end

/-! ## Reading the dictionary -/

-- `Int64` is a finite type, and the search would otherwise run through all its values.
instance (priority := 2000) decidableBAllInt64 {P : Int64 → Prop} [DecidablePred P]
    (l : List Int64) : Decidable (∀ v ∈ l, P v) :=
  List.decidableBAll P l

/-- The loop over the dictionary checks every entry and the order of all of them. -/
theorem foldlM_checkOrder (check : Int64 → Result Unit) (P : Int64 → Prop) [DecidablePred P]
    (hcheck : ∀ v, Matches (check v) (if P v then some () else none)) (l : List Int64)
    (previous : Option Int64) :
    Matches (l.foldlM (fun previous v => check v >>= fun _ => checkOrder previous v) previous
        >>= fun _ => .ok ())
      (if outOfOrder (previous.toList ++ l) = false ∧ ∀ v ∈ l, P v then some ()
        else none) := by
  induction l generalizing previous with
  | nil =>
    refine .guarded ⟨?_, fun v hv => (not_mem_nil hv).elim⟩ .ok
    cases previous <;> rfl
  | cons v l ih =>
    rw [foldlM_cons, bind_assoc, bind_assoc]
    refine (hcheck v).guarded_bind (fun hd => hd.2 v (mem_cons_self ..)) fun hv => ?_
    have horder : outOfOrder (previous.toList ++ v :: l) =
        (previous.any (fun previous => decide (v ≤ previous)) || outOfOrder (v :: l)) := by
      cases previous <;> rfl
    rw [horder, checkOrder, bind_assoc]
    refine guarded_failIf (fun hd => ?_) fun hprevious => ?_
    · exact ne_true_of_eq_false (Bool.or_eq_false_iff.mp hd.1).1
    have hiff : (outOfOrder ((some v).toList ++ l) = false ∧ ∀ w ∈ l, P w) ↔
        ((previous.any (fun previous => decide (v ≤ previous)) || outOfOrder (v :: l)) = false ∧
          ∀ w ∈ v :: l, P w) := by
      rw [eq_false_of_ne_true hprevious, Bool.false_or, forall_mem_cons]
      exact ⟨fun h => ⟨h.1, hv, h.2⟩, fun h => ⟨h.1, h.2.2⟩⟩
    simp only [← hiff]
    exact ih (some v)

theorem validateDictionary_matches (table : List UInt8) :
    Matches (validateDictionary table)
      (if outOfOrder (dictionaryEntries table) = false then some () else none) := by
  have h := foldlM_checkOrder (fun _ => .ok ()) (fun _ => True)
    (fun _ => .guarded trivial .ok) (dictionaryEntries table) none
  simp only [implies_true, and_true] at h
  exact h

variable {dataType : PredicateType}

theorem validateTypedDictionary_matches (htype : dataType.validate = .ok ()) (table : List UInt8) :
    Matches (validateTypedDictionary dataType table)
      (if outOfOrder (dictionaryEntries table) = false ∧
          ∀ v ∈ dictionaryEntries table, dataType.InRange v
        then some () else none) :=
  foldlM_checkOrder _ _ (validateValue_matches htype) (dictionaryEntries table) none

theorem dictionaryValue_matches {table : List UInt8} (hlength : table.length < 2 ^ 64)
    (id : Nat) : Matches (dictionaryValue table id) (dictionaryEntries table)[id]? := by
  have hentry : (dictionaryEntries table)[id]? =
      if id * 8 + 8 ≤ table.length then some (i64FromLeBytes ((table.drop (id * 8)).take 8))
        else none := by
    rw [dictionaryEntries, getElem?_map, chunksExact]
    split
    · rw [getElem?_chunks (by omega), Option.map_some]
    · rw [getElem?_eq_none (by rw [length_chunks]; omega), Option.map_none]
  rw [hentry, dictionaryValue]
  refine (orTooLarge_matches 64 _).guarded_bind (fun hd => by omega) fun _ => ?_
  refine (orTooLarge_matches 64 _).guarded_bind (fun hd => by omega) fun _ => ?_
  by_cases hle : id * 8 + 8 ≤ table.length
  · refine .guarded hle ?_
    rw [range?_eq (Nat.le_add_right ..) hle, drop_take, Nat.add_sub_cancel_left]
    exact .ok
  · rw [if_neg hle, range?, if_neg fun h => hle h.2]
    exact .fail

/-! ## Reading one row -/

variable {parts : BlockParts} {β : Type} {slot row : Nat}

/-- A row as the readers compute it, from a reader of the rows that are not null. -/
theorem readRow_matches (h : parts.Sound) (hrow : row < parts.rowCount) (message : String)
    {present : Result β} (f : Option Int64 → β)
    (hpresent : parts.valid row = true → Matches present
      (((parts.lookup slot).filter fun v => parts.dataType.InRange v).map fun v => f (some v))) :
    Matches (isValid parts.validity row >>= fun valid =>
        if valid = false then corruptIf (slot ≠ 0) message >>= fun _ => .ok (f none)
        else present)
      ((parts.row slot row).map f) := by
  rw [BlockParts.isValid_row h hrow, ok_bind, BlockParts.row]
  cases hvalid : parts.valid row with
  | true =>
    rw [if_neg Bool.noConfusion, if_pos rfl, Option.map_map]
    exact hpresent hvalid
  | false =>
    rw [if_pos rfl, if_neg Bool.noConfusion]
    by_cases hslot : slot = 0
    · rw [corruptIf, failIf_eq (not_not.mpr hslot), if_pos hslot]
      exact .ok
    · rw [corruptIf, failIf, if_pos hslot, if_neg hslot]
      exact .fail

/-- `readRow_matches` for a reader that takes the rows that are not null first. -/
theorem readPresentRow_matches (h : parts.Sound) (hrow : row < parts.rowCount) {message : String}
    {present : Result (Option Int64)} (hpresent : parts.valid row = true → Matches present
      (((parts.lookup slot).filter fun v => parts.dataType.InRange v).map some)) :
    Matches (isValid parts.validity row >>= fun valid =>
        if valid then present
        else corruptIf (slot ≠ 0) message >>= fun _ => .ok none)
      (parts.row slot row) := by
  have hread := readRow_matches h hrow message id hpresent
  rw [Option.map_id_apply] at hread
  have hflip : (fun valid : Bool => if valid then present
      else corruptIf (slot ≠ 0) message >>= fun _ => .ok none) =
      fun valid => if valid = false then
        corruptIf (slot ≠ 0) message >>= fun _ => .ok none else present := by
    funext valid
    cases valid <;> rfl
  rw [hflip]
  exact hread

/-- A value that is checked before it is used. -/
theorem validated_matches (htype : dataType.validate = .ok ()) {m : Result Int64}
    {o : Option Int64} (hm : Matches m o) (f : Int64 → β) :
    Matches (m >>= fun v => dataType.validateValue v >>= fun _ => .ok (f v))
      ((o.filter fun v => dataType.InRange v).map f) := by
  have hbind := hm.bind fun v _ =>
    (validateValue_matches htype v).map (f := fun _ => f v)
  convert hbind using 1
  cases o with
  | none => rfl
  | some v => by_cases hrange : dataType.InRange v <;> simp [hrange]

section Rows

variable {parts : BlockParts} (h : parts.Sound)

theorem lookup_dictionary (hencoding : parts.encoding = .dictionary) (slot : Nat) :
    parts.lookup slot =
      (dictionaryEntries (parts.payload.take (parts.auxiliaryCount * 8)))[slot]? := by
  rw [BlockParts.lookup, hencoding]
  rfl

theorem lookup_frame (hencoding : parts.encoding = .frameOfReference) (slot : Nat) :
    parts.lookup slot = i64TryFrom (parts.base.toInt + slot) := by
  rw [BlockParts.lookup, hencoding]

include h

theorem length_table_lt : (parts.payload.take (parts.auxiliaryCount * 8)).length < 2 ^ 64 := by
  have := h.payload_lt
  rw [length_take]
  omega

variable {p : Nat × Nat}

theorem slot_lt (hp : p ∈ parts.slots.zipIdx) : p.1 < 2 ^ 64 :=
  lt_of_lt_of_le (slot_lt_of_mem_slots hp)
    (Nat.pow_le_pow_right (by decide) h.width_le)

theorem evaluateDictionaryRow_matches (hencoding : parts.encoding = .dictionary)
    (predicates : List Predicate) (hp : p ∈ parts.slots.zipIdx) (selection : List Bool) :
    Matches (evaluateDictionaryRow parts (parts.payload.take (parts.auxiliaryCount * 8))
        predicates p.2 p.1 selection)
      ((parts.row p.1 p.2).map fun v => selection ++ [evaluateAllValues v predicates]) := by
  refine readRow_matches h (row_lt_of_mem_slots hp) _
    (fun v => selection ++ [evaluateAllValues v predicates]) fun _ => ?_
  rw [orTooLarge_eq (slot_lt h hp), ok_bind, lookup_dictionary hencoding]
  exact validated_matches h.type_valid (dictionaryValue_matches (length_table_lt h) p.1)
    fun v => selection ++ [evaluateAllValues (some v) predicates]

theorem evaluateFrameRow_matches (hencoding : parts.encoding = .frameOfReference)
    (predicates : List Predicate) (hp : p ∈ parts.slots.zipIdx) (state : List Bool × Nat) :
    Matches (evaluateFrameRow parts parts.base predicates p.2 p.1 state)
      ((parts.row p.1 p.2).map fun v =>
        (state.1 ++ [evaluateAllValues v predicates], max state.2 p.1)) := by
  refine readRow_matches h (row_lt_of_mem_slots hp) _
    (fun v => (state.1 ++ [evaluateAllValues v predicates], max state.2 p.1)) fun _ => ?_
  rw [lookup_frame hencoding]
  exact validated_matches h.type_valid .orFail
    fun v => (state.1 ++ [evaluateAllValues (some v) predicates], max state.2 p.1)

/-- With all entries of the dictionary in range no value has to be checked. -/
theorem visitDictionaryValue_matches (hencoding : parts.encoding = .dictionary)
    (hrange : ∀ v ∈ parts.dictionary, parts.dataType.InRange v) (hp : p ∈ parts.slots.zipIdx) :
    Matches (visitDictionaryValue parts (parts.payload.take (parts.auxiliaryCount * 8))
      p.2 p.1) (parts.row p.1 p.2) := by
  refine readPresentRow_matches h (row_lt_of_mem_slots hp) fun _ => ?_
  have hfilter : ((parts.lookup p.1).filter fun v => parts.dataType.InRange v) =
      parts.lookup p.1 := by
    cases hlookup : parts.lookup p.1 with
    | none => rfl
    | some v =>
      rw [lookup_dictionary hencoding] at hlookup
      rw [Option.filter_some, decide_eq_true (hrange v (mem_of_getElem? hlookup))]
      rfl
  rw [hfilter, orTooLarge_eq (slot_lt h hp), ok_bind, lookup_dictionary hencoding]
  exact (dictionaryValue_matches (length_table_lt h) p.1).map

theorem visitFrameValue_matches (hencoding : parts.encoding = .frameOfReference)
    (hp : p ∈ parts.slots.zipIdx) :
    Matches (visitFrameValue parts parts.base p.2 p.1) (parts.row p.1 p.2) := by
  refine readPresentRow_matches h (row_lt_of_mem_slots hp) fun _ => ?_
  rw [lookup_frame hencoding]
  exact validated_matches h.type_valid .orFail some

end Rows

/-! ## The loops -/

variable {γ : Type}

/-- A loop that adds one element for every row. -/
theorem foldl_zip_append {α : Type} (f : β → γ) (l : List α) (bs : List β)
    (hlength : bs.length = l.length) (acc : List γ) :
    (l.zip bs).foldl (fun acc p => acc ++ [f p.2]) acc = acc ++ bs.map f := by
  induction l generalizing bs acc with
  | nil =>
    rw [length_eq_zero_iff.mp hlength]
    simp
  | cons a l ih =>
    cases bs with
    | nil => cases hlength
    | cons b bs =>
      rw [zip_cons_cons, foldl_cons, ih bs (Nat.succ.inj hlength), map_cons, append_assoc]
      rfl

/-- The two components of the state of a loop over a frame. -/
theorem foldl_zip_pair (push : γ → Nat × Nat → β → γ) (l : List (Nat × Nat)) (bs : List β)
    (hlength : bs.length = l.length) (state : γ × Nat) :
    (l.zip bs).foldl (fun state p => (push state.1 p.1 p.2, max state.2 p.1.1)) state =
      ((l.zip bs).foldl (fun acc p => push acc p.1 p.2) state.1,
        (l.map Prod.fst).foldl max state.2) := by
  induction l generalizing bs state with
  | nil => rfl
  | cons a l ih =>
    cases bs with
    | nil => cases hlength
    | cons b bs =>
      rw [zip_cons_cons, foldl_cons, ih bs (Nat.succ.inj hlength)]
      rfl

/-- The width that the decoder expects, from the maximum that a loop keeps. -/
theorem bitWidth_foldl_max (deltas : List Nat) :
    bitWidth (deltas.foldl max 0) = deltas.max?.elim 0 bitWidth := by
  cases deltas with
  | nil => rfl
  | cons a deltas => rw [foldl_cons, zero_max]; rfl

/-- The rows that a selection marks. -/
def selectRows {α : Type} (selection : List Bool) (rows : List α) : List α :=
  (selection.zip rows).filterMap fun p => if p.1 then some p.2 else none

theorem foldl_zip_select (slots : List Nat) (rows : List β) (hlength : rows.length = slots.length)
    (selection : List Bool) (k : Nat) (hselection : selection.length = k + rows.length)
    (acc : List β) :
    ((slots.zipIdx k).zip rows).foldl
        (fun acc p => if selection.getD p.1.2 false then acc ++ [p.2] else acc) acc =
      acc ++ selectRows (selection.drop k) rows := by
  induction slots generalizing rows k acc with
  | nil =>
    rw [length_eq_zero_iff.mp hlength]
    simp [selectRows]
  | cons slot slots ih =>
    cases rows with
    | nil => cases hlength
    | cons v rows =>
      rw [length_cons] at hselection
      have hk : k < selection.length := by omega
      rw [zipIdx_cons, zip_cons_cons, foldl_cons,
        ih rows (Nat.succ.inj hlength) (k + 1) (by omega), drop_eq_getElem_cons hk,
        getD_eq_getElem?_getD, getElem?_eq_getElem hk, Option.getD_some]
      generalize selection[k] = selected
      cases selected <;> simp [selectRows]

theorem length_rows {values : List (Option Int64)}
    (h : (parts.slots.zipIdx.mapM fun p => parts.row p.1 p.2) = some values) :
    values.length = parts.slots.zipIdx.length :=
  (mapM_eq_some.mp h).length_eq.symm

section Readers

variable {f : List (Option Int64) → List γ} (push : List γ → Nat × Nat → Option Int64 → List γ)
  (hf : ∀ values, (parts.slots.zipIdx.mapM fun p => parts.row p.1 p.2) = some values →
    (parts.slots.zipIdx.zip values).foldl (fun acc p => push acc p.1 p.2) [] = f values)

include hf

/-- A reader of a dictionary, from its check and the body of its loop. -/
theorem dictionary_matches (h : parts.Sound) (hencoding : parts.encoding = .dictionary)
    {check : List UInt8 → Result Unit} {C : Prop} [Decidable C]
    (hcheck : Matches (check (parts.payload.take (parts.auxiliaryCount * 8)))
      (if outOfOrder parts.dictionary = false ∧ C then some () else none))
    (step : List UInt8 → Nat → Nat → List γ → Result (List γ))
    (hstep : C → ∀ p ∈ parts.slots.zipIdx, ∀ acc,
      Matches (step (parts.payload.take (parts.auxiliaryCount * 8)) p.2 p.1 acc)
        ((parts.row p.1 p.2).map (push acc p))) :
    Matches (do
        let dictionary ← dictionaryTable parts
        check dictionary
        let packed ← dictionaryIds parts
        let ids ← new packed parts.rowCount parts.bitWidth
        ids.forEach (step dictionary) [])
      (if C then parts.rows.map f else none) := by
  have hlayout := layout_dictionary hencoding
  have hrows : (if C then parts.rows.map f else none) = if parts.Layout ∧ C then
      (parts.slots.zipIdx.mapM fun p => parts.row p.1 p.2).map f else none := by
    rw [rows]
    by_cases hl : parts.Layout <;> simp [hl]
  rw [hrows]
  refine (dictionaryTable_matches h).guarded_bind
    (fun hd => ⟨(hlayout.mp hd.1).2.1, (hlayout.mp hd.1).2.2.1⟩) fun hhead => ?_
  refine hcheck.guarded_bind (fun hd => ⟨(hlayout.mp hd.1).2.2.2, hd.2⟩) fun hentries => ?_
  rw [dictionaryIds_eq hencoding hhead.2, ok_bind]
  refine (new_matches ..).guarded_bind (fun hd => (hlayout.mp hd.1).1)
    fun hpacked => ?_
  refine .guarded ⟨hlayout.mpr ⟨hpacked, hhead.1, hhead.2, hentries.1⟩, hentries.2⟩ ?_
  rw [forEach_start hpacked]
  have hloop := foldlM _ push (hstep hentries.2) []
  rwa [Option.map_congr hf] at hloop

/-- A reader of a frame, from the body of its loop. -/
theorem frame_matches (hencoding : parts.encoding = .frameOfReference)
    (step : Int64 → Nat → Nat → List γ × Nat → Result (List γ × Nat))
    (hstep : ∀ p ∈ parts.slots.zipIdx, ∀ state, Matches (step parts.base p.2 p.1 state)
      ((parts.row p.1 p.2).map fun v => (push state.1 p v, max state.2 p.1))) :
    Matches (do
        corruptIf (parts.auxiliaryCount ≠ 0 ∨ parts.nullCount = parts.rowCount)
          "invalid frame-of-reference metadata"
        let baseBytes ← orFail (range? parts.payload 0 8) (.corrupt "missing frame base")
        let packed ← slice parts.payload 8 parts.payload.length
        let deltas ← new packed parts.rowCount parts.bitWidth
        let state ← deltas.forEach (step (i64FromLeBytes baseBytes)) ([], 0)
        corruptIf (parts.bitWidth ≠ bitWidth state.2)
          (frameWidthMessage parts.bitWidth (bitWidth state.2))
        pure state.1) (parts.rows.map f) := by
  have hlayout := layout_frame hencoding
  rw [rows, apply_ite (Option.map _), Option.map_none]
  refine guarded_failIf (fun hl => ?_) fun hmetadata => ?_
  · exact not_or.mpr ⟨not_not.mpr (hlayout.mp hl).2.2.1, (hlayout.mp hl).2.2.2.2⟩
  obtain ⟨hauxiliary, hnulls⟩ := not_or.mp hmetadata
  refine (frameBase_matches parts.payload).guarded_bind (fun hl => (hlayout.mp hl).2.2.2.1)
    fun hlength => ?_
  rw [frameDeltas_eq hencoding hlength, ok_bind]
  refine (new_matches ..).guarded_bind (fun hl => (hlayout.mp hl).1) fun hpacked => ?_
  rw [forEach_start hpacked]
  have hloop := foldlM (fun p : Nat × Nat => parts.row p.1 p.2)
    (fun state p v => (push state.1 p v, max state.2 p.1)) hstep ([], 0)
  rw [Option.map_congr fun values hvalues =>
    foldl_zip_pair push _ values (length_rows hvalues) ([], 0), zipIdx_map_fst] at hloop
  change Matches (parts.slots.zipIdx.foldlM (fun state p => step parts.base p.2 p.1 state)
    ([], 0) >>= _) _
  -- the width is checked against the largest delta of the loop
  cases hrows : parts.slots.zipIdx.mapM fun p => parts.row p.1 p.2 with
  | none =>
    rw [hrows] at hloop
    obtain ⟨e, he⟩ := hloop.exists_fail rfl
    rw [he, Option.map_none, ite_self]
    exact .fail
  | some values =>
    rw [hrows] at hloop
    rw [hloop.eq_ok_iff.mpr rfl, ok_bind, bitWidth_foldl_max]
    refine guarded_failIf (fun hl => not_not.mpr (hlayout.mp hl).2.1) fun hwidth => ?_
    refine .guarded (hlayout.mpr ⟨hpacked, not_not.mp hwidth, not_not.mp hauxiliary, hlength,
      hnulls⟩) ?_
    rw [Option.map_some, ← hf values hrows]
    exact .ok

end Readers

/-- The loops of the evaluation select row by row. -/
theorem foldl_evaluate (predicates : List Predicate) (values : List (Option Int64))
    (h : (parts.slots.zipIdx.mapM fun p => parts.row p.1 p.2) = some values) :
    (parts.slots.zipIdx.zip values).foldl
        (fun acc p => acc ++ [evaluateAllValues p.2 predicates]) [] =
      values.map (evaluateAllValues · predicates) :=
  foldl_zip_append (evaluateAllValues · predicates) _ values (length_rows h) []

/-- The evaluation computes the rows of a block. -/
theorem evaluateParts_matches (h : parts.Sound)
    (predicates : List Predicate) :
    Matches (evaluateParts parts predicates)
      (parts.rows.map fun values => values.map fun v => evaluateAllValues v predicates) := by
  unfold evaluateParts
  cases hencoding : parts.encoding with
  | dictionary =>
    have hcheck : Matches _ (if outOfOrder parts.dictionary = false then some () else none) :=
      validateDictionary_matches (parts.payload.take (parts.auxiliaryCount * 8))
    have hread := dictionary_matches (fun acc _ v => acc ++ [evaluateAllValues v predicates])
      (foldl_evaluate predicates) h hencoding (C := True) (by simpa only [and_true] using hcheck)
      (evaluateDictionaryRow parts · predicates)
      fun _ p hp => evaluateDictionaryRow_matches h hencoding predicates hp
    rwa [if_pos trivial] at hread
  | frameOfReference =>
    exact frame_matches (fun acc _ v => acc ++ [evaluateAllValues v predicates])
      (foldl_evaluate predicates) hencoding (evaluateFrameRow parts · predicates)
      fun p hp => evaluateFrameRow_matches h hencoding predicates hp

/-! ## The array reader -/

theorem appendSelected_eq {selection : List Bool} (hrow : row < selection.length)
    (value : Option Int64) (appended : List (Option Int64)) :
    appendSelected selection row value appended =
      .ok (if selection.getD row false then appended ++ [value] else appended) := by
  have hget := getElem?_eq_getElem hrow
  rw [appendSelected, index_eq hget, ok_bind, getD_eq_getElem?_getD, hget, Option.getD_some]
  rfl

/-- Every entry of the dictionary is in range, whether a row uses it or not. -/
def BlockParts.EntriesInRange (parts : BlockParts) : Prop :=
  parts.encoding = .dictionary → ∀ v ∈ parts.dictionary, parts.dataType.InRange v

instance (parts : BlockParts) : Decidable parts.EntriesInRange :=
  inferInstanceAs (Decidable (parts.encoding = .dictionary →
    ∀ v ∈ parts.dictionary, parts.dataType.InRange v))

section Visit

variable {parts : BlockParts} (h : parts.Sound) {selection : List Bool}
  (hselection : selection.length = parts.rowCount)

include hselection

/-- The selected rows, from what the loop appends. -/
theorem foldl_select_rows (values : List (Option Int64))
    (hvalues : (parts.slots.zipIdx.mapM fun p => parts.row p.1 p.2) = some values) :
    (parts.slots.zipIdx.zip values).foldl
        (fun acc p => if selection.getD p.1.2 false then acc ++ [p.2] else acc) [] =
      selectRows selection values := by
  have hlength := length_rows hvalues
  rw [length_zipIdx] at hlength
  have hrows : values.length = parts.rowCount := by
    rw [hlength, slots, length_fields]
  rw [foldl_zip_select parts.slots values hlength selection 0 (by omega), nil_append, drop_zero]

include h

theorem visitSelected_matches :
    Matches (visitSelected parts selection)
      (if parts.EntriesInRange then parts.rows.map (selectRows selection) else none) := by
  have happend (p) (hp : p ∈ parts.slots.zipIdx) (v : Option Int64) :=
    appendSelected_eq (hselection ▸ row_lt_of_mem_slots hp) v
  unfold visitSelected
  cases hencoding : parts.encoding with
  | dictionary =>
    have hcheck := validateTypedDictionary_matches h.type_valid
      (parts.payload.take (parts.auxiliaryCount * 8))
    simp only [EntriesInRange, hencoding, forall_true_left]
    refine dictionary_matches (fun acc p v => if selection.getD p.2 false then acc ++ [v] else acc)
      (foldl_select_rows hselection) h hencoding hcheck _ fun hrange p hp acc => ?_
    simp only [happend p hp]
    exact (visitDictionaryValue_matches h hencoding hrange hp).map
  | frameOfReference =>
    have hentries : parts.EntriesInRange := by
      intro hdictionary
      rw [hencoding] at hdictionary
      cases hdictionary
    rw [if_pos hentries]
    refine frame_matches (fun acc p v => if selection.getD p.2 false then acc ++ [v] else acc)
      (foldl_select_rows hselection) hencoding (fun base row delta state => do
        let value ← visitFrameValue parts base row delta
        let appended ← appendSelected selection row value state.1
        pure (appended, max state.2 delta)) fun p hp state => ?_
    simp only [happend p hp]
    exact (visitFrameValue_matches h hencoding hp).map

end Visit

end RustDb.Sidecar
