import RustDb.Execution.AggregateState
import RustDb.Execution.CellKeys

/-!
# Aggregation in any order

When the value of an aggregate does not depend on the order of its inputs, on how they are
split over partial states and on how these are merged.

* `Supported`, `InputOf`: the aggregates over integers, decimals, strings, dates and intervals,
  and their inputs.
* `checkedSum_i128`: sums of integers and decimals, which may leave the range in one order only.
* `IsExtreme`: the values that `MIN` and `MAX` may end with.  Different intervals may be equal.
* `aggregation_is_order_free_iff`: the inputs for which all evaluations agree.
-/

namespace RustDb.Execution.Aggregate

open RustDb.Lib RustDb.Lib.Checked RustDb.Sql AggregateState List Option LittleEndian CellValue

variable {F : Type}

/-! ## Inputs -/

/-- The variant of the inputs of an aggregate. -/
def inputKind (expression : AggregateExpr) : Option CellKind :=
  expression.expr.bind fun expr => cellKind expr.dataType

/-- An input of an aggregate is a cell of its argument. -/
def InputOf (expression : AggregateExpr) (value : Option (CellValue F)) : Prop :=
  ∀ expr ∈ expression.expr, ∀ cell ∈ value, HasType expr.dataType cell

/-- Whether `COUNT` counts an input. -/
def counts (expression : AggregateExpr) (value : Option (CellValue F)) : Bool :=
  expression.expr.isNone || (nonNull value).isSome

/-- The number that an input adds to a sum. -/
def weight (value : Option (CellValue F)) : Int :=
  match value with
  | some (.int64 value) => value.toInt
  | some (.uint64 value) => value.toNat
  | some (.decimal128 value) => value
  | _ => 0

variable {value : Option (CellValue F)} {cell : CellValue F}

theorem nonNull_eq_some : nonNull value = some cell ↔ value = some cell ∧ cell ≠ .null := by
  unfold nonNull
  rw [filter_eq_some_iff]
  cases cell <;> simp [isNull]

theorem nonNull_eq_none :
    nonNull value = none ↔ value.getD .null = .null := by
  cases value with
  | none => simp [nonNull]
  | some cell => cases cell <;> simp [nonNull, isNull]

variable {expression : AggregateExpr}

/-- The inputs of an aggregate are null or of its variant. -/
theorem InputOf.kind {kind : CellKind} (h : InputOf expression value)
    (hkind : inputKind expression = some kind) (hcell : nonNull value = some cell) :
    cell.kind = kind ∧ cell.InRange := by
  obtain ⟨hvalue, hnull⟩ := nonNull_eq_some.mp hcell
  obtain ⟨expr, hexpr, hdata⟩ := bind_eq_some_iff.mp hkind
  rcases h expr hexpr cell hvalue with hnot | ⟨htype, hrange⟩
  · exact absurd hnot hnull
  · rw [hdata] at htype
    exact ⟨(some.inj htype).symm, hrange⟩

/-! ## Counts -/

/-- `COUNT` adds one for each input that it counts. -/
def countWeight (expression : AggregateExpr) (value : Option (CellValue F)) : Int :=
  if counts expression value then 1 else 0

theorem checkedAddI64_ofInt {left right : Int} (hleft : -2 ^ 63 ≤ left ∧ left ≤ 2 ^ 63 - 1)
    (hright : -2 ^ 63 ≤ right ∧ right ≤ 2 ^ 63 - 1) :
    checkedAddI64 (Int64.ofInt left) (Int64.ofInt right) =
      if -2 ^ 63 ≤ left + right ∧ left + right ≤ 2 ^ 63 - 1 then
        some (Int64.ofInt (left + right))
      else none := by
  have hleft' : (Int64.ofInt left).toInt = left :=
    Int64.toInt_ofInt_of_le hleft.1 (by omega)
  have hright' : (Int64.ofInt right).toInt = right :=
    Int64.toInt_ofInt_of_le hright.1 (by omega)
  rw [checkedAddI64, hleft', hright']

/-- Adding to a count in the range that it has. -/
theorem orFail_checkedAddI64 {left right : Int} (hleft : -2 ^ 63 ≤ left ∧ left ≤ 2 ^ 63 - 1)
    (hright : -2 ^ 63 ≤ right ∧ right ≤ 2 ^ 63 - 1) (error : Error) :
    (orFail (checkedAddI64 (Int64.ofInt left) (Int64.ofInt right)) error >>= fun rows =>
      (.ok (.count rows) : Result (AggregateState F))) =
      if -2 ^ 63 ≤ left + right ∧ left + right ≤ 2 ^ 63 - 1 then
        .ok (.count (Int64.ofInt (left + right)))
      else .fail error := by
  rw [checkedAddI64_ofInt hleft hright]
  split <;> rfl

section

variable [Platform F]

theorem update_count (expression : AggregateExpr) (rows : Int64)
    (value : Option (CellValue F)) :
    (AggregateState.count rows).update expression value =
      if counts expression value then
        (orFail (checkedAddI64 rows 1) (.execution "count overflowed INT64") >>=
          fun rows => .ok (.count rows))
      else .ok (.count rows) := by
  simp only [update, counts, Bool.or_eq_true]

theorem checkedSum_count (h : expression.function = .count) :
    CheckedSum (aggregator F expression) (fun _ => True) (countWeight expression)
      (counts expression) (-2 ^ 63) (2 ^ 63 - 1)
      fun value _ => .count (Int64.ofInt value) := by
  apply CheckedSum.of_guarded
  · omega
  · intro value _
    unfold countWeight
    split <;> omega
  · show new expression = _
    rw [new, h]
    rfl
  · intro rows _ value _ hrows
    refine ⟨.error (.execution "count overflowed INT64"), ?_⟩
    show (AggregateState.count (Int64.ofInt rows)).update expression value = _
    rw [update_count]
    unfold countWeight
    by_cases hcounts : counts expression value = true
    · have hone : (1 : Int64) = Int64.ofInt 1 := rfl
      rw [if_pos hcounts, if_pos hcounts, hone, orFail_checkedAddI64 hrows (by omega)]
      rfl
    · rw [if_neg hcounts, if_neg hcounts, Int.add_zero, if_pos hrows]
  · intro rows _ other _ hrows hother
    exact ⟨_, orFail_checkedAddI64 hrows hother
      (.execution "count overflowed INT64 while merging spill partitions")⟩

end

/-! ## Sums -/

/-- An input that sets `seen`. -/
def isSeen (value : Option (CellValue F)) : Bool := (nonNull value).isSome

/-- An input is null, or a cell of the variant of the aggregate's argument. -/
theorem InputOf.cases {kind : CellKind} (h : InputOf expression value)
    (hkind : inputKind expression = some kind) :
    (value.getD .null = .null ∧ weight value = 0 ∧ isSeen value = false) ∨
      ∃ cell, value = some cell ∧ isSeen value = true ∧ cell.kind = kind ∧ cell.InRange := by
  cases hcell : nonNull value with
  | none =>
    have hnull := nonNull_eq_none.mp hcell
    refine .inl ⟨hnull, ?_, by rw [isSeen, hcell]; rfl⟩
    cases value with
    | none => rfl
    | some cell =>
      rw [getD_some] at hnull
      rw [hnull]
      rfl
  | some cell =>
    obtain ⟨hkind, hrange⟩ := h.kind hkind hcell
    exact .inr ⟨cell, (nonNull_eq_some.mp hcell).1, by rw [isSeen, hcell]; rfl, hkind, hrange⟩

theorem weight_mem_i128 (h : cell.InRange) :
    i128Min ≤ weight (some cell) ∧ weight (some cell) ≤ i128Max := by
  cases cell with
  | int64 value =>
    have hlow := value.le_toInt
    have hhigh := value.toInt_lt
    simp only [weight, i128Min, i128Max]
    omega
  | uint64 value =>
    have hhigh := value.toNat_lt
    simp only [weight, i128Min, i128Max]
    omega
  | decimal128 value => exact h
  | _ =>
    simp only [weight, i128Min, i128Max]
    omega

theorem decode128_bytes (expression : AggregateExpr) (value : Nat) [Platform F] :
    decode128 expression (.binary (bytes 16 value) : CellValue F) =
      .ok (bytes 16 value) := by
  rw [decode128, if_pos (length_bytes 16 value)]

section

variable [Platform F]

/-- A sum that is written to a partial column is read back. -/
theorem decodeI128_encodeI128 (expression : AggregateExpr) {value : Int}
    (h : i128Min ≤ value ∧ value ≤ i128Max) :
    decodeI128 expression (encodeI128 value : CellValue F) = .ok value := by
  have hpow : (256 : Nat) ^ 16 = 2 ^ 128 := by norm_num
  have hlt : (value % 2 ^ 128).toNat < 256 ^ 16 := by
    rw [hpow]
    omega
  simp only [decodeI128, encodeI128, decode128_bytes, ok_bind, value_bytes_of_lt hlt]
  unfold i128Min i128Max at h
  congr 1
  split <;> omega

theorem decodeU128_encodeU128 (expression : AggregateExpr) {value : Nat}
    (h : value < 2 ^ 128) :
    decodeU128 expression (encodeU128 value : CellValue F) = .ok value := by
  have hpow : (256 : Nat) ^ 16 = 2 ^ 128 := by norm_num
  have hlt : value < 256 ^ 16 := by
    rw [hpow]
    exact h
  simp only [decodeU128, encodeU128, decode128_bytes, ok_bind, value_bytes_of_lt hlt]

variable {expression : AggregateExpr}

/-- A sum in an `i128` over inputs of one variant. -/
theorem checkedSum_i128 {kind : CellKind} {mk : Int → Bool → AggregateState F}
    {error error' : Error} (hkind : inputKind expression = some kind)
    (hnew : new expression = mk 0 false)
    (hnull : ∀ v b value, value.getD .null = .null →
      (mk v b).update expression value = .ok (mk v b))
    (hadd : ∀ v b cell, CellValue.kind cell = kind →
      (mk v b).update expression (some cell) =
        (orFail (checkedAddI128 v (weight (some cell))) error >>= fun v => .ok (mk v true)))
    (hmerge : ∀ v b w c, i128Min ≤ w ∧ w ≤ i128Max →
      merge expression (mk v b) (mk w c) =
        (orFail (checkedAddI128 v w) error' >>= fun v => .ok (mk v (b || c)))) :
    CheckedSum (aggregator F expression) (InputOf expression) weight isSeen i128Min i128Max
      mk := by
  have hchecked : ∀ v w b error, ∃ e, (orFail (checkedAddI128 v w) error >>= fun v =>
      (.ok (mk v b) : Result _)) =
        if i128Min ≤ v + w ∧ v + w ≤ i128Max then .ok (mk (v + w) b) else .error e := by
    intro v w b error
    refine ⟨.error error, ?_⟩
    unfold checkedAddI128
    split <;> rfl
  apply CheckedSum.of_guarded
  · decide
  · intro value hvalue
    rcases hvalue.cases hkind with ⟨-, hzero, -⟩ | ⟨cell, hcell, -, -, hrange⟩
    · rw [hzero]
      decide
    · rw [hcell]
      exact weight_mem_i128 hrange
  · exact hnew
  · intro v b value hvalue hv
    show ∃ e, (mk v b).update expression value = _
    rcases hvalue.cases hkind with ⟨hempty, hzero, hseen⟩ | ⟨cell, rfl, hseen, hsame, -⟩
    · refine ⟨.panic, ?_⟩
      rw [hnull v b value hempty, hzero, hseen, Int.add_zero, Bool.or_false, if_pos hv]
    · rw [hseen, Bool.or_true, hadd v b cell hsame]
      exact hchecked ..
  · intro v b w c _ hw
    show ∃ e, merge expression (mk v b) (mk w c) = _
    rw [hmerge v b w c hw]
    exact hchecked ..

theorem checkedSum_signed (hkind : inputKind expression = some .int64)
    (hnew : new (F := F) expression =
      .sumSigned 0 false (sumPrecision expression)) :
    CheckedSum (aggregator F expression) (InputOf expression) weight isSeen i128Min i128Max
      fun value seen => .sumSigned value seen (sumPrecision expression) := by
  apply checkedSum_i128 hkind hnew
  · intro v b value hempty
    simp only [update, hempty]
  · intro v b cell hcell
    cases cell with
    | int64 value => rfl
    | _ => cases hcell
  · intro v b w c hw
    simp only [AggregateState.merge, partialValues, mergePartial, ok_bind, index,
      getElem?_cons_zero, getElem?_cons_succ, asBoolean,
      decodeI128_encodeI128 expression hw]
    rfl

theorem checkedSum_decimal (hkind : inputKind expression = some .decimal128)
    (hnew : new (F := F) expression =
      .sumDecimal 0 false (sumPrecision expression)) :
    CheckedSum (aggregator F expression) (InputOf expression) weight isSeen i128Min i128Max
      fun value seen => .sumDecimal value seen (sumPrecision expression) := by
  apply checkedSum_i128 hkind hnew
  · intro v b value hempty
    simp only [update, hempty]
  · intro v b cell hcell
    cases cell with
    | decimal128 value => rfl
    | _ => cases hcell
  · intro v b w c hw
    simp only [AggregateState.merge, partialValues, mergePartial, ok_bind, index,
      getElem?_cons_zero, getElem?_cons_succ, asBoolean,
      decodeI128_encodeI128 expression hw]
    rfl

theorem checkedSum_unsigned (hkind : inputKind expression = some .uint64)
    (hnew : new (F := F) expression =
      .sumUnsigned 0 false (sumPrecision expression)) :
    CheckedSum (aggregator F expression) (InputOf expression) weight isSeen 0 (2 ^ 128 - 1)
      fun value seen => .sumUnsigned value.toNat seen (sumPrecision expression) := by
  have hchecked : ∀ v w : Int, 0 ≤ v ∧ v ≤ 2 ^ 128 - 1 → 0 ≤ w → ∀ b error, ∃ e,
      (orFail (checkedAddU128 v.toNat w.toNat) error >>= fun v =>
        (.ok (.sumUnsigned v b (sumPrecision expression)) : Result (AggregateState F))) =
        if 0 ≤ v + w ∧ v + w ≤ 2 ^ 128 - 1 then
          .ok (.sumUnsigned (v + w).toNat b (sumPrecision expression))
        else .error e := by
    intro v w hv hw b error
    refine ⟨.error error, ?_⟩
    have hsum : v.toNat + w.toNat = (v + w).toNat := by omega
    rw [checkedAddU128, hsum]
    split_ifs with hrange
    · rw [fits_eq (by omega)]
      rfl
    · rw [fits, if_neg (by omega)]
      rfl
  have hcell : ∀ cell : CellValue F, cell.kind = .uint64 → ∃ n : UInt64, cell = .uint64 n := by
    intro cell hkind
    cases cell with
    | uint64 n => exact ⟨n, rfl⟩
    | _ => cases hkind
  apply CheckedSum.of_guarded
  · omega
  · intro value hvalue
    rcases hvalue.cases hkind with ⟨-, hzero, -⟩ | ⟨cell, rfl, -, hsame, -⟩
    · rw [hzero]
      omega
    · obtain ⟨n, rfl⟩ := hcell cell hsame
      have hhigh := n.toNat_lt
      simp only [weight]
      omega
  · exact hnew
  · intro v b value hvalue hv
    show ∃ e, (sumUnsigned v.toNat b _).update expression value = _
    rcases hvalue.cases hkind with ⟨hempty, hzero, hseen⟩ | ⟨cell, rfl, hseen, hsame, -⟩
    · refine ⟨.panic, ?_⟩
      simp only [update, hempty, hzero, hseen, Int.add_zero, Bool.or_false, if_pos hv]
    · obtain ⟨n, rfl⟩ := hcell cell hsame
      rw [hseen, Bool.or_true]
      exact hchecked v n.toNat hv (by omega) true _
  · intro v b w c hv hw
    show ∃ e, AggregateState.merge expression _ _ = _
    have hdecode : decodeU128 expression (encodeU128 w.toNat : CellValue F) = .ok w.toNat :=
      decodeU128_encodeU128 expression (by omega)
    simp only [AggregateState.merge, partialValues, mergePartial, ok_bind, index,
      getElem?_cons_zero, getElem?_cons_succ, asBoolean, hdecode]
    exact hchecked v w hv hw.1 (b || c) _

end

/-! ## Extremes -/

/-- The kinds of intervals. -/
def isInterval : CellKind → Bool
  | .intervalYearMonth | .intervalDayTime | .intervalMonthDayNano => true
  | _ => false

/-- The variants of integers, decimals, strings, dates and intervals. -/
def isOrdered : CellKind → Bool
  | .int64 | .uint64 | .decimal128 | .utf8 => true
  | kind => isInterval kind

/-- A cell that an input of the aggregate can have. -/
def IsCell (kind : CellKind) (cell : CellValue F) : Prop := cell.kind = kind ∧ cell ≠ .null

theorem InputOf.isCell {kind : CellKind} (h : InputOf expression value)
    (hkind : inputKind expression = some kind) (hcell : nonNull value = some cell) :
    IsCell kind cell :=
  ⟨(h.kind hkind hcell).1, (nonNull_eq_some.mp hcell).2⟩

/-- The order by which `MIN` or `MAX` chooses. -/
def choice (maximum : Bool) (cmp : CellValue F → CellValue F → Ordering)
    (a b : CellValue F) : Ordering :=
  if maximum then cmp b a else cmp a b

instance (maximum : Bool) (cmp : CellValue F → CellValue F → Ordering) [Std.TransCmp cmp] :
    Std.TransCmp (choice maximum cmp) := by
  cases maximum with
  | false => exact inferInstanceAs (Std.TransCmp cmp)
  | true => exact inferInstanceAs (Std.TransCmp fun a b => cmp b a)

section

variable [Platform F]

/-- Cells of one variant are compared by an order.  Cells that are equal are the same, unless
they are intervals. -/
structure OrderedBy (kind : CellKind) (cmp : CellValue F → CellValue F → Ordering) : Prop where
  trans : Std.TransCmp cmp
  compare : ∀ a b, CellValue.kind a = kind → CellValue.kind b = kind →
    CellValue.compare a b = .ok (cmp a b)
  eq : isInterval kind = false → ∀ a b, CellValue.kind a = kind → CellValue.kind b = kind →
    cmp a b = .eq → a = b

variable {kind : CellKind}

theorem exists_orderedBy (h : isOrdered kind = true) :
    ∃ cmp : CellValue F → CellValue F → Ordering, OrderedBy kind cmp := by
  have hfamily : ∀ cell : CellValue F, cell.kind = kind →
      cell.family = if isInterval kind then .intervalMonthDayNano else kind := by
    intro cell hcell
    subst hcell
    cases cell <;> rfl
  obtain ⟨α, _, _, _, key, hkey⟩ := exists_order (F := F)
    (if isInterval kind then .intervalMonthDayNano else kind)
    (by cases kind <;> first | (cases h; done) | nofun)
    (by cases kind <;> first | (cases h; done) | nofun)
  refine ⟨compareOn key, inferInstance, ?_, ?_⟩
  · exact fun a b ha hb => (hkey a b (hfamily a ha) (hfamily b hb)).1
  · intro hinterval a b ha hb heq
    have hsame := (hkey a b (hfamily a ha) (hfamily b hb)).2.mp (Std.LawfulEqOrd.eq_of_compare heq)
    have hself : ∀ cell : CellValue F, cell.kind = kind → cell.sortKey = cell := by
      intro cell hcell
      subst hcell
      cases cell <;> first | rfl | cases hinterval
    exact (hself a ha).symm.trans (hsame.trans (hself b hb))

variable {cmp : CellValue F → CellValue F → Ordering}

theorem updateExtreme_eq (horder : OrderedBy kind cmp) {held : Option (CellValue F)}
    (maximum : Bool)
    (hheld : ∀ cell ∈ held, IsCell kind cell)
    (hvalue : ∀ cell ∈ nonNull value, IsCell kind cell) :
    updateExtreme held value maximum =
      .ok (better (choice maximum cmp) held (nonNull value)) := by
  have := horder.trans
  unfold updateExtreme
  cases hcell : nonNull value with
  | none => cases held <;> rfl
  | some cell =>
    cases held with
    | none => rfl
    | some current =>
      have hcompare := horder.compare current cell (hheld current rfl).1 (hvalue cell hcell).1
      simp only [hcompare, ok_bind, better, choice]
      congr 1
      cases maximum with
      | false =>
        simp only [Bool.false_eq_true, if_false, Ordering.isGT_iff_eq_gt]
      | true =>
        have hswap : (cmp current cell).isLT = true ↔ cmp cell current = .gt := by
          rw [Ordering.isLT_iff_eq_lt, Std.OrientedCmp.gt_iff_lt]
        simp only [if_true, hswap]

variable {expression : AggregateExpr}

theorem choosing_extreme {mk : Option (CellValue F) → AggregateState F}
    (hkind : inputKind expression = some kind) (horder : OrderedBy kind cmp) (maximum : Bool)
    (hnew : new expression = mk none)
    (hupdate : ∀ held value, (mk held).update expression value =
      (updateExtreme held value maximum >>= fun current => .ok (mk current)))
    (hmerge : ∀ held other, merge expression (mk held) (mk other) =
      (mk held).update expression (some (other.getD .null))) :
    Choosing (aggregator F expression) (InputOf expression) nonNull (choice maximum cmp)
      mk where
  new := hnew
  update := by
    intro held value hheld hvalue
    have hcells : ∀ cell ∈ held, IsCell kind cell := by
      intro cell hcell
      obtain ⟨input, hinput, hsome⟩ := hheld cell hcell
      exact hinput.isCell hkind hsome
    show (mk held).update expression value = _
    rw [hupdate, updateExtreme_eq horder maximum hcells fun cell hcell =>
      hvalue.isCell hkind hcell]
    rfl
  merge := by
    intro held other hheld hother
    have hcells {current : Option (CellValue F)}
        (h : ∀ cell ∈ current, ∃ input, InputOf expression input ∧ nonNull input = some cell) :
        ∀ cell ∈ current, IsCell kind cell := by
      intro cell hcell
      obtain ⟨input, hinput, hsome⟩ := h cell hcell
      exact hinput.isCell hkind hsome
    have hback : nonNull (some (other.getD .null)) = other := by
      cases other with
      | none => rfl
      | some cell => exact nonNull_eq_some.mpr ⟨rfl, (hcells hother cell rfl).2⟩
    show merge expression (mk held) (mk other) = _
    rw [hmerge, hupdate, updateExtreme_eq horder maximum (hcells hheld) (by
      rw [hback]
      exact hcells hother), hback]
    rfl

/-- No input that is not null comes before the cell. -/
def IsExtreme (maximum : Bool) (inputs : List (Option (CellValue F))) (cell : CellValue F) :
    Prop :=
  some cell ∈ inputs ∧ cell ≠ .null ∧
    ∀ other, some other ∈ inputs → other ≠ .null →
      cell.compare other ≠ .ok (if maximum then .lt else .gt)

variable {inputs : List (Option (CellValue F))}

theorem best_iff_isExtreme (hkind : inputKind expression = some kind)
    (horder : OrderedBy kind cmp) (hinputs : ∀ value ∈ inputs, InputOf expression value)
    (maximum : Bool) (cell : CellValue F) :
    Best (choice maximum cmp) nonNull inputs cell ↔ IsExtreme maximum inputs cell := by
  have := horder.trans
  have hcell {cell : CellValue F} (hmem : some cell ∈ inputs) (hnull : cell ≠ .null) :
      cell.kind = kind :=
    ((hinputs _ hmem).isCell hkind (nonNull_eq_some.mpr ⟨rfl, hnull⟩)).1
  have hworse {other : CellValue F} (hmem : some cell ∈ inputs) (hnull : cell ≠ .null)
      (hother : some other ∈ inputs) (hnull' : other ≠ .null) :
      choice maximum cmp cell other = .gt ↔
        cell.compare other = .ok (if maximum then .lt else .gt) := by
    rw [horder.compare cell other (hcell hmem hnull) (hcell hother hnull'), choice]
    cases maximum with
    | false => simp
    | true => simp [Std.OrientedCmp.gt_iff_lt]
  constructor
  · intro hbest
    obtain ⟨⟨value, hvalue, hsome⟩, hkeeps⟩ := hbest
    obtain ⟨rfl, hnull⟩ := nonNull_eq_some.mp hsome
    refine ⟨hvalue, hnull, fun other hother hnull' hcompare => ?_⟩
    exact hkeeps (some other) hother other (nonNull_eq_some.mpr ⟨rfl, hnull'⟩)
      ((hworse hvalue hnull hother hnull').mpr hcompare)
  · intro hextreme
    obtain ⟨hmem, hnull, hkeeps⟩ := hextreme
    refine ⟨⟨some cell, hmem, nonNull_eq_some.mpr ⟨rfl, hnull⟩⟩, fun value hvalue other hsome => ?_⟩
    obtain ⟨rfl, hnull'⟩ := nonNull_eq_some.mp hsome
    intro hgt
    exact hkeeps other hvalue hnull' ((hworse hmem hnull hvalue hnull').mp hgt)

/-- Cells that tie are the same, unless they are intervals. -/
theorem best_unique (horder : OrderedBy kind cmp)
    (hkind : isInterval kind = false) {maximum : Bool} {u v : CellValue F}
    (hcells : ∀ value ∈ inputs, ∀ cell, nonNull value = some cell → cell.kind = kind)
    (hu : Best (choice maximum cmp) nonNull inputs u)
    (hv : Best (choice maximum cmp) nonNull inputs v) : u = v := by
  have := horder.trans
  obtain ⟨⟨a, ha, hua⟩, hkeeps⟩ := hu
  obtain ⟨⟨b, hb, hvb⟩, hkeeps'⟩ := hv
  have huv : choice maximum cmp u v ≠ .gt := hkeeps b hb v hvb
  have hvu : choice maximum cmp v u ≠ .gt := hkeeps' a ha u hua
  have heq : cmp u v = .eq := by
    have hother : cmp v u = (cmp u v).swap := Std.OrientedCmp.eq_swap
    cases maximum <;> cases hcmp : cmp u v <;> simp_all [choice]
  exact horder.eq hkind u v (hcells a ha u hua) (hcells b hb v hvb) heq

end

/-! ## All evaluations agree -/

/-- A total outside of the range is not a value of the result. -/
theorem decimalValue_eq_none {value : Int} {precision : UInt8} {operation : String}
    (h : ¬ (i128Min ≤ value ∧ value ≤ i128Max)) :
    (AggregateState.decimalValue (F := F) value precision operation).toOption = none := by
  unfold AggregateState.decimalValue
  simp only
  split
  · rfl
  · rename_i hlimit
    rw [if_pos]
    · rfl
    · unfold i128Min i128Max at *
      omega

theorem bounded_of_not_seen {inputs : List (Option (CellValue F))}
    (h : inputs.any isSeen = false) : Bounded weight i128Min i128Max inputs := by
  have hzero : ∀ value ∈ inputs, weight value = 0 := by
    intro value hvalue
    have hnot := any_eq_false.mp h value hvalue
    cases value with
    | none => rfl
    | some cell => cases cell <;> first | rfl | exact absurd rfl hnot
  have hpositive : positiveTotal weight inputs = 0 := by
    apply sum_eq_zero
    intro x hx
    obtain ⟨value, hvalue, rfl⟩ := mem_map.mp hx
    simp [hzero value hvalue]
  have hnegative : negativeTotal weight inputs = 0 := by
    apply sum_eq_zero
    intro x hx
    obtain ⟨value, hvalue, rfl⟩ := mem_map.mp hx
    simp [hzero value hvalue]
  rw [Bounded, hpositive, hnegative]
  decide

section

variable [Platform F]

/-- The aggregates over integers, decimals, strings, dates and intervals. -/
def Supported (expression : AggregateExpr) : Prop :=
  match expression.function with
  | .count => True
  | .sum =>
    inputKind expression = some .int64 ∨ inputKind expression = some .uint64 ∨
      inputKind expression = some .decimal128
  | .min | .max => ∃ kind, inputKind expression = some kind ∧ isOrdered kind = true
  | .avg => False

/-- For a sum in an `i128`, all partial sums are in the range or the total is not a value of
the result; for an extreme of intervals, no two different ones tie. -/
def OrderFree (expression : AggregateExpr) (inputs : List (Option (CellValue F))) : Prop :=
  match expression.function with
  | .sum =>
    inputKind expression = some .uint64 ∨ Bounded weight i128Min i128Max inputs ∨
      (AggregateState.decimalValue (F := F) (total weight inputs) (sumPrecision expression)
        "sum").toOption = none
  | .min =>
    (∃ kind, inputKind expression = some kind ∧ isInterval kind = true) →
      ∀ a b, IsExtreme false inputs a → IsExtreme false inputs b → a = b
  | .max =>
    (∃ kind, inputKind expression = some kind ∧ isInterval kind = true) →
      ∀ a b, IsExtreme true inputs a → IsExtreme true inputs b → a = b
  | _ => True

/-- All evaluations of the inputs have the same outcome. -/
def Agree (expression : AggregateExpr) (inputs : List (Option (CellValue F))) : Prop :=
  ∀ e f : Evaluation (Option (CellValue F)), e.inputs.Perm inputs → f.inputs.Perm inputs →
    outcome expression e = outcome expression f

variable {expression : AggregateExpr} {inputs : List (Option (CellValue F))}

/-- The state of a sum before its first input. -/
def emptySum (precision : UInt8) : CellKind → AggregateState F
  | .uint64 => .sumUnsigned 0 false precision
  | .float64 => .sumFloat Platform.zero false
  | .decimal128 => .sumDecimal 0 false precision
  | _ => .sumSigned 0 false precision

theorem new_sum {kind : CellKind} (h : expression.function = .sum)
    (hkind : inputKind expression = some kind) :
    new expression = emptySum (F := F) (sumPrecision expression) kind := by
  obtain ⟨expr, hexpr, hdata⟩ := bind_eq_some_iff.mp hkind
  simp only [new, h, hexpr, map_some]
  generalize expr.dataType = dataType at hdata
  cases dataType with
  | interval unit => cases unit <;> cases hdata <;> rfl
  | _ => cases hdata <;> rfl

theorem agree_count (h : expression.function = .count)
    (inputs : List (Option (CellValue F))) : Agree expression inputs := by
  have hsum := checkedSum_count (F := F) h
  refine (hsum.agree_iff fun _ _ => trivial).mpr ?_
  have hweight : ∀ value ∈ inputs, 0 ≤ countWeight expression value := by
    intro value _
    unfold countWeight
    split <;> omega
  exact (CheckedSum.bounded_or hsum.zero.1 hweight).imp id Or.inl

theorem agree_unsigned (hkind : inputKind expression = some .uint64)
    (hnew : new (F := F) expression =
      .sumUnsigned 0 false (sumPrecision expression))
    (hinputs : ∀ value ∈ inputs, InputOf expression value) :
    Agree expression inputs := by
  have hsum := checkedSum_unsigned hkind hnew
  refine (hsum.agree_iff hinputs).mpr ?_
  have hweight : ∀ value ∈ inputs, 0 ≤ weight value :=
    fun value hvalue => (hsum.range value (hinputs value hvalue)).1
  exact (CheckedSum.bounded_or hsum.zero.1 hweight).imp id Or.inl

theorem agree_signed_iff {mk : Int → Bool → AggregateState F}
    (hsum : CheckedSum (aggregator F expression) (InputOf expression) weight isSeen i128Min
      i128Max mk)
    (hfinish : ∀ value seen, (mk value seen).finish =
      if seen then AggregateState.decimalValue value (sumPrecision expression) "sum" else .ok .null)
    (hinputs : ∀ value ∈ inputs, InputOf expression value) :
    Agree expression inputs ↔ Bounded weight i128Min i128Max inputs ∨
      (AggregateState.decimalValue (F := F) (total weight inputs) (sumPrecision expression)
        "sum").toOption = none := by
  refine (hsum.agree_iff hinputs).trans ?_
  rw [hfinish]
  constructor
  · intro hcases
    rcases hcases with hbounded | hout | hfails
    · exact .inl hbounded
    · exact .inr (decimalValue_eq_none hout)
    · cases hseen : inputs.any isSeen with
      | false => exact .inl (bounded_of_not_seen hseen)
      | true =>
        rw [hseen] at hfails
        exact .inr hfails
  · intro hcases
    rcases hcases with hbounded | hfails
    · exact .inl hbounded
    · cases hseen : inputs.any isSeen with
      | false => exact .inl (bounded_of_not_seen hseen)
      | true => exact .inr (.inr hfails)

theorem agree_extreme_iff {kind : CellKind}
    {mk : Option (CellValue F) → AggregateState F} (maximum : Bool)
    (hkind : inputKind expression = some kind) (hordered : isOrdered kind = true)
    (hnew : new expression = mk none)
    (hupdate : ∀ held value, (mk held).update expression value =
      (updateExtreme held value maximum >>= fun current => .ok (mk current)))
    (hmerge : ∀ held other, merge expression (mk held) (mk other) =
      (mk held).update expression (some (other.getD .null)))
    (hfinish : ∀ held, (mk held).finish = .ok (held.getD .null))
    (hinputs : ∀ value ∈ inputs, InputOf expression value) :
    Agree expression inputs ↔
      ((∃ kind, inputKind expression = some kind ∧ isInterval kind = true) →
        ∀ a b, IsExtreme maximum inputs a → IsExtreme maximum inputs b → a = b) := by
  obtain ⟨cmp, horder⟩ := exists_orderedBy (F := F) hordered
  have := horder.trans
  have hchoosing := choosing_extreme hkind horder maximum hnew hupdate hmerge
  have hinjective : ∀ u v, (∃ input, InputOf expression input ∧ nonNull input = some u) →
      (∃ input, InputOf expression input ∧ nonNull input = some v) →
      (mk (some u)).finish.toOption = (mk (some v)).finish.toOption → u = v := by
    intro u v _ _ hsame
    rw [hfinish, hfinish] at hsame
    exact some.inj hsame
  refine (hchoosing.agree_iff hinputs hinjective).trans ?_
  · simp only [best_iff_isExtreme hkind horder hinputs]
    constructor
    · intro hunique _
      exact hunique
    · intro hunique a b ha hb
      cases hinterval : isInterval kind with
      | true => exact hunique ⟨kind, hkind, hinterval⟩ a b ha hb
      | false =>
        rw [← best_iff_isExtreme hkind horder hinputs] at ha hb
        exact best_unique horder hinterval
          (fun value hvalue cell hcell => ((hinputs value hvalue).isCell hkind hcell).1) ha hb

/-- The value of an aggregate, and whether it fails, is the same for all orders of its inputs,
all splits into partial states and all merges of these exactly when the inputs are
`OrderFree`. -/
theorem aggregation_is_order_free_iff (expression : AggregateExpr)
    (hsupported : Supported expression) (inputs : List (Option (CellValue F)))
    (hinputs : ∀ value ∈ inputs, InputOf expression value) :
    (∀ e f : Evaluation (Option (CellValue F)), e.inputs.Perm inputs → f.inputs.Perm inputs →
      outcome expression e = outcome expression f) ↔ OrderFree expression inputs := by
  unfold Supported at hsupported
  unfold OrderFree
  cases hfunction : expression.function with
  | count =>
    simp only
    exact iff_of_true (agree_count hfunction inputs) trivial
  | sum =>
    rw [hfunction] at hsupported
    simp only
    rcases hsupported with hkind | hkind | hkind
    · have hsum := checkedSum_signed hkind (new_sum (F := F) hfunction hkind)
      refine (agree_signed_iff hsum (fun _ _ => rfl) hinputs).trans ?_
      rw [hkind]
      simp
    · exact iff_of_true (agree_unsigned hkind (new_sum hfunction hkind) hinputs) (.inl hkind)
    · have hsum := checkedSum_decimal hkind (new_sum (F := F) hfunction hkind)
      refine (agree_signed_iff hsum (fun _ _ => rfl) hinputs).trans ?_
      rw [hkind]
      simp
  | min =>
    rw [hfunction] at hsupported
    obtain ⟨kind, hkind, hordered⟩ := hsupported
    have hnew : new (F := F) expression = .min none := by
      rw [new, hfunction]
    exact agree_extreme_iff false hkind hordered hnew (fun _ _ => rfl) (fun _ _ => rfl)
      (fun _ => rfl) hinputs
  | max =>
    rw [hfunction] at hsupported
    obtain ⟨kind, hkind, hordered⟩ := hsupported
    have hnew : new (F := F) expression = .max none := by
      rw [new, hfunction]
    exact agree_extreme_iff true hkind hordered hnew (fun _ _ => rfl) (fun _ _ => rfl)
      (fun _ => rfl) hinputs
  | avg =>
    rw [hfunction] at hsupported
    exact hsupported.elim

end

/-! ## Sums and minima of a few inputs -/

/-- An aggregate of the first column. -/
def aggregateOf (function : AggregateFunction) (input output : DataType) : AggregateExpr where
  function
  expr := some (.column { dataType := input, displayName := "value" } 0)
  distinct := false
  dataType := output
  displayName := "aggregate(value)"

/-- `SUM` of a column of type `DECIMAL(38, 0)`. -/
def decimalSum : AggregateExpr := aggregateOf .sum (.decimal128 38 0) (.decimal128 38 0)

/-- `MIN` of a column of intervals. -/
def intervalMin : AggregateExpr :=
  aggregateOf .min (.interval .monthDayNano) (.interval .monthDayNano)

theorem three_decimals_add_up_in_any_order :
    OrderFree decimalSum [some (.decimal128 5 : CellValue Unit), none, some (.decimal128 (-7))] ∧
      outcome decimalSum (.merge (.ofList [some (.decimal128 (-7))])
        (.ofList [some (.decimal128 5 : CellValue Unit), none])) =
        outcome decimalSum
          (.ofList [some (.decimal128 5), none, some (.decimal128 (-7))]) := by
  have hfree : OrderFree decimalSum
      [some (.decimal128 5 : CellValue Unit), none, some (.decimal128 (-7))] :=
    .inr (.inl (by decide))
  refine ⟨hfree, (aggregation_is_order_free_iff decimalSum (.inr (.inr rfl)) _ ?_).mpr hfree _ _
    (by decide) (by decide)⟩
  intro value hvalue expr hexpr cell hcell
  cases hexpr
  simp only [mem_cons, not_mem_nil, or_false] at hvalue
  rcases hvalue with rfl | rfl | rfl
  · cases hcell
    exact .inr ⟨rfl, by decide⟩
  · cases hcell
  · cases hcell
    exact .inr ⟨rfl, by decide⟩

/-- The largest value of `DECIMAL(38, 0)`. -/
def largest : Int := 10 ^ 38 - 1

/-- The sum of three decimals overflows in one order and not in another, and the minimum of
one month and 30 days is the one that comes first. -/
theorem sum_and_minimum_depend_on_the_order :
    outcome decimalSum (.ofList [some (.decimal128 largest : CellValue Unit),
      some (.decimal128 largest), some (.decimal128 (-largest))]) = none ∧
    outcome decimalSum (.ofList [some (.decimal128 largest : CellValue Unit),
      some (.decimal128 (-largest)), some (.decimal128 largest)]) =
        some (.decimal128 largest) ∧
    outcome intervalMin (.ofList [some (.intervalMonthDayNano 1 0 0 : CellValue Unit),
      some (.intervalMonthDayNano 0 30 0)]) = some (.intervalMonthDayNano 1 0 0) ∧
    outcome intervalMin (.ofList [some (.intervalMonthDayNano 0 30 0 : CellValue Unit),
      some (.intervalMonthDayNano 1 0 0)]) = some (.intervalMonthDayNano 0 30 0) := by
  decide +kernel

end RustDb.Execution.Aggregate
