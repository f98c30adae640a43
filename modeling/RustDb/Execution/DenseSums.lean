import RustDb.Execution.AggregateState

/-!
# Batched sums of decimals

`execution/aggregate/dense_dictionary.rs`: a batch whose groups are a few slots is summed slot by
slot, and each sum is added to the state of its group at the end.  So that this fails when the
sum of value after value fails, a partial sum keeps its smallest and largest prefix.

* `DecimalPartial`, `updateDenseDecimalSum`, `denseBatch`: the code.
* `Tracks`: the prefixes of the values that a partial sum has seen.
* `dense_sums_are_sequential`: batches have the sums and the failures of single values.
-/

namespace RustDb.Execution.Aggregate

open RustDb.Lib RustDb.Lib.Checked RustDb.Sql CellValue List Option Except AggregateState

/-! ## Partial sums -/

/-- The sum of a batch with its smallest and largest prefix, as `i256`. -/
structure WideDecimalPartial where
  total : Int
  minPrefix : Int
  maxPrefix : Int

/-- The sum of a batch with its smallest and largest prefix. -/
structure DecimalPartial where
  total : Int
  minPrefix : Int
  maxPrefix : Int
  seen : Bool
  /-- The sums as `i256`, once one of them has left the range of an `i128`. -/
  wide : Option WideDecimalPartial

/-- `i256::checked_add`. -/
def checkedAddI256 (left right : Int) : Option Int :=
  if -2 ^ 255 ≤ left + right ∧ left + right ≤ 2 ^ 255 - 1 then some (left + right) else none

/-- The error of a sum beyond `i128`. -/
def decimalI128Overflow : Error := .execution "decimal sum overflowed i128"

/-- The error of a sum beyond `i256`. -/
def decimalI256Overflow : Error := .execution "decimal sum overflowed i256"

/-- One more value. -/
def WideDecimalPartial.push (wide : WideDecimalPartial) (value : Int) :
    Result WideDecimalPartial := do
  let total ← orFail (checkedAddI256 wide.total value) decimalI256Overflow
  .ok ⟨total, min wide.minPrefix total, max wide.maxPrefix total⟩

/-- The batch added to a running sum; an error if some prefix would have left `i128`. -/
def WideDecimalPartial.applyTo (wide : WideDecimalPartial) (current : Int) : Result Int :=
  let min := checkedAddI256 current wide.minPrefix
  let max := checkedAddI256 current wide.maxPrefix
  if min.all (· < i128Min) || max.all (i128Max < ·) then fail decimalI128Overflow
  else
    orFail ((checkedAddI256 current wide.total).filter fun total => I128 total)
      decimalI128Overflow

namespace DecimalPartial

/-- The sums of no rows. -/
def empty : DecimalPartial := ⟨0, 0, 0, false, none⟩

/-- One more value; the sums become wide when one of them leaves `i128`. -/
def push (sums : DecimalPartial) (value : Int) : Result DecimalPartial :=
  match sums.wide with
  | some wide => do
    let wide ← wide.push value
    .ok { sums with wide := some wide, seen := true }
  | none =>
    match checkedAddI128 sums.total value with
    | none => do
      let next ← orFail (checkedAddI256 sums.total value) decimalI256Overflow
      .ok { sums with
        wide := some ⟨next, min sums.minPrefix next, max sums.maxPrefix next⟩, seen := true }
    | some next => .ok ⟨next, min sums.minPrefix next, max sums.maxPrefix next, true, none⟩

/-- The batch added to a running sum; `none` for a batch without values. -/
def applyTo (sums : DecimalPartial) (current : Int) : Result (Option Int) :=
  if !sums.seen then .ok none
  else
    match sums.wide with
    | some wide => do
      let total ← wide.applyTo current
      .ok (some total)
    | none => do
      let _ ← orFail (checkedAddI128 current sums.minPrefix) decimalI128Overflow
      let _ ← orFail (checkedAddI128 current sums.maxPrefix) decimalI128Overflow
      let total ← orFail (checkedAddI128 current sums.total) decimalI128Overflow
      .ok (some total)

/-- A row of the array; null rows are skipped. -/
def pushRow (sums : DecimalPartial) : Option Int → Result DecimalPartial
  | some value => sums.push value
  | none => .ok sums

end DecimalPartial

variable {F : Type}

/-- A state that takes in a batch at once. -/
def updateDenseDecimalSum (state : AggregateState F) (sums : DecimalPartial) :
    Result (AggregateState F) :=
  match state with
  | .sumDecimal sum seen precision => do
    let value ← sums.applyTo sum
    .ok (match value with
      | some value => .sumDecimal value true precision
      | none => .sumDecimal sum seen precision)
  | _ => fail (.internal "dense dictionary decimal SUM reached an incompatible state")

/-- The values of the rows of one group, in their order. -/
def slotRows (slot : Nat) (rows : List (Nat × Option Int)) : List (Option Int) :=
  (rows.filter fun row => row.1 = slot).map Prod.snd

/-- What a batch, given by the slots and values of its rows, does to the state of one slot. -/
def denseBatch (slot : Nat) (state : AggregateState F) (rows : List (Nat × Option Int)) :
    Result (AggregateState F) := do
  let sums ← (slotRows slot rows).foldlM DecimalPartial.pushRow .empty
  updateDenseDecimalSum state sums

/-! ## Prefixes -/

/-- The smallest and the largest sum of a prefix. -/
def Bounds (values : List Int) (low high : Int) : Prop :=
  (∀ head, head <+: values → low ≤ head.sum ∧ head.sum ≤ high) ∧
    (∃ head, head <+: values ∧ head.sum = low) ∧ ∃ head, head <+: values ∧ head.sum = high

variable {values : List Int} {low high : Int}

theorem Bounds.push (h : Bounds values low high) (value : Int) :
    Bounds (values ++ [value]) (min low (values.sum + value)) (max high (values.sum + value)) := by
  obtain ⟨hall, ⟨lowest, hlowest, hlow⟩, highest, hhighest, hhigh⟩ := h
  have hnew : (values ++ [value]).sum = values.sum + value := by simp
  refine ⟨?_, ?_, ?_⟩
  · intro head hhead
    rcases prefix_concat_iff.mp hhead with rfl | hhead
    · omega
    · have := hall head hhead
      omega
  · by_cases hle : low ≤ values.sum + value
    · exact ⟨lowest, hlowest.trans (prefix_append _ _), by omega⟩
    · exact ⟨_, prefix_rfl, by omega⟩
  · by_cases hle : values.sum + value ≤ high
    · exact ⟨highest, hhighest.trans (prefix_append _ _), by omega⟩
    · exact ⟨_, prefix_rfl, by omega⟩

/-- No prefix of the values takes the sum out of an `i128`. -/
def Steady (current : Int) (values : List Int) : Prop :=
  ∀ head, head <+: values → I128 (current + head.sum)

variable {current : Int}

theorem steady_nil : Steady current [] ↔ I128 current := by
  simp [Steady]

theorem steady_cons {value : Int} (hcurrent : I128 current) :
    Steady current (value :: values) ↔ Steady (current + value) values := by
  simp only [Steady, prefix_cons_iff]
  constructor
  · intro h head hhead
    have := h (value :: head) (.inr ⟨head, rfl, hhead⟩)
    rwa [sum_cons, ← add_assoc] at this
  · intro h head hhead
    rcases hhead with rfl | ⟨tail, rfl, htail⟩
    · simpa using hcurrent
    · rw [sum_cons, ← add_assoc]
      exact h tail htail

theorem Bounds.steady_iff (h : Bounds values low high) :
    Steady current values ↔ I128 (current + low) ∧ I128 (current + high) := by
  obtain ⟨hall, ⟨lowest, hlowest, rfl⟩, highest, hhighest, rfl⟩ := h
  constructor
  · exact fun hsteady => ⟨hsteady lowest hlowest, hsteady highest hhighest⟩
  · intro ⟨hlow, hhigh⟩ head hhead
    have := hall head hhead
    unfold I128 at *
    omega

/-- What a partial sum knows about the values that it has seen. -/
def Tracks (values : List Int) (sums : DecimalPartial) : Prop :=
  sums.seen = !values.isEmpty ∧
    match sums.wide with
    | none => sums.total = values.sum ∧ Bounds values sums.minPrefix sums.maxPrefix
    | some wide => wide.total = values.sum ∧ Bounds values wide.minPrefix wide.maxPrefix

theorem tracks_empty : Tracks [] .empty := by
  refine ⟨rfl, rfl, ?_, ⟨[], prefix_rfl, rfl⟩, ⟨[], prefix_rfl, rfl⟩⟩
  intro head hhead
  rw [prefix_nil.mp hhead]
  exact ⟨le_rfl, le_rfl⟩

variable {sums : DecimalPartial}

/-- A value is taken up, unless the sum leaves an `i256`. -/
theorem Tracks.push (h : Tracks values sums) (value : Int) :
    (∃ sums', sums.push value = .ok sums' ∧ Tracks (values ++ [value]) sums') ∨
      (∃ e, sums.push value = .error e) ∧ ¬ (-2 ^ 255 ≤ values.sum + value ∧
        values.sum + value ≤ 2 ^ 255 - 1) := by
  obtain ⟨hseen, hsums⟩ := h
  have hsum : (values ++ [value]).sum = values.sum + value := by simp
  have hseen' : true = !(values ++ [value]).isEmpty := by simp
  unfold DecimalPartial.push
  cases hwide : sums.wide with
  | some wide =>
    simp only [hwide] at hsums ⊢
    obtain ⟨htotal, hbounds⟩ := hsums
    unfold WideDecimalPartial.push checkedAddI256
    rw [htotal]
    split
    · exact .inl ⟨_, rfl, hseen', hsum.symm, hbounds.push value⟩
    · next hout => exact .inr ⟨⟨_, rfl⟩, hout⟩
  | none =>
    simp only [hwide] at hsums ⊢
    obtain ⟨htotal, hbounds⟩ := hsums
    rw [htotal]
    unfold checkedAddI128
    split
    · unfold checkedAddI256
      split
      · exact .inl ⟨_, rfl, hseen', hsum.symm, hbounds.push value⟩
      · next hout => exact .inr ⟨⟨_, rfl⟩, hout⟩
    · next next hnext =>
      obtain ⟨-, hnext⟩ := ite_none_right_eq_some.mp hnext
      cases hnext
      exact .inl ⟨_, rfl, hseen', hsum.symm, hbounds.push value⟩

/-- The partial sum of some rows, unless no accumulator in an `i128` could take their values. -/
theorem foldlM_pushRow (rows : List (Option Int)) :
    (∃ sums, rows.foldlM DecimalPartial.pushRow .empty = .ok sums ∧
      Tracks (rows.filterMap id) sums) ∨
      (∃ e, rows.foldlM DecimalPartial.pushRow .empty = .error e) ∧
        ∀ current, I128 current → ¬ Steady current (rows.filterMap id) := by
  induction rows using reverseRecOn with
  | nil => exact .inl ⟨_, rfl, tracks_empty⟩
  | append_singleton rows row ih =>
    rw [foldlM_append, filterMap_append]
    rcases ih with ⟨sums, hsums, htracks⟩ | ⟨⟨e, he⟩, hnot⟩
    · rw [hsums]
      cases row with
      | none =>
        refine .inl ⟨sums, rfl, ?_⟩
        simpa using htracks
      | some value =>
        rcases htracks.push value with ⟨sums', hpush, htracks'⟩ | ⟨⟨e, he⟩, hout⟩
        · refine .inl ⟨sums', ?_, htracks'⟩
          show sums.push value >>= pure = _
          rw [hpush]
          rfl
        · refine .inr ⟨⟨e, ?_⟩, fun current hcurrent hsteady => ?_⟩
          · show sums.push value >>= pure = _
            rw [he]
            rfl
          · have hwhole : I128 (current + ((rows.filterMap id) ++ [value]).sum) :=
              hsteady _ prefix_rfl
            rw [sum_append, sum_singleton] at hwhole
            unfold I128 at hcurrent hwhole
            omega
    · refine .inr ⟨⟨e, ?_⟩, fun current hcurrent hsteady => hnot current hcurrent ?_⟩
      · rw [he]
        rfl
      · exact fun head hhead => hsteady head (hhead.trans (prefix_append _ _))

variable {left right : Int}

theorem checkedAddI128_eq_some {sum : Int} :
    checkedAddI128 left right = some sum ↔ I128 (left + right) ∧ sum = left + right := by
  rw [checkedAddI128, ite_none_right_eq_some, eq_comm (a := sum), some.injEq]
  rfl

theorem checkedAddI256_eq (h : I128 (left + right)) :
    checkedAddI256 left right = some (left + right) := by
  unfold I128 at h
  exact if_pos (by omega)

theorem all_checkedAddI256 {p : Int → Bool} (h : p (left + right) = true) :
    (checkedAddI256 left right).all p = true := by
  unfold checkedAddI256
  split <;> simp [h]

theorem WideDecimalPartial.applyTo_eq_ok {wide : WideDecimalPartial}
    (htotal : wide.total = values.sum) (hbounds : Bounds values wide.minPrefix wide.maxPrefix)
    {result : Int} :
    wide.applyTo current = .ok result ↔
      Steady current values ∧ result = current + values.sum := by
  have hzero := hbounds.1 [] nil_prefix
  rw [sum_nil] at hzero
  rw [WideDecimalPartial.applyTo, htotal]
  by_cases hsteady : Steady current values
  · obtain ⟨hlow, hhigh⟩ := hbounds.steady_iff.mp hsteady
    have hwhole : I128 (current + values.sum) := hsteady values prefix_rfl
    rw [checkedAddI256_eq hlow, checkedAddI256_eq hhigh, checkedAddI256_eq hwhole, if_neg,
      filter_some, if_pos (decide_eq_true hwhole)]
    · exact ⟨fun h => ⟨hsteady, (ok.inj h).symm⟩, fun h => congrArg ok h.2.symm⟩
    · rw [all_some, all_some, Bool.or_eq_true, decide_eq_true_eq, decide_eq_true_eq]
      unfold I128 at hlow hhigh
      unfold i128Min i128Max
      omega
  · -- One of the two prefixes leaves the range, and stays within it on the other side.
    have hout : current + wide.minPrefix < i128Min ∨ i128Max < current + wide.maxPrefix := by
      rw [hbounds.steady_iff] at hsteady
      unfold I128 at hsteady
      unfold i128Min i128Max
      omega
    rw [if_pos]
    · simp [fail, hsteady]
    · rw [Bool.or_eq_true]
      exact hout.imp (fun h => all_checkedAddI256 (decide_eq_true h))
        fun h => all_checkedAddI256 (decide_eq_true h)

/-- A partial sum is added exactly when value after value could be. -/
theorem Tracks.applyTo (h : Tracks values sums) (hcurrent : I128 current) {result : Option Int} :
    sums.applyTo current = .ok result ↔ Steady current values ∧
      result = if values.isEmpty then none else some (current + values.sum) := by
  obtain ⟨hseen, hsums⟩ := h
  unfold DecimalPartial.applyTo
  rw [hseen]
  cases hempty : values.isEmpty with
  | true =>
    rw [List.isEmpty_iff] at hempty
    subst hempty
    have hsteady := steady_nil.mpr hcurrent
    exact ⟨fun h => ⟨hsteady, (ok.inj h).symm⟩, fun h => congrArg ok h.2.symm⟩
  | false =>
    cases hwide : sums.wide with
    | none =>
      simp only [hwide] at hsums
      obtain ⟨htotal, hbounds⟩ := hsums
      have hiff : Steady current values ↔ _ := hbounds.steady_iff
      simp only [Bool.not_false, Bool.not_true, Bool.false_eq_true, if_false, bind_eq_ok,
        orFail_eq_ok, checkedAddI128_eq_some, htotal]
      constructor
      · rintro ⟨_, ⟨hlow, _⟩, _, ⟨hhigh, _⟩, _, ⟨_, hsum⟩, hresult⟩
        subst hsum
        exact ⟨hiff.mpr ⟨hlow, hhigh⟩, (ok.inj hresult).symm⟩
      · rintro ⟨hsteady, hresult⟩
        obtain ⟨hlow, hhigh⟩ := hiff.mp hsteady
        exact ⟨_, ⟨hlow, rfl⟩, _, ⟨hhigh, rfl⟩, _, ⟨hsteady _ prefix_rfl, rfl⟩,
          congrArg ok hresult.symm⟩
    | some wide =>
      simp only [hwide] at hsums
      simp only [Bool.not_false, Bool.not_true, Bool.false_eq_true, if_false, bind_eq_ok,
        WideDecimalPartial.applyTo_eq_ok hsums.1 hsums.2]
      constructor
      · rintro ⟨_, ⟨hsteady, hsum⟩, hresult⟩
        subst hsum
        exact ⟨hsteady, (ok.inj hresult).symm⟩
      · rintro ⟨hsteady, hresult⟩
        exact ⟨_, ⟨hsteady, rfl⟩, congrArg ok hresult.symm⟩

/-! ## Batches -/

/-- The state of a slot after some values. -/
def After (values : List Int) (current : Int) (seen : Bool) (precision : UInt8)
    (final : AggregateState F) : Prop :=
  Steady current values ∧
    final = .sumDecimal (current + values.sum) (seen || !values.isEmpty) precision

variable {final : AggregateState F}

theorem denseRows_eq_ok (rows : List (Option Int)) (hcurrent : I128 current) (seen : Bool)
    (precision : UInt8) :
    (rows.foldlM DecimalPartial.pushRow .empty >>=
      updateDenseDecimalSum (.sumDecimal current seen precision)) = .ok final ↔
      After (rows.filterMap id) current seen precision final := by
  rcases foldlM_pushRow rows with ⟨sums, hsums, htracks⟩ | ⟨⟨e, he⟩, hnot⟩
  · rw [hsums, ok_bind, updateDenseDecimalSum, bind_eq_ok]
    simp only [htracks.applyTo hcurrent]
    generalize rows.filterMap id = values
    constructor
    · intro ⟨value, ⟨hsteady, hvalue⟩, hfinal⟩
      refine ⟨hsteady, (ok.inj hfinal).symm.trans ?_⟩
      subst hvalue
      cases values <;> simp
    · intro ⟨hsteady, hfinal⟩
      refine ⟨_, ⟨hsteady, rfl⟩, ?_⟩
      subst hfinal
      cases values <;> simp
  · rw [he]
    exact ⟨nofun, fun h => absurd h.1 (hnot current hcurrent)⟩

variable [Platform F]

theorem singleRows_eq_ok (expression : AggregateExpr) (rows : List (Option Int))
    (hcurrent : I128 current) (seen : Bool) (precision : UInt8) :
    rows.foldlM (fun state value => state.update expression (value.map decimal128))
      (sumDecimal current seen precision) = .ok final ↔
      After (rows.filterMap id) current seen precision final := by
  induction rows generalizing current seen with
  | nil =>
    simp only [foldlM_nil, filterMap_nil, After, steady_nil, hcurrent, true_and,
      sum_nil, add_zero, isEmpty_nil, Bool.not_true, Bool.or_false]
    exact ⟨fun h => (ok.inj h).symm, fun h => congrArg ok h.symm⟩
  | cons row rows ih =>
    cases row with
    | none => exact ih hcurrent seen
    | some value =>
      have hafter : After (value :: rows.filterMap id) current seen precision final ↔
          After (rows.filterMap id) (current + value) true precision final := by
        simp [After, steady_cons hcurrent, add_assoc]
      have hupdate : (sumDecimal current seen precision).update expression
          (some (.decimal128 value)) =
          (orFail (checkedAddI128 current value) (.execution "decimal sum overflowed i128") >>=
            fun sum => .ok (.sumDecimal sum true precision) : Result (AggregateState F)) := rfl
      rw [foldlM_cons, map_some, hupdate]
      refine Iff.trans ?_ hafter.symm
      by_cases hsum : I128 (current + value)
      · rw [checkedAddI128_eq_some.mpr ⟨hsum, rfl⟩]
        exact ih hsum true
      · rw [show checkedAddI128 current value = none from if_neg hsum]
        exact ⟨nofun, fun h => absurd (by simpa using h.1 [] nil_prefix) hsum⟩

theorem foldlM_denseBatch (expression : AggregateExpr) (slot : Nat)
    (batches : List (List (Nat × Option Int))) (hcurrent : I128 current) (seen : Bool)
    (precision : UInt8) :
    batches.foldlM (denseBatch slot) (sumDecimal current seen precision) =
        .ok final ↔
      (slotRows slot batches.flatten).foldlM (fun state value =>
        state.update expression (value.map decimal128))
        (sumDecimal current seen precision) = .ok final := by
  induction batches generalizing current seen with
  | nil => rfl
  | cons rows batches ih =>
    have hrows : slotRows slot (rows :: batches).flatten =
        slotRows slot rows ++ slotRows slot batches.flatten := by
      simp [slotRows]
    rw [hrows, foldlM_append, foldlM_cons, bind_eq_ok, bind_eq_ok]
    refine exists_congr fun state => ?_
    rw [denseBatch, denseRows_eq_ok _ hcurrent, singleRows_eq_ok expression _ hcurrent]
    refine and_congr_right fun ⟨hsteady, hstate⟩ => ?_
    rw [hstate]
    exact ih (hsteady _ prefix_rfl) _

/-- Batches of rows, each summed up before its slot is updated, have the sum that the rows of
the slot have one by one.  They fail when a prefix of that sum leaves an `i128`, and the sum
stays unset when all values are null. -/
theorem dense_sums_are_sequential (expression : AggregateExpr) (slot : Nat)
    (batches : List (List (Nat × Option Int))) {current : Int} (hcurrent : I128 current)
    (seen : Bool) (precision : UInt8) (final : AggregateState F) :
    let state : AggregateState F := .sumDecimal current seen precision
    let rows := slotRows slot batches.flatten
    let values := rows.filterMap id
    (batches.foldlM (denseBatch slot) state = .ok final ↔
      rows.foldlM (fun state value => state.update expression (value.map CellValue.decimal128))
        state = .ok final) ∧
    (batches.foldlM (denseBatch slot) state = .ok final ↔
      (∀ head, head <+: values → I128 (current + head.sum)) ∧
        final = .sumDecimal (current + values.sum) (seen || !values.isEmpty) precision) ∧
    (values.isEmpty = true ↔ ∀ value ∈ rows, value = none) := by
  intro state rows values
  have hdense : batches.foldlM (denseBatch slot) state = .ok final ↔ _ :=
    foldlM_denseBatch expression slot batches hcurrent seen precision
  refine ⟨hdense, hdense.trans (singleRows_eq_ok expression _ hcurrent seen precision), ?_⟩
  simp [values]

theorem two_batches_of_a_slot :
    I128 (2 ^ 127 - 1) ∧
      ([[(0, some (-1)), (1, some 7), (0, none)], [(0, some 1)]].foldlM (denseBatch 0)
        (.sumDecimal (2 ^ 127 - 1) false 38 : AggregateState Unit)) =
        .ok (.sumDecimal (2 ^ 127 - 1) true 38) := by
  have hmax : I128 (2 ^ 127 - 1) := by decide
  refine ⟨hmax, (dense_sums_are_sequential
    ⟨.sum, none, false, .decimal128 38 0, "sum(value)"⟩ 0 _ hmax false 38 _).1.mpr rfl⟩

end RustDb.Execution.Aggregate
