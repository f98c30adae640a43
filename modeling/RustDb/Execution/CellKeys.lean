import RustDb.Execution.CellValue

/-!
# Keys of cells

The four notions of equality of `execution/value.rs`: `PartialEq`, `Hash`, `compare` and the
keys that a sort builds out of an array.

* `CellValue.eq`, `CellValue.hashInputs`, `canonicalizeSortKey`: the code.
* `CellValue.exists_order`: the cells of one type are compared by a key with a total order.
* `cell_keys_agree`: the four notions agree.
-/

namespace RustDb.Execution

open RustDb.Lib RustDb.Lib.Checked RustDb.Sql List

/-- The bits of an `f64`. -/
class FloatBits (F : Type) where
  /-- One pattern of bits for both zeros, and one for all that is not a number. -/
  normalizedFloat : F → UInt64
  fromBits : UInt64 → F

/-- What is fed to a hasher. -/
inductive HashInput where
  | bytes (value : List UInt8)
  | discriminant (kind : CellKind)
  | boolean (value : Bool)
  | i64 (value : Int64)
  | u64 (value : UInt64)
  | i128 (value : Int)
  | str (value : String)
deriving DecidableEq

namespace CellValue

variable {F : Type}

/-- `PartialEq::eq`. -/
def eq [FloatBits F] (left right : CellValue F) : Bool :=
  match left.intervalComparisonNanos, right.intervalComparisonNanos with
  | some leftNanos, some rightNanos => leftNanos = rightNanos
  | _, _ =>
    match left, right with
    | .null, .null => true
    | .boolean left, .boolean right => left = right
    | .int64 left, .int64 right => left = right
    | .uint64 left, .uint64 right => left = right
    | .float64 left, .float64 right =>
      FloatBits.normalizedFloat left = FloatBits.normalizedFloat right
    | .utf8 left, .utf8 right => left = right
    | .binary left, .binary right => left = right
    | .decimal128 left, .decimal128 right => left = right
    | _, _ => false

/-- `Hash::hash`. -/
def hashInputs [FloatBits F] (value : CellValue F) : List HashInput :=
  match value.intervalComparisonNanos with
  -- All families of intervals share one domain of equality.
  | some nanos => [.bytes "rustdb-interval".toUTF8.toList, .i128 nanos]
  | none => .discriminant value.kind ::
    match value with
    | .boolean value => [.boolean value]
    | .int64 value => [.i64 value]
    | .uint64 value => [.u64 value]
    | .float64 value => [.u64 (FloatBits.normalizedFloat value)]
    | .utf8 value => [.str value]
    | .binary value => [.bytes value]
    | .decimal128 value => [.i128 value]
    | _ => []

/-- The key of a cell that is not a float. -/
def sortKey (value : CellValue F) : CellValue F :=
  match value.intervalComparisonNanos with
  | some nanos => .decimal128 nanos
  | none => value

/-- The variant of a cell, with one variant for all intervals. -/
def family (value : CellValue F) : CellKind :=
  match value.intervalComparisonNanos with
  | some _ => .intervalMonthDayNano
  | none => value.kind

end CellValue

/-! ## Keys of an array -/

/-- The types of intervals. -/
def isInterval : DataType → Bool
  | .interval _ => true
  | _ => false

/-- The floating-point types. -/
def isFloating : DataType → Bool
  | .float16 | .float32 | .float64 => true
  | _ => false

/-- The type of a sort key: intervals are sorted by their length. -/
def canonicalSortKeyType (dataType : DataType) : DataType :=
  if isInterval dataType then .decimal128 38 0 else dataType

/-- `canonicalize_sort_key` on the type and the cells of an array.  Intervals become their lengths
and floats are normalised, so that sorting agrees with the equality of cells. -/
def canonicalizeSortKey {F : Type} [FloatBits F] (dataType : DataType)
    (cells : List (CellValue F)) : Result (DataType × List (CellValue F)) :=
  if isInterval dataType then do
    let values ← cells.mapM fun cell =>
      if cell.isNull then .ok .null
      else
        match cell.intervalComparisonNanos with
        | some nanos => .ok (.decimal128 nanos)
        | none => fail (.internal "interval key did not decode as an interval")
    .ok (.decimal128 38 0, values)
  else if !isFloating dataType then .ok (dataType, cells)
  else .ok (dataType, cells.map fun cell =>
    match cell with
    | .float64 value => .float64 (FloatBits.fromBits (FloatBits.normalizedFloat value))
    | value => value)

namespace CellValue

variable {F : Type}

/-! ## Sort keys -/

variable {x : CellValue F}

theorem family_eq_null : x.family = .null ↔ x = .null := by
  cases x <;> simp [family, intervalComparisonNanos, kind]

variable {dataType : DataType}

theorem isInterval_eq (h : cellKind dataType = some x.kind) :
    isInterval dataType = x.intervalComparisonNanos.isSome := by
  cases x <;> simp only [kind] at h <;>
    unfold cellKind at h <;> split at h <;> first | rfl | cases h

theorem kind_of_family (h : x.family = .float64) : x.kind = .float64 := by
  cases x <;> first | rfl | cases h

/-- The keys of an array that is not of floats. -/
theorem canonicalizeSortKey_eq [FloatBits F] {cells : List (CellValue F)}
    (hfloat : isFloating dataType = false) (hcells : ∀ cell ∈ cells, HasType dataType cell) :
    canonicalizeSortKey dataType cells =
      .ok (canonicalSortKeyType dataType, cells.map sortKey) := by
  unfold canonicalizeSortKey canonicalSortKeyType
  by_cases hinterval : isInterval dataType = true
  · rw [if_pos hinterval, if_pos hinterval, mapM_eq_ok.mpr]
    · rfl
    · apply forall₂_map_right_iff.mpr
      apply forall₂_same.mpr
      intro cell hmem
      rcases hcells cell hmem with rfl | ⟨hkind, -⟩
      · rfl
      · rw [isInterval_eq hkind] at hinterval
        cases cell <;> first | rfl | cases hinterval
  · have hkeys : cells.map sortKey = cells := by
      apply (map_congr_left ?_).trans (map_id cells)
      intro cell hmem
      rcases hcells cell hmem with rfl | ⟨hkind, -⟩
      · rfl
      · rw [isInterval_eq hkind] at hinterval
        cases cell <;> first | rfl | exact absurd rfl hinterval
    rw [if_neg hinterval, if_neg hinterval, hfloat, hkeys]
    rfl

/-- No step of the comparison of intervals leaves an `i128`, and its result is a decimal of 38
digits. -/
theorem interval_sums_fit (months days millis : Int32) (nanos : Int64) :
    I128 (months.toInt * nanosPerMonth) ∧ I128 (days.toInt * nanosPerDay) ∧
      I128 (millis.toInt * 1000000) ∧
      I128 (months.toInt * nanosPerMonth + days.toInt * nanosPerDay) ∧
      ∀ sum ∈ [months.toInt * nanosPerMonth,
        days.toInt * nanosPerDay + millis.toInt * 1000000,
        months.toInt * nanosPerMonth + days.toInt * nanosPerDay + nanos.toInt],
        -10 ^ 38 < sum ∧ sum < 10 ^ 38 := by
  have hmonths := And.intro months.le_toInt months.toInt_lt
  have hdays := And.intro days.le_toInt days.toInt_lt
  have hmillis := And.intro millis.le_toInt millis.toInt_lt
  have hnanos := And.intro nanos.le_toInt nanos.toInt_lt
  unfold I128 nanosPerMonth nanosPerDay
  refine ⟨by omega, by omega, by omega, by omega, ?_⟩
  simp only [forall_mem_cons]
  exact ⟨by omega, by omega, by omega, forall_mem_nil _⟩

/-! ## Order -/

/-- A key with a total order compares the cells of a family. -/
def Ordered (F : Type) [Platform F] (family : CellKind) : Prop :=
  ∃ (α : Type) (_ : Ord α) (_ : Std.TransOrd α) (_ : Std.LawfulEqOrd α)
    (key : CellValue F → α), ∀ x y, x.family = family → y.family = family →
      compare x y = .ok (Ord.compare (key x) (key y)) ∧ (key x = key y ↔ x.sortKey = y.sortKey)

theorem Ordered.of_constructor [Platform F] {family : CellKind} {α : Type} [Nonempty α] [Ord α]
    [Std.TransOrd α] [Std.LawfulEqOrd α] {make : α → CellValue F} (hmake : make.Injective)
    (hfamily : ∀ x, x.family = family → ∃ a, make a = x) (hkey : ∀ a, (make a).sortKey = make a)
    (hcompare : ∀ a b, compare (make a) (make b) = .ok (Ord.compare a b)) :
    Ordered F family := by
  refine ⟨α, _, inferInstance, inferInstance, make.invFun, ?_⟩
  intro x y hx hy
  obtain ⟨a, rfl⟩ := hfamily x hx
  obtain ⟨b, rfl⟩ := hfamily y hy
  have hleft := Function.leftInverse_invFun hmake
  rw [hleft a, hleft b, hkey, hkey, hmake.eq_iff]
  exact ⟨hcompare a b, Iff.rfl⟩

theorem exists_order [Platform F] (family : CellKind) (hnull : family ≠ .null)
    (hfloat : family ≠ .float64) : Ordered F family := by
  cases family with
  | null => exact absurd rfl hnull
  | float64 => exact absurd rfl hfloat
  | boolean =>
    exact .of_constructor (fun _ _ => boolean.inj) (by intro x h; cases x <;> cases h; exact ⟨_, rfl⟩)
      (fun _ => rfl) (fun _ _ => rfl)
  | int64 =>
    exact .of_constructor (fun _ _ => int64.inj) (by intro x h; cases x <;> cases h; exact ⟨_, rfl⟩)
      (fun _ => rfl) (fun _ _ => rfl)
  | uint64 =>
    exact .of_constructor (fun _ _ => uint64.inj) (by intro x h; cases x <;> cases h; exact ⟨_, rfl⟩)
      (fun _ => rfl) (fun _ _ => rfl)
  | utf8 =>
    exact .of_constructor (fun _ _ => utf8.inj) (by intro x h; cases x <;> cases h; exact ⟨_, rfl⟩)
      (fun _ => rfl) (fun _ _ => rfl)
  | binary =>
    exact .of_constructor (fun _ _ => binary.inj) (by intro x h; cases x <;> cases h; exact ⟨_, rfl⟩)
      (fun _ => rfl) (fun _ _ => rfl)
  | decimal128 =>
    exact .of_constructor (fun _ _ => decimal128.inj) (by intro x h; cases x <;> cases h; exact ⟨_, rfl⟩)
      (fun _ => rfl) (fun _ _ => rfl)
  | intervalYearMonth | intervalDayTime | intervalMonthDayNano =>
    refine ⟨Int, _, inferInstance, inferInstance, fun x => x.intervalComparisonNanos.getD 0, ?_⟩
    intro x y hx hy
    cases x <;> cases hx <;> cases y <;> cases hy <;>
      exact ⟨rfl, by simp [sortKey, intervalComparisonNanos]⟩

variable {y : CellValue F}

theorem compare_sortKey [Platform F] (h : x.family = y.family) :
    compare x.sortKey y.sortKey = compare x y := by
  cases x <;> cases y <;> first | (cases h; done) | rfl

theorem family_of_compare [Platform F] {order : Ordering} (h : compare x y = .ok order) :
    x.family = y.family ∧ x ≠ .null := by
  cases x <;> cases y <;> first | (cases h; done) | exact ⟨rfl, nofun⟩

/-! ## Equality -/

section

variable [FloatBits F] {x y : CellValue F}

theorem family_eq_of_eq (h : eq x y = true) : x.family = y.family := by
  cases x <;> cases y <;> first | (cases h; done) | rfl

theorem hashInputs_eq_of_eq (h : eq x y = true) : x.hashInputs = y.hashInputs := by
  cases x <;> cases y <;>
    first
    | (cases h; done)
    | simp_all [eq, hashInputs, intervalComparisonNanos, kind]

theorem sortKey_eq_iff (hx : x.kind ≠ .float64) (h : x = .null ∨ y = .null ∨ x.family = y.family) :
    x.sortKey = y.sortKey ↔ eq x y = true := by
  rcases h with rfl | rfl | h
  · cases y <;> simp [sortKey, eq, intervalComparisonNanos]
  · cases x <;> simp [sortKey, eq, intervalComparisonNanos]
  · cases x <;> cases y <;>
      first
      | exact absurd rfl hx
      | (cases h; done)
      | simp [sortKey, eq, intervalComparisonNanos]

/-- Cells are equal when their types and their keys are. -/
theorem eq_iff (hx : x.kind ≠ .float64) :
    eq x y = true ↔ x.family = y.family ∧ x.sortKey = y.sortKey := by
  constructor
  · intro h
    have hfamily := family_eq_of_eq h
    exact ⟨hfamily, (sortKey_eq_iff hx (.inr (.inr hfamily))).mpr h⟩
  · intro ⟨hfamily, hkey⟩
    exact (sortKey_eq_iff hx (.inr (.inr hfamily))).mp hkey

end

end CellValue

open CellValue

variable {F : Type} [Platform F] [FloatBits F]

/-- `PartialEq`, `Hash`, `compare` and the keys of a sort have one notion of equality, and
`compare` and these keys have one order, on cells that are not floats.  No sum on the way leaves
an `i128`. -/
theorem cell_keys_agree {x y z : CellValue F} (hx : x.kind ≠ .float64) (hy : y.kind ≠ .float64) :
    (x.eq x = true ∧ x.eq y = y.eq x ∧ (x.eq y = true → y.eq z = true → x.eq z = true)) ∧
    (x.eq y = true → x.hashInputs = y.hashInputs) ∧
    (x.family = y.family → x ≠ .null → ∃ order, x.compare y = .ok order ∧
      y.compare x = .ok order.swap ∧ (order = .eq ↔ x.eq y = true)) ∧
    (∀ order order', x.compare y = .ok order → y.compare z = .ok order' →
      order.isLE = true → order'.isLE = true →
        ∃ order'', x.compare z = .ok order'' ∧ order''.isLE = true) ∧
    (∀ dataType : DataType, isFloating dataType = false → ∀ cells : List (CellValue F),
      (∀ cell ∈ cells, HasType dataType cell) →
        canonicalizeSortKey dataType cells =
          .ok (canonicalSortKeyType dataType, cells.map sortKey)) ∧
    (x = .null ∨ y = .null ∨ x.family = y.family →
      (x.sortKey = y.sortKey ↔ x.eq y = true)) ∧
    (x.family = y.family → x.sortKey.compare y.sortKey = x.compare y) ∧
    ∀ (months days millis : Int32) (nanos : Int64),
      I128 (months.toInt * nanosPerMonth) ∧ I128 (days.toInt * nanosPerDay) ∧
      I128 (millis.toInt * 1000000) ∧
      I128 (months.toInt * nanosPerMonth + days.toInt * nanosPerDay) ∧
      ∀ sum ∈ [months.toInt * nanosPerMonth,
        days.toInt * nanosPerDay + millis.toInt * 1000000,
        months.toInt * nanosPerMonth + days.toInt * nanosPerDay + nanos.toInt],
        -10 ^ 38 < sum ∧ sum < 10 ^ 38 := by
  have horder (hnull : x ≠ .null) := exists_order (F := F) x.family
    (mt family_eq_null.mp hnull) fun h => hx (kind_of_family h)
  refine ⟨⟨(eq_iff hx).mpr ⟨rfl, rfl⟩, ?_, ?_⟩, hashInputs_eq_of_eq, ?_, ?_,
    fun _ hfloat _ => canonicalizeSortKey_eq hfloat, sortKey_eq_iff hx, compare_sortKey,
    interval_sums_fit⟩
  · rw [Bool.eq_iff_iff, eq_iff hx, eq_iff hy]
    exact ⟨fun h => ⟨h.1.symm, h.2.symm⟩, fun h => ⟨h.1.symm, h.2.symm⟩⟩
  · rw [eq_iff hx, eq_iff hy, eq_iff hx]
    exact fun h h' => ⟨h.1.trans h'.1, h.2.trans h'.2⟩
  · intro hfamily hnull
    obtain ⟨α, _, _, _, key, hkey⟩ := horder hnull
    obtain ⟨hcompare, hsame⟩ := hkey x y rfl hfamily.symm
    refine ⟨_, hcompare, ?_, ?_⟩
    · rw [(hkey y x hfamily.symm rfl).1]
      exact congrArg Except.ok Std.OrientedOrd.eq_swap
    · exact Std.LawfulEqOrd.compare_eq_iff_eq.trans
        (hsame.trans (sortKey_eq_iff hx (.inr (.inr hfamily))))
  · intro order order' hxy hyz hle hle'
    obtain ⟨hfamily, hnull⟩ := family_of_compare hxy
    have hfamily' := (family_of_compare hyz).1
    obtain ⟨α, _, _, _, key, hkey⟩ := horder hnull
    rw [(hkey x y rfl hfamily.symm).1] at hxy
    rw [(hkey y z hfamily.symm (hfamily.trans hfamily').symm).1] at hyz
    cases hxy
    cases hyz
    exact ⟨_, (hkey x z rfl (hfamily.trans hfamily').symm).1, Std.TransOrd.isLE_trans hle hle'⟩

instance : FloatBits Unit where
  normalizedFloat _ := 0
  fromBits _ := ()

theorem a_month_and_thirty_days_have_one_key :
    let month : CellValue Unit := .intervalYearMonth 1
    let days : CellValue Unit := .intervalDayTime 30 0
    month.eq days = true ∧ month.hashInputs = days.hashInputs ∧ month.sortKey = days.sortKey := by
  intro month days
  obtain ⟨-, hhash, -, -, -, hkey, -⟩ :=
    cell_keys_agree (x := month) (y := days) (z := .null) (by decide) (by decide)
  have heq : month.eq days = true := by decide
  exact ⟨heq, hhash heq, (hkey (.inr (.inr rfl))).mpr heq⟩

end RustDb.Execution
