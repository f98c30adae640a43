import RustDb.Sql.Coercion
import RustDb.Sql.Temporal

/-!
# Dates in Hive partition paths

The partition parser of `datasource/hive.rs` has its own table of months and its own day
count, in `i32`.

* `parseDate32`: the parser.
* `Written`: the texts of a date, three decimal numbers that may have a plus sign.
-/

namespace RustDb.Datasource

open RustDb.Lib RustDb.Sql RustDb.Sql.Coercion List Option

/-- A number below the limit in decimal digits. -/
def parseDigits (limit : Nat) (digits : List Char) : Option Nat :=
  let n := numberOf 10 (digits.map digitValue)
  if digits ≠ [] ∧ digits.all Char.isDigit ∧ n < limit then some n else none

/-- A text without its plus sign. -/
def unsignedPart : List Char → List Char
  | '+' :: digits => digits
  | digits => digits

/-- `str::parse` for an unsigned type. -/
def parseUnsigned (bits : Nat) (text : List Char) : Option Nat :=
  parseDigits (2 ^ bits) (unsignedPart text)

/-- `str::parse` for `i32`. -/
def parseI32 : List Char → Option Int
  | '-' :: digits => (parseDigits (2 ^ 31 + 1) digits).map fun n => -(n : Int)
  | text => (parseUnsigned 31 text).map Int.ofNat

/-- The result of a checked operation of `i32`. -/
def checkedI32 (v : Int) : Option Int :=
  if -2 ^ 31 ≤ v ∧ v < 2 ^ 31 then some v else none

/-- The lengths of the months. -/
def monthDays (leap : Bool) : List Nat :=
  [31, 28 + leap.toNat, 31, 30, 31, 30, 31, 31, 30, 31, 30, 31]

/-- `parse_date32` once the three numbers are read. -/
def dateNumber (year : Int) (month day : Nat) : Option Int := do
  if ¬ (1 ≤ month ∧ month ≤ 12) then none
  if day = 0 ∨ (monthDays (isLeap year)).getD (month - 1) 0 < day then none
  let adjustedYear := year - if month ≤ 2 then 1 else 0
  let era := adjustedYear / 400
  let yearOfEra := adjustedYear - era * 400
  let shiftedMonth := (month : Int) + if 2 < month then -3 else 9
  let dayOfYear := (153 * shiftedMonth + 2).tdiv 5 + day - 1
  let dayOfEra := yearOfEra * 365 + yearOfEra.tdiv 4 - yearOfEra.tdiv 100 + dayOfYear
  let days ← checkedI32 (era * 146097)
  let days ← checkedI32 (days + dayOfEra)
  checkedI32 (days - 719468)

/-- The date that a partition value states, in days since 1970-01-01. -/
def parseDate32 (value : String) : Option Int := do
  let [year, month, day] := value.toList.splitOn '-' | none
  let year ← parseI32 year
  let month ← parseUnsigned 32 month
  let day ← parseUnsigned 32 day
  dateNumber year month day

/-! ## What is accepted -/

/-- A decimal number, with or without a plus sign. -/
def Numeral (text : List Char) (n : Nat) : Prop :=
  unsignedPart text ≠ [] ∧ (unsignedPart text).all Char.isDigit = true ∧
    numberOf 10 ((unsignedPart text).map digitValue) = n

instance decidableNumeral (text : List Char) (n : Nat) : Decidable (Numeral text n) :=
  inferInstanceAs (Decidable (_ ∧ _ ∧ _))

/-- The text states this year, month and day, in digits. -/
def Written (value : String) (year month day : Nat) : Prop :=
  ∃ y m d, value.toList = y ++ '-' :: (m ++ '-' :: d) ∧
    Numeral y year ∧ Numeral m month ∧ Numeral d day

variable {n : Nat} {text : List Char}

theorem parseUnsigned_eq_some {bits : Nat} :
    parseUnsigned bits text = some n ↔ Numeral text n ∧ n < 2 ^ bits := by
  simp only [parseUnsigned, parseDigits, Numeral, ite_none_right_eq_some,
    some.injEq]
  constructor
  · rintro ⟨⟨hne, hall, hlt⟩, rfl⟩
    exact ⟨⟨hne, hall, rfl⟩, hlt⟩
  · rintro ⟨⟨hne, hall, rfl⟩, hlt⟩
    exact ⟨⟨hne, hall, hlt⟩, rfl⟩

theorem Numeral.not_mem (h : Numeral text n) : '-' ∉ text := by
  have hdigits : '-' ∉ unsignedPart text := fun hmem => by
    simpa using all_eq_true.mp h.2.1 _ hmem
  unfold unsignedPart at hdigits
  split at hdigits
  · simpa using hdigits
  · exact hdigits

/-- The field before the first hyphen has no sign that is a hyphen. -/
theorem parseI32_eq_some {field : List Char} {fields : List (List Char)} {year : Int}
    (h : text.splitOn '-' = field :: fields) :
    parseI32 field = some year ↔ ∃ n : Nat, (n : Int) = year ∧ Numeral field n ∧ n < 2 ^ 31 := by
  unfold parseI32
  split
  · rename_i rest
    have htext : ['-'].intercalate (text.splitOn '-') = text := intercalate_splitOn '-'
    obtain ⟨tail, rfl⟩ : ∃ tail, text = '-' :: tail := by
      rw [h] at htext
      cases fields <;> exact ⟨_, htext.symm⟩
    rw [← nil_append ('-' :: tail), splitOn_append_cons_self_of_not_mem not_mem_nil] at h
    cases h
  · simp only [map_eq_some_iff, parseUnsigned_eq_some]
    exact exists_congr fun n => and_comm

theorem monthDays_eq (year : Int) {month : Nat} (hpos : 1 ≤ month) (hle : month ≤ 12) :
    (monthDays (isLeap year)).getD (month - 1) 0 = daysInMonth year month := by
  cases h : isLeap year <;> interval_cases month <;> simp [monthDays, daysInMonth, h]

/-- The last three checks, for a date of a year that is not negative. -/
theorem checkedI32_chain {era dayOfEra days : Int} (hera : -1 ≤ era) (hday : 0 ≤ dayOfEra) :
    (do
      let days ← checkedI32 (era * 146097)
      let days ← checkedI32 (days + dayOfEra)
      checkedI32 (days - 719468)) = some days ↔
      era * 146097 + dayOfEra - 719468 = days ∧ days + 719468 < 2 ^ 31 := by
  simp only [checkedI32, bind_eq_bind, bind_eq_some_iff,
    ite_none_right_eq_some, some.injEq]
  constructor
  · rintro ⟨_, ⟨-, rfl⟩, _, ⟨hsum, rfl⟩, -, rfl⟩
    omega
  · rintro ⟨rfl, hsum⟩
    exact ⟨_, ⟨by omega, rfl⟩, _, ⟨by omega, rfl⟩, by omega, rfl⟩

theorem dateNumber_eq_some {year days : Int} {month day : Nat} (hyear : 0 ≤ year) :
    dateNumber year month day = some days ↔ ValidDate year month day ∧
      daysFromCivil year month day = days ∧ days + 719468 < 2 ^ 31 := by
  unfold dateNumber
  by_cases hmonth : 1 ≤ month ∧ month ≤ 12
  · rw [monthDays_eq year hmonth.1 hmonth.2]
    by_cases hday : day = 0 ∨ daysInMonth year month < day
    · simp [hmonth, hday, validDate_iff]
      omega
    · have hvalid : ValidDate year month day := ⟨hmonth.1, hmonth.2, by omega, by omega⟩
      have hera := tdiv_eq_ediv (year - if month ≤ 2 then 1 else 0) (n := 400) (by decide)
      norm_num only at hera
      have hmarch : -1 ≤ year - if month ≤ 2 then 1 else 0 := by
        split_ifs <;> omega
      have hmonths : 0 ≤ 153 * ((month : Int) + if 2 < month then -3 else 9) + 2 := by
        split_ifs <;> omega
      unfold daysFromCivil
      simp only [hmonth, hday, hvalid, and_self, true_and, not_true_eq_false, if_false, hera]
      generalize (year - if month ≤ 2 then 1 else 0) = march at hmarch ⊢
      have hyears : 0 ≤ march - march / 400 * 400 := by omega
      refine checkedI32_chain (by omega) ?_
      rw [Int.tdiv_eq_ediv_of_nonneg hyears, Int.tdiv_eq_ediv_of_nonneg hyears,
        Int.tdiv_eq_ediv_of_nonneg hmonths]
      omega
  · simp [hmonth, validDate_iff]
    omega

/-- The parser accepts the dates whose day number, counted from the year 0 on, fits. -/
theorem parseDate32_eq_some {value : String} {days : Int} :
    parseDate32 value = some days ↔ ∃ year month day : Nat, Written value year month day ∧
      year < 2 ^ 31 ∧ ValidDate year month day ∧ daysFromCivil year month day = days ∧
      days + 719468 < 2 ^ 31 := by
  constructor
  · intro h
    unfold parseDate32 at h
    split at h
    · rename_i y m d hfields
      simp only [bind_eq_bind, bind_eq_some_iff, parseI32_eq_some hfields,
        parseUnsigned_eq_some] at h
      obtain ⟨_, ⟨year, rfl, hy, hlt⟩, month, ⟨hm, -⟩, day, ⟨hd, -⟩, h⟩ := h
      have htext : ['-'].intercalate (value.toList.splitOn '-') = value.toList :=
        intercalate_splitOn '-'
      rw [hfields] at htext
      exact ⟨year, month, day, ⟨y, m, d, by simpa using htext.symm, hy, hm, hd⟩, hlt,
        (dateNumber_eq_some (Int.natCast_nonneg year)).mp h⟩
    · cases h
  · rintro ⟨year, month, day, ⟨y, m, d, htext, hy, hm, hd⟩, hlt, hdate⟩
    have hsplit : (['-'].intercalate [y, m, d]).splitOn '-' = [y, m, d] :=
      splitOn_intercalate '-' (by simp [hy.not_mem, hm.not_mem, hd.not_mem]) (cons_ne_nil _ _)
    have hfields : value.toList.splitOn '-' = [y, m, d] := by
      rw [htext]
      simpa using hsplit
    have hmonth := hdate.1.month_le
    have hday : daysInMonth year month < 2 ^ 32 := by
      unfold daysInMonth
      split
      · split_ifs <;> decide
      all_goals decide
    have hdayLe := hdate.1.day_le
    unfold parseDate32
    simp [hfields, (parseI32_eq_some hfields).mpr ⟨year, rfl, hy, hlt⟩,
      parseUnsigned_eq_some.mpr ⟨hm, show month < 2 ^ 32 by omega⟩,
      parseUnsigned_eq_some.mpr ⟨hd, show day < 2 ^ 32 by omega⟩,
      (dateNumber_eq_some (Int.natCast_nonneg year)).mpr hdate]

/-- Days and dates are ordered alike, and the partition parser counts the same days. -/
theorem calendar_isomorphism (value : String) (result : Int) :
    (∀ days, firstDay ≤ days → days ≤ lastDay → ∃ year month day,
      civilFromDays days = (year, month, day) ∧ -2 ^ 31 ≤ year ∧ year < 2 ^ 31 ∧
        ValidDate year month day ∧ daysFromCivil year month day = days) ∧
    (∀ year month day, -2 ^ 31 ≤ year → year < 2 ^ 31 → ValidDate year month day →
      firstDay ≤ daysFromCivil year month day ∧ daysFromCivil year month day ≤ lastDay ∧
        civilFromDays (daysFromCivil year month day) = (year, month, day)) ∧
    (∀ year month day year' month' day', ValidDate year month day →
      ValidDate year' month' day' →
      (daysFromCivil year month day < daysFromCivil year' month' day' ↔
        Earlier year month day year' month' day')) ∧
    (parseDate32 value = some result ↔
      ∃ year month day : Nat, Written value year month day ∧ year < 2 ^ 31 ∧
        ValidDate year month day ∧ daysFromCivil year month day = result ∧
        result + 719468 < 2 ^ 31) :=
  ⟨fun _ => civilFromDays_spec, fun _ _ _ => civilFromDays_daysFromCivil,
    fun _ _ _ _ _ _ => daysFromCivil_lt_iff, parseDate32_eq_some⟩

/-- A date whose day number fits `i32`, but not the number counted from the year 0 on. -/
theorem late_date_refused :
    Written "5880000-01-01" 5880000 1 1 ∧ ValidDate 5880000 1 1 ∧
      daysFromCivil 5880000 1 1 = 2146906372 ∧ parseDate32 "5880000-01-01" = none := by
  refine ⟨⟨"5880000".toList, "01".toList, "01".toList, ?_⟩, ?_⟩ <;> decide

end RustDb.Datasource
