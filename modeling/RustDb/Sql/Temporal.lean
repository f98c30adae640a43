import Mathlib.Tactic.IntervalCases

/-!
# Civil dates

Day numbers count from 1970-01-01 in the proleptic Gregorian calendar.

* `daysFromCivil`, `civilFromDays`: the conversions of `sql/temporal.rs`.
* `yearStart`: the first day of a year that begins in March.
* `daysFromCivil_lt_iff`: the conversion keeps the order of dates.
* `civilFromDays_spec`, `civilFromDays_daysFromCivil`: the two are inverse to each other.
-/

namespace RustDb.Sql

/-- The leap years of the Gregorian calendar. -/
def isLeap (year : Int) : Bool :=
  year.tmod 4 = 0 && (year.tmod 100 ≠ 0 || year.tmod 400 = 0)

/-- The length of a month. -/
def daysInMonth (year : Int) : Nat → Nat
  | 2 => if isLeap year then 29 else 28
  | 4 | 6 | 9 | 11 => 30
  | _ => 31

/-- The days since 1970-01-01. -/
def daysFromCivil (year : Int) (month day : Nat) : Int :=
  let adjustedYear := year - if month ≤ 2 then 1 else 0
  let era := (if 0 ≤ adjustedYear then adjustedYear else adjustedYear - 399).tdiv 400
  let yearOfEra := adjustedYear - era * 400
  let shiftedMonth := (month : Int) + if 2 < month then -3 else 9
  let dayOfYear := (153 * shiftedMonth + 2).tdiv 5 + day - 1
  let dayOfEra := yearOfEra * 365 + yearOfEra.tdiv 4 - yearOfEra.tdiv 100 + dayOfYear
  era * 146097 + dayOfEra - 719468

/-- The year wraps as `year as i32` does. -/
def civilFromDays (days : Int) : Int × Nat × Nat :=
  let days := days + 719468
  let era := (if 0 ≤ days then days else days - 146096).tdiv 146097
  let dayOfEra := days - era * 146097
  let yearOfEra := (dayOfEra - dayOfEra.tdiv 1460 + dayOfEra.tdiv 36524 -
    dayOfEra.tdiv 146096).tdiv 365
  let year := yearOfEra + era * 400
  let dayOfYear := dayOfEra - (365 * yearOfEra + yearOfEra.tdiv 4 - yearOfEra.tdiv 100)
  let monthPrime := (5 * dayOfYear + 2).tdiv 153
  let day := dayOfYear - (153 * monthPrime + 2).tdiv 5 + 1
  let month := monthPrime + if monthPrime < 10 then 3 else -9
  let year := year + if month ≤ 2 then 1 else 0
  (year.bmod (2 ^ 32), (month % 2 ^ 32).toNat, (day % 2 ^ 32).toNat)

/-- The dates of the proleptic Gregorian calendar. -/
@[mk_iff] structure ValidDate (year : Int) (month day : Nat) : Prop where
  month_pos : 1 ≤ month
  month_le : month ≤ 12
  day_pos : 1 ≤ day
  day_le : day ≤ daysInMonth year month

instance decidableValidDate (year : Int) (month day : Nat) :
    Decidable (ValidDate year month day) :=
  decidable_of_iff' _ (validDate_iff year month day)

/-- The order of dates. -/
def Earlier (year : Int) (month day : Nat) (year' : Int) (month' day' : Nat) : Prop :=
  year < year' ∨ year = year' ∧ (month < month' ∨ month = month' ∧ day < day')

/-! ## Years that begin in March -/

/-- The first day of a year that begins in March, from the year 0 on. -/
def yearStart (year : Int) : Int :=
  365 * year + year / 4 - year / 100 + year / 400

theorem isLeap_iff (year : Int) :
    isLeap year = true ↔ year % 4 = 0 ∧ (year % 100 ≠ 0 ∨ year % 400 = 0) := by
  simp only [isLeap, Bool.and_eq_true, Bool.or_eq_true, decide_eq_true_eq, ne_eq,
    ← Int.dvd_iff_tmod_eq_zero, ← Int.dvd_iff_emod_eq_zero]

/-- A year ends with February, which tells how many days it has. -/
theorem yearStart_succ (year : Int) :
    yearStart (year + 1) = yearStart year + 337 + daysInMonth (year + 1) 2 := by
  rw [show daysInMonth (year + 1) 2 = if isLeap (year + 1) then 29 else 28 from rfl]
  unfold yearStart
  split_ifs with h <;> rw [isLeap_iff] at h <;> omega

theorem yearStart_mono {year year' : Int} (h : year ≤ year') : yearStart year ≤ yearStart year' := by
  unfold yearStart
  omega

/-- Rounding towards zero, corrected for negative numbers, is rounding down. -/
theorem tdiv_eq_ediv {n : Int} (x : Int) (hn : 0 < n) :
    (if 0 ≤ x then x else x - (n - 1)).tdiv n = x / n := by
  split_ifs with h
  · exact Int.tdiv_eq_ediv_of_nonneg h
  · rw [← neg_neg (x - (n - 1)), Int.neg_tdiv, Int.tdiv_eq_ediv_of_nonneg (by omega)]
    have hdiv := Int.ediv_mul_add_emod (-(x - (n - 1))) n
    have hnonneg := Int.emod_nonneg (-(x - (n - 1))) hn.ne'
    have hlt := Int.emod_lt_of_pos (-(x - (n - 1))) hn
    rw [eq_comm, Int.ediv_eq_iff_of_pos hn, Int.neg_mul]
    omega

/-- The days before a month, counted from March. -/
def monthStart (month : Nat) : Int :=
  (153 * ((month : Int) + if 2 < month then -3 else 9) + 2) / 5

variable {year year' : Int} {month month' day day' : Nat}

theorem daysFromCivil_eq (year : Int) (hmonth : 1 ≤ month) (day : Nat) :
    daysFromCivil year month day =
      yearStart (year - if month ≤ 2 then 1 else 0) + monthStart month + day - 719469 := by
  unfold daysFromCivil yearStart monthStart
  generalize (year - if month ≤ 2 then 1 else 0) = adjusted
  have hera := tdiv_eq_ediv adjusted (n := 400) (by decide)
  norm_num only at hera
  have hpos : 0 ≤ 153 * ((month : Int) + if 2 < month then -3 else 9) + 2 := by
    split_ifs <;> omega
  have hyear : 0 ≤ adjusted - adjusted / 400 * 400 := by omega
  simp only [hera, Int.tdiv_eq_ediv_of_nonneg hyear, Int.tdiv_eq_ediv_of_nonneg hpos]
  omega

/-- A month other than February ends before the next one starts. -/
theorem monthStart_add_le (h : ValidDate year month day) (hmonth : month ≠ 2) :
    monthStart month + day ≤
      (153 * ((month : Int) + if 2 < month then -2 else 10) + 2) / 5 := by
  obtain ⟨hpos, hle, -, hday⟩ := h
  interval_cases month <;> simp_all [monthStart, daysInMonth] <;> omega

/-- A date lies in its year. -/
theorem dayOfYear_le (h : ValidDate year month day) :
    monthStart month + day ≤
      337 + daysInMonth ((year - if month ≤ 2 then 1 else 0) + 1) 2 := by
  by_cases hmonth : month = 2
  · obtain ⟨-, -, -, hday⟩ := h
    subst hmonth
    rw [if_pos (Nat.le_refl 2), sub_add_cancel]
    simp only [monthStart]
    omega
  · have hle := monthStart_add_le h hmonth
    have hbound := h.month_le
    have hpos := h.month_pos
    split_ifs at hle ⊢ <;> omega

/-- The conversion keeps the order of dates. -/
theorem daysFromCivil_lt (h : ValidDate year month day) (h' : ValidDate year' month' day')
    (hlt : Earlier year month day year' month' day') :
    daysFromCivil year month day < daysFromCivil year' month' day' := by
  have hend := dayOfYear_le h
  have hnext := monthStart_add_le h
  have hpos := h'.day_pos
  have hmonth := h.month_pos
  have hmonth' := h'.month_pos
  have hmonths := h.month_le
  rw [daysFromCivil_eq _ hmonth, daysFromCivil_eq _ hmonth']
  unfold Earlier at hlt
  generalize hyear : (year - if month ≤ 2 then 1 else 0) = march at hend ⊢
  generalize hyear' : (year' - if month' ≤ 2 then 1 else 0) = march'
  have hsucc := yearStart_succ march
  rcases Int.lt_trichotomy march march' with hless | heq | hgreater
  · have hmono := yearStart_mono (show march + 1 ≤ march' from hless)
    have hstart : 0 ≤ monthStart month' := by
      unfold monthStart
      split_ifs <;> omega
    omega
  · rw [heq]
    unfold monthStart at hnext ⊢
    split_ifs at * <;> omega
  · split_ifs at * <;> omega

theorem daysFromCivil_lt_iff (h : ValidDate year month day) (h' : ValidDate year' month' day') :
    daysFromCivil year month day < daysFromCivil year' month' day' ↔
      Earlier year month day year' month' day' := by
  refine ⟨fun hlt => ?_, daysFromCivil_lt h h'⟩
  by_contra hnot
  have hrest : Earlier year' month' day' year month day ∨
      year = year' ∧ month = month' ∧ day = day' := by
    unfold Earlier at *
    omega
  rcases hrest with hrest | ⟨rfl, rfl, rfl⟩
  · have hgt := daysFromCivil_lt h' h hrest
    omega
  · omega

/-- Different dates have different day numbers. -/
theorem daysFromCivil_inj (h : ValidDate year month day) (h' : ValidDate year' month' day')
    (heq : daysFromCivil year month day = daysFromCivil year' month' day') :
    year = year' ∧ month = month' ∧ day = day' := by
  have hlt := daysFromCivil_lt_iff h h'
  have hgt := daysFromCivil_lt_iff h' h
  unfold Earlier at hlt hgt
  omega

/-! ## From days to dates -/

/-- The year of a day of an era. -/
theorem yearOfEra_spec {dayOfEra yearOfEra : Int} (hpos : 0 ≤ dayOfEra) (hlt : dayOfEra < 146097)
    (h : yearOfEra = (dayOfEra - dayOfEra / 1460 + dayOfEra / 36524 - dayOfEra / 146096) / 365) :
    0 ≤ yearOfEra ∧ yearOfEra < 400 ∧ yearStart yearOfEra ≤ dayOfEra ∧
      dayOfEra < yearStart (yearOfEra + 1) := by
  unfold yearStart
  by_cases hlast : dayOfEra = 146096
  · subst hlast h
    decide
  · have hlow : 100 * (dayOfEra / 36524) ≤ yearOfEra := by omega
    have hhigh : yearOfEra < 100 * (dayOfEra / 36524) + 100 := by omega
    have hfour : yearOfEra / 4 ≤ dayOfEra / 1460 := by omega
    have hfour' : dayOfEra / 1460 ≤ (yearOfEra + 1) / 4 := by omega
    have hcentury : yearOfEra / 100 = dayOfEra / 36524 := by omega
    refine ⟨by omega, by omega, by omega, ?_⟩
    by_cases hend : yearOfEra + 1 = 100 * (dayOfEra / 36524) + 100
    · omega
    · have hsame : (yearOfEra + 1) / 100 = dayOfEra / 36524 := by omega
      omega

theorem daysInMonth_february_le (year : Int) : daysInMonth year 2 ≤ 29 := by
  show (if isLeap year then 29 else 28) ≤ 29
  split_ifs <;> decide

/-- The month and the day of a day of a year. -/
theorem monthPrime_spec {dayOfYear monthPrime : Int} (year : Int) (hpos : 0 ≤ dayOfYear)
    (hle : dayOfYear ≤ 336 + daysInMonth (year + 1) 2)
    (h : monthPrime = (5 * dayOfYear + 2) / 153) {month day : Nat}
    (hmonth : (month : Int) = monthPrime + if monthPrime < 10 then 3 else -9)
    (hday : (day : Int) = dayOfYear - (153 * monthPrime + 2) / 5 + 1) :
    ValidDate (year + if month ≤ 2 then 1 else 0) month day ∧
      monthStart month + day = dayOfYear + 1 := by
  have hfebruary := daysInMonth_february_le (year + 1)
  have hrange : 1 ≤ month ∧ month ≤ 12 := by
    split_ifs at hmonth <;> omega
  obtain ⟨hmonthPos, hmonthLe⟩ := hrange
  refine ⟨⟨hmonthPos, hmonthLe, by omega, ?_⟩, ?_⟩
  · by_cases hend : month = 2
    · rw [hend, if_pos (Nat.le_refl 2)]
      split_ifs at hmonth <;> omega
    · split_ifs at hmonth <;> interval_cases month <;> simp [daysInMonth] at hend ⊢ <;> omega
  · unfold monthStart
    split_ifs at * <;> omega

/-- Every day has a date, whose year may be too large for `i32`. -/
theorem exists_civilFromDays (days : Int) :
    ∃ year month day, civilFromDays days = (year.bmod (2 ^ 32), month, day) ∧
      ValidDate year month day ∧ daysFromCivil year month day = days := by
  unfold civilFromDays
  have hera := tdiv_eq_ediv (days + 719468) (n := 146097) (by decide)
  norm_num only at hera
  simp only [hera]
  generalize hquotient : (days + 719468) / 146097 = era
  generalize hrest : days + 719468 - era * 146097 = dayOfEra
  have hpos : 0 ≤ dayOfEra := by omega
  generalize hyear : (dayOfEra - dayOfEra / 1460 + dayOfEra / 36524 - dayOfEra / 146096) / 365 =
    yearOfEra
  obtain ⟨hyearPos, hyearLt, hstart, hnext⟩ := yearOfEra_spec hpos (by omega) hyear.symm
  have hdiv : (dayOfEra - dayOfEra / 1460 + dayOfEra / 36524 - dayOfEra / 146096).tdiv 365 =
      yearOfEra := by
    rw [Int.tdiv_eq_ediv_of_nonneg (by omega), hyear]
  have hstartEq : yearStart yearOfEra = 365 * yearOfEra + yearOfEra / 4 - yearOfEra / 100 := by
    unfold yearStart
    omega
  have hperiod : ∀ year, yearStart (year + era * 400) = yearStart year + era * 146097 := by
    intro year
    unfold yearStart
    omega
  have hsucc := yearStart_succ (yearOfEra + era * 400)
  rw [add_right_comm, hperiod, hperiod, add_right_comm] at hsucc
  simp only [Int.tdiv_eq_ediv_of_nonneg hpos, hdiv, Int.tdiv_eq_ediv_of_nonneg hyearPos, ← hstartEq]
  generalize hday : dayOfEra - yearStart yearOfEra = dayOfYear
  rw [Int.tdiv_eq_ediv_of_nonneg (a := 5 * dayOfYear + 2) (by omega)]
  generalize hprime : (5 * dayOfYear + 2) / 153 = monthPrime
  rw [Int.tdiv_eq_ediv_of_nonneg (a := 153 * monthPrime + 2) (by omega)]
  have hfebruary := daysInMonth_february_le (yearOfEra + 1 + era * 400)
  obtain ⟨month, hmonth⟩ : ∃ month : Nat,
      (month : Int) = monthPrime + if monthPrime < 10 then 3 else -9 :=
    ⟨(monthPrime + if monthPrime < 10 then 3 else -9).toNat, by split_ifs <;> omega⟩
  obtain ⟨day, hdayEq⟩ : ∃ day : Nat, (day : Int) = dayOfYear - (153 * monthPrime + 2) / 5 + 1 :=
    ⟨(dayOfYear - (153 * monthPrime + 2) / 5 + 1).toNat, by omega⟩
  obtain ⟨hvalid, hsum⟩ := monthPrime_spec (yearOfEra + era * 400) (by omega)
    (by rw [add_right_comm]; omega) hprime.symm hmonth hdayEq
  rw [← hmonth, ← hdayEq]
  refine ⟨_, month, day, ?_, hvalid, ?_⟩
  · have hmonthLe := hvalid.month_le
    have hle : ((month : Int) ≤ 2) = (month ≤ 2) := by
      rw [eq_iff_iff]
      omega
    have hmonthWord : ((month : Int) % 2 ^ 32).toNat = month := by omega
    have hdayWord : ((day : Int) % 2 ^ 32).toNat = day := by omega
    rw [hmonthWord, hdayWord]
    simp only [hle]
  · rw [daysFromCivil_eq _ hvalid.month_pos, add_sub_cancel_right, hperiod]
    omega

/-- The first and the last day with a year of `i32`. -/
def firstDay : Int := daysFromCivil (-2 ^ 31) 1 1

/-- The last day of the last `i32` year. -/
def lastDay : Int := daysFromCivil (2 ^ 31 - 1) 12 31

/-- A day in the range of the years of `i32` has a date. -/
theorem civilFromDays_spec {days : Int} (hfirst : firstDay ≤ days) (hlast : days ≤ lastDay) :
    ∃ year month day, civilFromDays days = (year, month, day) ∧ -2 ^ 31 ≤ year ∧ year < 2 ^ 31 ∧
      ValidDate year month day ∧ daysFromCivil year month day = days := by
  obtain ⟨year, month, day, hcivil, hvalid, hdays⟩ := exists_civilFromDays days
  have hlow : -2 ^ 31 ≤ year := by
    by_contra hnot
    have hlt := daysFromCivil_lt hvalid (show ValidDate (-2 ^ 31) 1 1 by decide)
      (.inl (by omega))
    rw [firstDay] at hfirst
    omega
  have hhigh : year < 2 ^ 31 := by
    by_contra hnot
    have hlt := daysFromCivil_lt (show ValidDate (2 ^ 31 - 1) 12 31 by decide) hvalid
      (.inl (by omega))
    rw [lastDay] at hlast
    omega
  refine ⟨year, month, day, ?_, hlow, hhigh, hvalid, hdays⟩
  rw [hcivil, Int.bmod_eq_of_le (by omega) (by omega)]

theorem civilFromDays_daysFromCivil (hlow : -2 ^ 31 ≤ year) (hhigh : year < 2 ^ 31)
    (h : ValidDate year month day) :
    firstDay ≤ daysFromCivil year month day ∧ daysFromCivil year month day ≤ lastDay ∧
      civilFromDays (daysFromCivil year month day) = (year, month, day) := by
  have hmonth := h.month_le
  have hday := h.day_le
  have hfirst := daysFromCivil_lt_iff h (show ValidDate (-2 ^ 31) 1 1 by decide)
  have hlast := daysFromCivil_lt_iff (show ValidDate (2 ^ 31 - 1) 12 31 by decide) h
  have hbound : month = 12 → day ≤ 31 := by
    rintro rfl
    exact hday
  have hpos := h.month_pos
  have hdayPos := h.day_pos
  unfold Earlier at hfirst hlast
  refine ⟨by rw [firstDay]; omega, by rw [lastDay]; omega, ?_⟩
  obtain ⟨year', month', day', hcivil, hvalid, hdays⟩ :=
    exists_civilFromDays (daysFromCivil year month day)
  obtain ⟨rfl, rfl, rfl⟩ := daysFromCivil_inj hvalid h hdays
  rw [hcivil, Int.bmod_eq_of_le (by omega) (by omega)]

end RustDb.Sql
