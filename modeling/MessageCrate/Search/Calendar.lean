import MessageCrate.Search.Value
import Mathlib.Data.Int.LeastGreatest
import Mathlib.Algebra.Order.Group.Int

/- The calendar under the date values.

   1. The months are numbered through the years, and `monthStart k` is the first day of month `k`.
      Each month starts where the one before it ends (`monthStart_succ`), so the starts go up
      and every day is in one month (`exists_month`).
   2. `civilFromDays` reads back what `daysFromCivil` counts (`civilFromDays_daysFromCivil`): the
      year of an era first, by the length of its years, then the month by its days.
   3. So a day's year, month and day of the month say which day it is (`NaiveDate.day_eq`). -/
namespace MessageCrate

/-- A date of the calendar. -/
def ValidDate (y m d : Int) : Prop := 1 ≤ m ∧ m ≤ 12 ∧ 1 ≤ d ∧ d ≤ daysInMonth y m

theorem daysInMonth_bounds (y m : Int) : 28 ≤ daysInMonth y m ∧ daysInMonth y m ≤ 31 := by
  rw [daysInMonth]
  split
  · split
    · omega
    · omega
  split
  · omega
  · omega

theorem isLeapYear_iff (y : Int) :
    isLeapYear y = true ↔ y % 4 = 0 ∧ (y % 100 ≠ 0 ∨ y % 400 = 0) := by
  simp [isLeapYear]

/-! Counting days. -/

/-- The days before a year of the calendar that starts in March. -/
def daysBefore (y : Int) : Int := 365 * y + y / 4 - y / 100 + y / 400 - 719468

/-- Days are counted from the first of March: January and February end the year before. -/
theorem daysFromCivil_eq (y m d : Int) :
    daysFromCivil y m d =
      daysBefore (if m ≤ 2 then y - 1 else y) +
        ((153 * (m + (if 2 < m then -3 else 9)) + 2) / 5 + d - 1) := by
  simp only [daysFromCivil, daysBefore]
  generalize (if m ≤ 2 then y - 1 else y) = year
  generalize (153 * (m + (if 2 < m then -3 else 9)) + 2) / 5 = before
  omega

theorem daysFromCivil_add (y m d : Int) : daysFromCivil y m d = daysFromCivil y m 1 + (d - 1) := by
  rw [daysFromCivil_eq, daysFromCivil_eq]
  omega

/-- February is as long as the rule for leap years says. -/
theorem daysBefore_succ (y : Int) :
    daysBefore (y + 1) = daysBefore y + 337 + daysInMonth (y + 1) 2 := by
  have hleap := isLeapYear_iff (y + 1)
  rw [daysBefore, daysBefore, daysInMonth, if_pos rfl]
  cases h : isLeapYear (y + 1) with
  | false =>
    rw [h] at hleap
    simp only [Bool.false_eq_true, false_iff] at hleap
    simp only [Bool.false_eq_true, if_false]
    omega
  | true =>
    have := hleap.mp h
    simp only [if_true]
    omega

theorem daysFromCivil_next_month (y : Int) {m : Int} (hlow : 1 ≤ m) (hhigh : m < 12) :
    daysFromCivil y (m + 1) 1 = daysFromCivil y m 1 + daysInMonth y m := by
  have hfeb := daysBefore_succ (y - 1)
  rw [Int.sub_add_cancel] at hfeb
  have hcases : m = 1 ∨ m = 2 ∨ m = 3 ∨ m = 4 ∨ m = 5 ∨ m = 6 ∨ m = 7 ∨ m = 8 ∨ m = 9 ∨ m = 10 ∨
      m = 11 := by omega
  rw [daysFromCivil_eq, daysFromCivil_eq]
  rcases hcases with rfl | rfl | rfl | rfl | rfl | rfl | rfl | rfl | rfl | rfl | rfl
  · simp [daysInMonth]
    omega
  · simp only [Int.reduceLE, Int.reduceLT, Int.reduceAdd, if_true, if_false, Int.reduceMul,
      Int.reduceNeg, Int.reduceDiv, Int.reduceSub]
    omega
  all_goals
    simp [daysInMonth]
    try omega

theorem daysFromCivil_next_year (y : Int) :
    daysFromCivil (y + 1) 1 1 = daysFromCivil y 12 1 + daysInMonth y 12 := by
  rw [daysFromCivil_eq, daysFromCivil_eq]
  simp [daysInMonth]
  omega

/-! Months numbered through the years. -/

/-- The first day of month `k`: month 0 is the January of year 0. -/
def monthStart (k : Int) : Int := daysFromCivil (k / 12) (k % 12 + 1) 1

def monthLength (k : Int) : Int := daysInMonth (k / 12) (k % 12 + 1)

theorem monthStart_index (y : Int) {m : Int} (hlow : 1 ≤ m) (hhigh : m ≤ 12) :
    monthStart (y * 12 + m - 1) = daysFromCivil y m 1 := by
  have hyear : (y * 12 + m - 1) / 12 = y := by omega
  have hmonth : (y * 12 + m - 1) % 12 + 1 = m := by omega
  rw [monthStart, hyear, hmonth]

theorem monthLength_index (y : Int) {m : Int} (hlow : 1 ≤ m) (hhigh : m ≤ 12) :
    monthLength (y * 12 + m - 1) = daysInMonth y m := by
  have hyear : (y * 12 + m - 1) / 12 = y := by omega
  have hmonth : (y * 12 + m - 1) % 12 + 1 = m := by omega
  rw [monthLength, hyear, hmonth]

/-- A month starts where the one before it ends. -/
theorem monthStart_succ (k : Int) : monthStart (k + 1) = monthStart k + monthLength k := by
  rw [monthStart, monthStart, monthLength]
  rcases lt_or_ge (k % 12) 11 with hmonth | hmonth
  · have hyear : (k + 1) / 12 = k / 12 := by omega
    have hnext : (k + 1) % 12 + 1 = k % 12 + 1 + 1 := by omega
    rw [hyear, hnext]
    exact daysFromCivil_next_month _ (by omega) (by omega)
  · have hyear : (k + 1) / 12 = k / 12 + 1 := by omega
    have hnext : (k + 1) % 12 + 1 = 1 := by omega
    have hlast : k % 12 + 1 = 12 := by omega
    rw [hyear, hnext, hlast]
    exact daysFromCivil_next_year _

theorem monthLength_bounds (k : Int) : 28 ≤ monthLength k ∧ monthLength k ≤ 31 :=
  daysInMonth_bounds _ _

theorem monthStart_strictMono : StrictMono monthStart := by
  apply strictMono_int_of_lt_succ
  intro k
  have := monthLength_bounds k
  rw [monthStart_succ]
  omega

theorem monthStart_add_nat (k : Int) : ∀ n : Nat, monthStart k + 28 * n ≤ monthStart (k + n)
  | 0 => by simp
  | n + 1 => by
    have hn := monthStart_add_nat k n
    have hlength := monthLength_bounds (k + n)
    have hnext : k + ((n + 1 : Nat) : Int) = k + n + 1 := by omega
    rw [hnext, monthStart_succ]
    omega

/-- Every day is in a month. -/
theorem exists_month (day : Int) : ∃ k, monthStart k ≤ day ∧ day < monthStart (k + 1) := by
  have hbounded : ∃ b : Int, ∀ k, monthStart k ≤ day → k ≤ b := by
    refine ⟨(day - monthStart 0).toNat, ?_⟩
    intro k hk
    by_contra hfar
    have hstart := monthStart_add_nat 0 k.toNat
    have hk' : (0 : Int) + k.toNat = k := by omega
    rw [hk'] at hstart
    omega
  have hsome : ∃ k, monthStart k ≤ day := by
    refine ⟨-((monthStart 0 - day).toNat : Int), ?_⟩
    have hstart := monthStart_add_nat (-((monthStart 0 - day).toNat : Int)) (monthStart 0 - day).toNat
    rw [Int.add_left_neg] at hstart
    omega
  obtain ⟨k, hk, hgreatest⟩ := Int.exists_greatest_of_bdd hbounded hsome
  refine ⟨k, hk, ?_⟩
  by_contra hnext
  have := hgreatest (k + 1) (by omega)
  omega

/-! Reading a day back. -/

/-- The year of an era is read back: the corrections for leap days are off by one at most where a
year ends. -/
theorem yearOfEra_eq {c q s doy : Int} (hc : 0 ≤ c ∧ c ≤ 3) (hq : 0 ≤ q ∧ q ≤ 24)
    (hs : 0 ≤ s ∧ s ≤ 3) (hdoy : 0 ≤ doy ∧ doy ≤ 364 ∨ doy = 365 ∧ s = 3 ∧ (q = 24 → c = 3))
    {doe : Int} (hdoe : doe = 36524 * c + 1461 * q + 365 * s + doy) :
    (doe - doe / 1460 + doe / 36524 - doe / 146096) / 365 = 100 * c + 4 * q + s := by
  have hfour : doe / 1460 = 25 * c + q ∨ doe / 1460 = 25 * c + q + 1 ∧ 269 ≤ doy := by omega
  have hfull : doy = 365 → doe / 1460 = 25 * c + q + 1 := by omega
  have hcentury : doe / 36524 = c ∨ doe / 36524 = c + 1 ∧ doy = 365 ∧ c = 3 ∧ q = 24 := by omega
  have hera : doe / 146096 = 0 ∧ (doy = 365 → c = 3 → q < 24) ∨
      doe / 146096 = 1 ∧ doy = 365 ∧ c = 3 ∧ q = 24 := by omega
  generalize doe / 1460 = four at *
  generalize doe / 36524 = century at *
  generalize doe / 146096 = era at *
  have hrest : 0 ≤ doe - four + century - era - 365 * (100 * c + 4 * q + s) ∧
      doe - four + century - era - 365 * (100 * c + 4 * q + s) < 365 := by
    rcases hfour with hfour | hfour
    · omega
    · omega
  omega

/-- The month and the day of a day of the year that starts in March. -/
def monthOfYear (doy : Int) : Int × Int :=
  let mp := (5 * doy + 2) / 153
  (if mp < 10 then mp + 3 else mp - 9, doy - (153 * mp + 2) / 5 + 1)

/-- Where a date is in the year that starts in March. -/
def dayOfYear (m d : Int) : Int := (153 * (m + (if 2 < m then -3 else 9)) + 2) / 5 + d - 1

theorem month_cases {m : Int} (hlow : 1 ≤ m) (hhigh : m ≤ 12) :
    m = 1 ∨ m = 2 ∨ m = 3 ∨ m = 4 ∨ m = 5 ∨ m = 6 ∨ m = 7 ∨ m = 8 ∨ m = 9 ∨ m = 10 ∨ m = 11 ∨
      m = 12 := by
  omega

/-- The month a day of the year is in, by the days of the months before it. -/
theorem monthIndex_eq {y m d : Int} (h : ValidDate y m d) :
    (5 * dayOfYear m d + 2) / 153 = m + (if 2 < m then -3 else 9) := by
  obtain ⟨hlow, hhigh, hfirst, hlast⟩ := h
  have hlong := daysInMonth_bounds y m
  have hfeb : m = 2 → d ≤ 29 := by
    rintro rfl
    rw [daysInMonth, if_pos rfl] at hlast
    split at hlast
    · exact hlast
    · omega
  have hshort : m = 4 ∨ m = 6 ∨ m = 9 ∨ m = 11 → d ≤ 30 := by
    intro hm
    rwa [daysInMonth, if_neg (by omega), if_pos hm] at hlast
  rw [dayOfYear]
  rcases month_cases hlow hhigh with rfl | rfl | rfl | rfl | rfl | rfl | rfl | rfl | rfl | rfl |
    rfl | rfl
  all_goals
    norm_num at hfeb hshort ⊢
    omega

theorem monthOfYear_dayOfYear {y m d : Int} (h : ValidDate y m d) :
    monthOfYear (dayOfYear m d) = (m, d) := by
  rw [monthOfYear, monthIndex_eq h, dayOfYear]
  obtain ⟨hlow, hhigh, -, -⟩ := h
  simp only [Prod.mk.injEq]
  constructor
  · split
    · split
      · omega
      · omega
    · split
      · omega
      · omega
  · omega

theorem dayOfYear_bounds {y m d : Int} (h : ValidDate y m d) :
    0 ≤ dayOfYear m d ∧ dayOfYear m d ≤ 364 ∨
      dayOfYear m d = 365 ∧ m = 2 ∧ isLeapYear y = true := by
  have hmonth := monthIndex_eq h
  obtain ⟨hlow, hhigh, hfirst, hlast⟩ := h
  by_cases hfeb : m = 2
  · rw [hfeb, daysInMonth, if_pos rfl] at hlast
    have hday : dayOfYear m d = 336 + d := by
      rw [hfeb, dayOfYear]
      norm_num
      omega
    split at hlast
    · next hleap =>
      by_cases hd : d = 29
      · exact .inr ⟨by omega, hfeb, hleap⟩
      · exact .inl (by omega)
    · exact .inl (by omega)
  · left
    have hindex : m + (if 2 < m then -3 else 9) ≤ 10 ∧ 0 ≤ m + (if 2 < m then -3 else 9) := by
      split
      · omega
      · omega
    omega

/-- A year in eras, centuries and leap cycles. -/
theorem exists_cycles (year : Int) : ∃ era c q s, (0 ≤ c ∧ c ≤ 3) ∧ (0 ≤ q ∧ q ≤ 24) ∧
    (0 ≤ s ∧ s ≤ 3) ∧ year = 400 * era + 100 * c + 4 * q + s :=
  ⟨year / 400, year % 400 / 100, year % 100 / 4, year % 4, by omega, by omega, by omega, by omega⟩

theorem daysBefore_cycles {era c q s : Int} (hc : 0 ≤ c ∧ c ≤ 3) (hq : 0 ≤ q ∧ q ≤ 24)
    (hs : 0 ≤ s ∧ s ≤ 3) :
    daysBefore (400 * era + 100 * c + 4 * q + s) =
      146097 * era + (36524 * c + 1461 * q + 365 * s) - 719468 := by
  have hfour : (400 * era + 100 * c + 4 * q + s) / 4 = 100 * era + 25 * c + q := by omega
  have hcentury : (400 * era + 100 * c + 4 * q + s) / 100 = 4 * era + c := by omega
  have hera : (400 * era + 100 * c + 4 * q + s) / 400 = era := by omega
  rw [daysBefore, hfour, hcentury, hera]
  omega

/-- **A date is read back from its day number.** -/
theorem civilFromDays_daysFromCivil {y m d : Int} (h : ValidDate y m d) :
    civilFromDays (daysFromCivil y m d) = (y, m, d) := by
  have hmonth := monthOfYear_dayOfYear h
  have hbounds := dayOfYear_bounds h
  have hleap := isLeapYear_iff y
  -- the year that starts in March
  obtain ⟨era, c, q, s, hc, hq, hs, hyear⟩ := exists_cycles (if m ≤ 2 then y - 1 else y)
  have hlast : 0 ≤ dayOfYear m d ∧ dayOfYear m d ≤ 364 ∨ dayOfYear m d = 365 ∧ s = 3 ∧
      (q = 24 → c = 3) := by
    rcases hbounds with hbounds | ⟨hday, rfl, hleapYear⟩
    · exact .inl hbounds
    · have hrule := hleap.mp hleapYear
      rw [if_pos (Int.le_refl 2)] at hyear
      clear hleap hmonth
      exact .inr ⟨hday, by omega, by omega⟩
  have hcount : daysFromCivil y m d + 719468 =
      146097 * era + (36524 * c + 1461 * q + 365 * s + dayOfYear m d) := by
    rw [daysFromCivil_eq, hyear, daysBefore_cycles hc hq hs, ← dayOfYear]
    omega
  obtain ⟨doe, hdoe⟩ : ∃ doe, doe = 36524 * c + 1461 * q + 365 * s + dayOfYear m d := ⟨_, rfl⟩
  have hyoe := yearOfEra_eq hc hq hs hlast hdoe
  rw [← hdoe] at hcount
  have hrange : 0 ≤ doe ∧ doe < 146097 := by omega
  have hera : (daysFromCivil y m d + 719468) / 146097 = era := by omega
  have hrest : daysFromCivil y m d + 719468 - era * 146097 = doe := by omega
  have hfour : (100 * c + 4 * q + s) / 4 = 25 * c + q := by omega
  have hcentury : (100 * c + 4 * q + s) / 100 = c := by omega
  have hdoy : doe - (365 * (100 * c + 4 * q + s) + (25 * c + q) - c) = dayOfYear m d := by omega
  have hback : 100 * c + 4 * q + s + era * 400 = if m ≤ 2 then y - 1 else y := by omega
  rw [civilFromDays]
  simp only [hera, hrest, hyoe, hfour, hcentury, hdoy, hback]
  rw [monthOfYear, Prod.mk.injEq] at hmonth
  rw [hmonth.1, hmonth.2]
  split
  · rw [Int.sub_add_cancel]
  · rfl

theorem monthStart_month {k d : Int} (hlow : 1 ≤ d) (hhigh : d ≤ monthLength k) :
    civilFromDays (monthStart k + (d - 1)) = (k / 12, k % 12 + 1, d) := by
  rw [monthStart, ← daysFromCivil_add]
  exact civilFromDays_daysFromCivil ⟨by omega, by omega, hlow, hhigh⟩

/-- What is read back is a date, and the one that is counted. -/
theorem civilFromDays_spec (day : Int) : ∃ k d, 1 ≤ d ∧ d ≤ monthLength k ∧
    day = monthStart k + (d - 1) ∧ civilFromDays day = (k / 12, k % 12 + 1, d) := by
  obtain ⟨k, hlow, hhigh⟩ := exists_month day
  rw [monthStart_succ] at hhigh
  refine ⟨k, day - monthStart k + 1, by omega, by omega, by omega, ?_⟩
  have hread := monthStart_month (k := k) (d := day - monthStart k + 1) (by omega) (by omega)
  have hday : monthStart k + (day - monthStart k + 1 - 1) = day := by omega
  rwa [hday] at hread

/-! Days in chrono's range. -/

namespace NaiveDate

/-- The number of a day's month. -/
def monthIndex (x : NaiveDate) : Int := x.year * 12 + x.month - 1

theorem day_eq (x : NaiveDate) : 1 ≤ x.dayOfMonth ∧ x.dayOfMonth ≤ monthLength x.monthIndex ∧
    x.day = monthStart x.monthIndex + (x.dayOfMonth - 1) ∧ 1 ≤ x.month ∧ x.month ≤ 12 := by
  obtain ⟨k, d, hlow, hhigh, hday, hread⟩ := civilFromDays_spec x.day
  have hyear : x.year = k / 12 := by rw [year, hread]
  have hmonth : x.month = k % 12 + 1 := by rw [month, hread]
  have hd : x.dayOfMonth = d := by rw [dayOfMonth, hread]
  have hindex : x.monthIndex = k := by
    rw [monthIndex, hyear, hmonth]
    omega
  rw [hindex, hd]
  exact ⟨hlow, hhigh, hday, by omega, by omega⟩

theorem ofDay_eq_some {day : Int} {x : NaiveDate} : ofDay day = some x ↔ x.day = day := by
  rw [ofDay]
  split
  · simp only [Option.some.injEq]
    constructor
    · intro h
      rw [← h]
    · intro h
      cases x
      cases h
      rfl
  · next hout =>
    simp only [reduceCtorEq, false_iff]
    intro h
    exact hout (h ▸ x.inRange)

theorem addDays_eq_some {x x' : NaiveDate} {n : Int} : x.addDays n = some x' ↔ x'.day = x.day + n :=
  ofDay_eq_some

theorem fromYmdOpt_eq_some {y m d : Int} {x : NaiveDate} :
    fromYmdOpt y m d = some x ↔ ValidDate y m d ∧ x.day = daysFromCivil y m d := by
  rw [fromYmdOpt]
  split
  · next hvalid =>
    rw [ofDay_eq_some]
    exact ⟨fun h => ⟨hvalid, h⟩, fun h => h.2⟩
  · next hinvalid =>
    simp only [reduceCtorEq, false_iff]
    exact fun h => hinvalid h.1

/-- The day a date names has that date. -/
theorem of_fromYmdOpt {y m d : Int} {x : NaiveDate} (h : fromYmdOpt y m d = some x) :
    x.year = y ∧ x.month = m ∧ x.dayOfMonth = d := by
  obtain ⟨hvalid, hday⟩ := fromYmdOpt_eq_some.mp h
  have hread := civilFromDays_daysFromCivil hvalid
  rw [← hday] at hread
  exact ⟨by rw [year, hread], by rw [month, hread], by rw [dayOfMonth, hread]⟩

end NaiveDate

/-! The months of the date values. -/

/-- The first day of the next month is past the last of this one. -/
theorem firstOfNextMonth_eq_some {y m : Int} {x : NaiveDate} (hlow : 1 ≤ m) (hhigh : m ≤ 12) :
    firstOfNextMonth y m = some x ↔ x.day = daysFromCivil y m 1 + daysInMonth y m := by
  have hnext := monthStart_succ (y * 12 + m - 1)
  rw [monthStart_index y hlow hhigh, monthLength_index y hlow hhigh] at hnext
  rw [← hnext, firstOfNextMonth]
  split
  · next hdec =>
    have hindex : y * 12 + m - 1 + 1 = (y + 1) * 12 + 1 - 1 := by omega
    rw [NaiveDate.fromYmdOpt_eq_some, hindex, monthStart_index _ (by omega) (by omega)]
    exact ⟨fun h => h.2, fun h => ⟨⟨by omega, by omega, by omega, by
      have := daysInMonth_bounds (y + 1) 1
      omega⟩, h⟩⟩
  · next hdec =>
    have hindex : y * 12 + m - 1 + 1 = y * 12 + (m + 1) - 1 := by omega
    rw [NaiveDate.fromYmdOpt_eq_some, hindex, monthStart_index _ (by omega) (by omega)]
    exact ⟨fun h => h.2, fun h => ⟨⟨by omega, by omega, by omega, by
      have := daysInMonth_bounds y (m + 1)
      omega⟩, h⟩⟩

/-- **Months back, the same day of the month or the last one of a shorter month.** -/
theorem shiftMonthsBack_spec {today x : NaiveDate} {months : Int}
    (h : shiftMonthsBack today months = some x) :
    x.monthIndex = today.monthIndex - months ∧
      x.dayOfMonth = min today.dayOfMonth (daysInMonth x.year x.month) := by
  obtain ⟨k, hk⟩ : ∃ k, k = today.year * 12 + today.month - 1 - months := ⟨_, rfl⟩
  simp only [shiftMonthsBack, ← hk] at h
  obtain ⟨next, hnext, h⟩ := Option.bind_eq_some_iff.mp h
  obtain ⟨last, hlast, h⟩ := Option.bind_eq_some_iff.mp h
  rw [firstOfNextMonth_eq_some (by omega) (by omega)] at hnext
  rw [NaiveDate.addDays_eq_some] at hlast
  have hlength := monthLength_bounds k
  have hdays : last.dayOfMonth = monthLength k := by
    have hread := monthStart_month (k := k) (d := monthLength k) (by omega) (Int.le_refl _)
    have hday : last.day = monthStart k + (monthLength k - 1) := by
      rw [hlast, hnext, monthStart, monthLength]
      omega
    rw [NaiveDate.dayOfMonth, hday, hread]
  obtain ⟨hyear, hmonth, hd⟩ := NaiveDate.of_fromYmdOpt h
  rw [hyear, hmonth, hd, NaiveDate.monthIndex, hyear, hmonth, hdays]
  constructor
  · rw [NaiveDate.monthIndex]
    omega
  · rfl

/-- The day months back is not past today. -/
theorem shiftMonthsBack_le {today x : NaiveDate} {months : Int} (hmonths : 0 ≤ months)
    (h : shiftMonthsBack today months = some x) : x.day ≤ today.day := by
  obtain ⟨hindex, hd⟩ := shiftMonthsBack_spec h
  obtain ⟨hlow, hhigh, hday, -, -⟩ := x.day_eq
  obtain ⟨hlow', hhigh', hday', -, -⟩ := today.day_eq
  rcases Int.le_iff_lt_or_eq.mp hmonths with hpos | hzero
  · have hstart := monthStart_strictMono.monotone (show x.monthIndex + 1 ≤ today.monthIndex by omega)
    rw [monthStart_succ] at hstart
    omega
  · have hsame : x.monthIndex = today.monthIndex := by omega
    rw [hday, hday', hsame]
    omega

end MessageCrate
