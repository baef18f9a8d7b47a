/-
The proleptic Gregorian calendar: dates, and days counted from 1970-01-01.

- `Date.days`: the day of a date, by the leap-year rule.
- `civil`: the date of a day, by cycles of 400, 100 and four years that begin in March.
- `civil_valid`, `days_civil`: it is a date of the calendar, and the date of that day.
-/
import Mathlib.Tactic

namespace Concordia.Lib

structure Date where
  year : ℤ
  month : ℤ
  day : ℤ
deriving DecidableEq, Repr

namespace Date

def isLeap (year : ℤ) : Prop := year % 4 = 0 ∧ (year % 100 ≠ 0 ∨ year % 400 = 0)

instance (year : ℤ) : Decidable (isLeap year) := inferInstanceAs (Decidable (_ ∧ _))

def leapDay (year : ℤ) : ℤ := if isLeap year then 1 else 0

/-- the days of a year before a month, without the leap day -/
def monthStart (month : ℤ) : ℤ := if month ≤ 2 then 31 * (month - 1) else 59 + (153 * (month - 3) + 2) / 5

def monthLength (year month : ℤ) : ℤ :=
  if month = 2 then 28 + leapDay year else if month = 4 ∨ month = 6 ∨ month = 9 ∨ month = 11 then 30 else 31

/-- the days before a year, from 0001-01-01 on -/
def yearStart (year : ℤ) : ℤ := 365 * (year - 1) + (year - 1) / 4 - (year - 1) / 100 + (year - 1) / 400

structure Valid (d : Date) : Prop where
  month : 1 ≤ d.month ∧ d.month ≤ 12
  day : 1 ≤ d.day ∧ d.day ≤ monthLength d.year d.month

/-- the day of a date -/
def days (d : Date) : ℤ :=
  yearStart d.year + monthStart d.month + (if 2 < d.month then leapDay d.year else 0) + d.day - 1 - 719162

end Date

open Date

/-- the day of the year that begins in March, and that year -/
def marchYear (z : ℤ) : ℤ × ℤ :=
  let era := z / 146097
  let century := min 3 (z % 146097 / 36524)
  let cycle := (z % 146097 - 36524 * century) / 1461
  let dayOfCycle := (z % 146097 - 36524 * century) % 1461
  let year := min 3 (dayOfCycle / 365)
  (400 * era + 100 * century + 4 * cycle + year, dayOfCycle - 365 * year)

/-- the date of a day -/
def civil (days : ℤ) : Date :=
  let (year, dayOfYear) := marchYear (days + 719468)
  let month := (5 * dayOfYear + 2) / 153
  ⟨if month < 10 then year else year + 1, if month < 10 then month + 3 else month - 9,
    dayOfYear - (153 * month + 2) / 5 + 1⟩

example : civil 0 = ⟨1970, 1, 1⟩ ∧ civil 19782 = ⟨2024, 2, 29⟩ ∧ civil (-1) = ⟨1969, 12, 31⟩ := by decide

/-! ## Years that begin in March -/

/-- the days before such a year, from 0000-03-01 on -/
def marchStart (year : ℤ) : ℤ := 365 * year + year / 4 - year / 100 + year / 400

theorem marchStart_eq (year : ℤ) : yearStart year + 59 + leapDay year = marchStart year - 306 := by
  unfold yearStart leapDay isLeap marchStart
  split_ifs <;> omega

theorem leapDay_nonneg (year : ℤ) : 0 ≤ leapDay year := by
  unfold leapDay
  split_ifs <;> norm_num

theorem leapDay_le (year : ℤ) : leapDay year ≤ 1 := by
  unfold leapDay
  split_ifs <;> norm_num

theorem yearStart_succ (year : ℤ) : yearStart (year + 1) = marchStart year := by
  simp [yearStart, marchStart]

theorem marchStart_cycles {era century cycle year : ℤ} (hcentury : 0 ≤ century ∧ century ≤ 3)
    (hcycle : 0 ≤ cycle ∧ cycle ≤ 24) (hyear : 0 ≤ year ∧ year ≤ 3) :
    marchStart (400 * era + 100 * century + 4 * cycle + year) =
      146097 * era + 36524 * century + 1461 * cycle + 365 * year := by
  have hfour : (400 * era + 100 * century + 4 * cycle + year) / 4 = 100 * era + 25 * century + cycle := by omega
  have hhundred : (400 * era + 100 * century + 4 * cycle + year) / 100 = 4 * era + century := by omega
  have hera : (400 * era + 100 * century + 4 * cycle + year) / 400 = era := by omega
  rw [marchStart, hfour, hhundred, hera]
  ring

/-- the cycles a day is in -/
theorem cycles (z : ℤ) : ∃ era century cycle year,
    (0 ≤ century ∧ century ≤ 3) ∧ (0 ≤ cycle ∧ cycle ≤ 24) ∧ (0 ≤ year ∧ year ≤ 3) ∧
      (marchYear z).1 = 400 * era + 100 * century + 4 * cycle + year ∧
      z = 146097 * era + 36524 * century + 1461 * cycle + 365 * year + (marchYear z).2 ∧ 0 ≤ (marchYear z).2 ∧
      (marchYear z).2 ≤ 365 ∧ ((marchYear z).2 = 365 → year = 3 ∧ (cycle = 24 → century = 3)) := by
  obtain ⟨era, r, hera, hr⟩ : ∃ era r, era = z / 146097 ∧ r = z % 146097 := ⟨_, _, rfl, rfl⟩
  obtain ⟨century, hcentury⟩ : ∃ century, century = min 3 (r / 36524) := ⟨_, rfl⟩
  obtain ⟨rest, hrest⟩ : ∃ rest, rest = r - 36524 * century := ⟨_, rfl⟩
  obtain ⟨cycle, day, hcycle, hday⟩ : ∃ cycle day, cycle = rest / 1461 ∧ day = rest % 1461 := ⟨_, _, rfl, rfl⟩
  obtain ⟨year, hyear⟩ : ∃ year, year = min 3 (day / 365) := ⟨_, rfl⟩
  have hmarch : marchYear z = (400 * era + 100 * century + 4 * cycle + year, day - 365 * year) := by
    rw [hyear, hday, hcycle, hrest, hcentury, hr, hera]
    rfl
  -- a day 36524 is left in the last century only, a day 1460 in the last year only
  have hrest' : 0 ≤ rest ∧ rest ≤ 36524 ∧ (rest = 36524 → century = 3) := by omega
  have hday' : 0 ≤ day ∧ day ≤ 1460 := by omega
  rw [hmarch]
  refine ⟨era, century, cycle, year, by omega, by omega, by omega, rfl, ?_, ?_, ?_, ?_⟩
  · dsimp only
    omega
  · dsimp only
    omega
  · dsimp only
    omega
  · dsimp only
    omega

/-- the last year of four is followed by a leap year, unless a century ends -/
theorem isLeap_cycles {era century cycle : ℤ} (hcycle : 0 ≤ cycle ∧ cycle ≤ 24) (hlast : cycle = 24 → century = 3) :
    isLeap (400 * era + 100 * century + 4 * cycle + 3 + 1) := by
  refine ⟨by omega, ?_⟩
  rcases eq_or_ne cycle 24 with rfl | hne
  · rw [hlast rfl]
    exact .inr (by omega)
  · exact .inl (by omega)

/-- a day of a year that begins in March; only before a leap year's March there is a day 365 -/
theorem marchYear_spec (z : ℤ) : marchStart (marchYear z).1 + (marchYear z).2 = z ∧ 0 ≤ (marchYear z).2 ∧
    (marchYear z).2 ≤ 364 + leapDay ((marchYear z).1 + 1) := by
  obtain ⟨era, century, cycle, year, hcentury, hcycle, hyear, hfirst, hz, hnonneg, hle, hlast⟩ := cycles z
  refine ⟨?_, hnonneg, ?_⟩
  · rw [hfirst, marchStart_cycles hcentury hcycle hyear]
    omega
  · rcases eq_or_ne (marchYear z).2 365 with hday | hday
    · obtain ⟨rfl, hcycle24⟩ := hlast hday
      rw [hday, hfirst, leapDay, if_pos (isLeap_cycles hcycle hcycle24)]
      norm_num
    · have hleap := leapDay_nonneg ((marchYear z).1 + 1)
      omega

/-! ## Dates -/

theorem civil_valid (z : ℤ) : (civil z).Valid := by
  obtain ⟨-, hnonneg, hle⟩ := marchYear_spec (z + 719468)
  have hleap := leapDay_le ((marchYear (z + 719468)).1 + 1)
  simp only [civil]
  refine ⟨?_, ?_⟩
  · dsimp only
    split_ifs <;> omega
  · dsimp only [monthLength]
    split_ifs <;> omega

/-- **Dates.** The day of the date of a day is that day. -/
theorem days_civil (z : ℤ) : (civil z).days = z := by
  obtain ⟨hz, hnonneg, hle⟩ := marchYear_spec (z + 719468)
  have hleap := leapDay_le ((marchYear (z + 719468)).1 + 1)
  have hsame := marchStart_eq (marchYear (z + 719468)).1
  have hnext := yearStart_succ (marchYear (z + 719468)).1
  simp only [civil, days, monthStart]
  split_ifs <;> omega

end Concordia.Lib
