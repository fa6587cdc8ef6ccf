import ConfigNotation.Calendar.Civil
import Mathlib.Tactic.IntervalCases
import Mathlib.Tactic.SplitIfs

/-!
Days are counted as the calendar has them: every day has a date that exists, and the number of
days up to that date is the day.
-/

namespace ConfigNotation.CivilDate

/-- The number of days in an era before a year of it. Years start in March. -/
def daysBefore (yearOfEra : Int) : Int := 365 * yearOfEra + yearOfEra / 4 - yearOfEra / 100

/-- The place of a day in its era: the year, and the day of it. Only the year in
front of a leap day has 366 days. -/
theorem dayOfEra_split (dayOfEra : Int) {yearOfEra : Int} (hfirst : 0 ≤ dayOfEra)
    (hlast : dayOfEra < 146097) (hyear : yearOfEra =
      (dayOfEra - dayOfEra / 1460 + dayOfEra / 36524 - dayOfEra / 146096) / 365) :
    (0 ≤ yearOfEra ∧ yearOfEra < 400) ∧
      (0 ≤ dayOfEra - daysBefore yearOfEra ∧ dayOfEra - daysBefore yearOfEra ≤ 365) ∧
      (dayOfEra - daysBefore yearOfEra = 365 → isLeapYear (yearOfEra + 1) = true) := by
  simp only [daysBefore, isLeapYear, Bool.and_eq_true, Bool.or_eq_true, beq_iff_eq, bne_iff_ne]
  obtain rfl | hbefore : dayOfEra = 146096 ∨ dayOfEra < 146096 := by omega
  · omega
  -- The day is followed through its century and its four years, in which the year is a small step.
  · obtain ⟨cycle, hcycle⟩ : ∃ cycle, cycle = dayOfEra / 1460 := ⟨_, rfl⟩
    obtain ⟨century, hcentury⟩ : ∃ century, century = dayOfEra / 36524 := ⟨_, rfl⟩
    obtain ⟨step, hstep⟩ : ∃ step, step = yearOfEra - 4 * cycle := ⟨_, rfl⟩
    rw [← hcycle, ← hcentury, show dayOfEra / 146096 = 0 by omega] at hyear
    have hlow : 0 ≤ century := by omega
    have hhigh : century ≤ 3 := by omega
    have hback : -1 ≤ step := by interval_cases century <;> omega
    have hahead : step ≤ 3 := by interval_cases century <;> omega
    interval_cases century <;> interval_cases step <;> omega

/-- The place of a day in a year that starts in March: the month, and the day of
it. -/
theorem dayOfYear_split {dayOfYear month : Int} (hfirst : 0 ≤ dayOfYear) (hlast : dayOfYear ≤ 365)
    (hmonth : month = (5 * dayOfYear + 2) / 153) :
    (0 ≤ month ∧ month ≤ 11) ∧ 0 ≤ dayOfYear - (153 * month + 2) / 5 := by
  omega

/-- The place of a month in a year that starts in January. -/
def civilMonth (month : Int) : Int := if month < 10 then month + 3 else month - 9

/-- Days of a year that starts in March are in their months. -/
theorem day_le_daysInMonth (year : Int) {dayOfYear month : Int} (hfirst : 0 ≤ dayOfYear)
    (hlast : dayOfYear ≤ 365) (hmonth : month = (5 * dayOfYear + 2) / 153)
    (hleap : dayOfYear = 365 → isLeapYear (year + 1) = true) :
    dayOfYear - (153 * month + 2) / 5 + 1 ≤
      daysInMonth (if civilMonth month ≤ 2 then year + 1 else year) (civilMonth month).toNat := by
  obtain ⟨⟨hlow, hhigh⟩, -⟩ := dayOfYear_split hfirst hlast hmonth
  obtain rfl | hbefore : month = 11 ∨ month < 11 := by omega
  · have hfebruary : daysInMonth (year + 1) 2 = if isLeapYear (year + 1) then 29 else 28 := rfl
    refine (?_ : _ ≤ ((daysInMonth (year + 1) 2 : Nat) : Int))
    rw [hfebruary]
    split
    · omega
    · next hplain =>
      have hshort : dayOfYear ≠ 365 := fun heq => hplain (hleap heq)
      omega
  · interval_cases month <;> simp only [civilMonth, daysInMonth] <;> simp <;> omega

theorem isLeapYear_add_eras (year era : Int) : isLeapYear (year + era * 400) = isLeapYear year := by
  have hfour : (year + era * 400) % 4 = year % 4 := by omega
  have hcentury : (year + era * 400) % 100 = year % 100 := by omega
  rw [isLeapYear, isLeapYear, hfour, hcentury, Int.add_mul_emod_self_right]

/-- The days up to a date, told by the year and the month of it in years that
start in March. -/
theorem toDays_eq {year month era yearOfEra : Int} {civil day : Nat}
    (hmonth : civilMonth month = civil) (hrange : 0 ≤ month ∧ month ≤ 11)
    (hyear : year = yearOfEra + era * 400) (hyearOfEra : 0 ≤ yearOfEra ∧ yearOfEra < 400) :
    toDays ⟨if civil ≤ 2 then year + 1 else year, civil, day⟩ =
      era * 146097 + (daysBefore yearOfEra + ((153 * month + 2) / 5 + day - 1)) - epochShift := by
  have hera : year / 400 = era ∧ year % 400 = yearOfEra := by omega
  unfold civilMonth at hmonth
  by_cases hnew : civil ≤ 2
  · have hmarch : (civil : Int) + 9 = month := by split at hmonth <;> omega
    simp only [toDays, hnew, if_true, Int.add_sub_cancel, hmarch, hera, daysBefore]
    omega
  · have hmarch : (civil : Int) - 3 = month := by split at hmonth <;> omega
    simp only [toDays, hnew, if_false, hmarch, hera, daysBefore]
    omega

theorem daysInMonth_le (year : Int) (month : Nat) : daysInMonth year month ≤ 31 := by
  unfold daysInMonth
  split
  · split <;> omega
  · split <;> omega

/-- Every day has a date that exists, and it is the day of that date. -/
theorem toDays_ofDays (days : Int) :
    (ofDays days).toDays = days ∧ (1 ≤ (ofDays days).month ∧ (ofDays days).month ≤ 12) ∧
      1 ≤ (ofDays days).day ∧
      (ofDays days).day ≤ daysInMonth (ofDays days).year (ofDays days).month := by
  obtain ⟨era, hera⟩ : ∃ era, era = (days + epochShift) / 146097 := ⟨_, rfl⟩
  obtain ⟨dayOfEra, hdayOfEra⟩ : ∃ dayOfEra, dayOfEra = (days + epochShift) % 146097 := ⟨_, rfl⟩
  obtain ⟨yearOfEra, hyear⟩ : ∃ yearOfEra, yearOfEra =
    (dayOfEra - dayOfEra / 1460 + dayOfEra / 36524 - dayOfEra / 146096) / 365 := ⟨_, rfl⟩
  obtain ⟨dayOfYear, hday⟩ : ∃ dayOfYear, dayOfYear = dayOfEra - daysBefore yearOfEra := ⟨_, rfl⟩
  obtain ⟨month, hmonth⟩ : ∃ month, month = (5 * dayOfYear + 2) / 153 := ⟨_, rfl⟩
  obtain ⟨hyears, ⟨hfirst, hlast⟩, hleap⟩ :=
    dayOfEra_split dayOfEra (by omega) (by omega) hyear
  rw [← hday] at hfirst hlast hleap
  obtain ⟨hmonths, hdayOfMonth⟩ := dayOfYear_split hfirst hlast hmonth
  obtain ⟨civil, hcivil⟩ : ∃ civil : Nat, civilMonth month = civil :=
    Int.eq_ofNat_of_zero_le (by unfold civilMonth; split <;> omega)
  obtain ⟨place, hplace⟩ : ∃ place : Nat, dayOfYear - (153 * month + 2) / 5 + 1 = place :=
    Int.eq_ofNat_of_zero_le (by omega)
  have hrange : 1 ≤ civil ∧ civil ≤ 12 := by
    unfold civilMonth at hcivil
    split at hcivil <;> omega
  have htwo : (civil : Int) ≤ 2 ↔ civil ≤ 2 := Int.ofNat_le
  have hdate : ofDays days =
      ⟨if civil ≤ 2 then yearOfEra + era * 400 + 1 else yearOfEra + era * 400, civil, place⟩ := by
    have hof : ofDays days = ⟨if civilMonth month ≤ 2 then yearOfEra + era * 400 + 1
        else yearOfEra + era * 400, (civilMonth month).toNat,
          (dayOfYear - (153 * month + 2) / 5 + 1).toNat⟩ := by
      subst hera hdayOfEra hyear hday hmonth
      rfl
    rw [hof, hcivil, hplace, Int.toNat_natCast, Int.toNat_natCast, if_congr htwo rfl rfl]
  have hlength := day_le_daysInMonth (yearOfEra + era * 400) hfirst hlast hmonth
    fun heq => by
      rw [add_right_comm, isLeapYear_add_eras]
      exact hleap heq
  rw [hcivil, hplace, Int.toNat_natCast, if_congr htwo rfl rfl, Int.ofNat_le] at hlength
  have hplaced : 1 ≤ place := by omega
  rw [hdate]
  refine ⟨?_, hrange, hplaced, hlength⟩
  rw [toDays_eq hcivil hmonths rfl hyears]
  omega

end ConfigNotation.CivilDate
