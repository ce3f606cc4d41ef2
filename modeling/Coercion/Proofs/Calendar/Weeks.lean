import Coercion.Proofs.Calendar.Fields
import Mathlib.Order.Bounds.Basic

namespace Coercion

open Calendar

namespace Calendar

/-- Whether a day is a Monday. -/
def IsMonday (number : Int) : Prop :=
  (Civil.ofMillis (number * millisPerDay)).weekday = 1

theorem isMonday_iff (number : Int) : IsMonday number ↔ (number + 4) % 7 = 1 := by
  rw [IsMonday, Civil.weekday_ofMillis, Int.mul_ediv_cancel _ (by decide)]
  omega

def mondayOf (number : Int) : Int :=
  number - (number + 3) % 7

theorem isGreatest_monday (n : Int) :
    IsGreatest {m | (m + 4) % 7 = 1 ∧ m ≤ n} (n - (n + 3) % 7) := by
  constructor
  · exact ⟨by omega, by omega⟩
  · rintro m ⟨hm, hle⟩
    omega

theorem isGreatest_mondayOf (number : Int) :
    IsGreatest {m | IsMonday m ∧ m ≤ number} (mondayOf number) := by
  simp only [isMonday_iff]
  exact isGreatest_monday number

theorem mondayOf_eq {number monday : Int}
    (h : IsGreatest {m | IsMonday m ∧ m ≤ number} monday) : mondayOf number = monday :=
  (isGreatest_mondayOf number).unique h

def thursdayOf (number : Int) : Int :=
  number - (number + 3) % 7 + 3

theorem thursdayOf_eq (number : Int) : thursdayOf number = mondayOf number + 3 := rfl

def weekYear (number : Int) : Int :=
  (dateOfDay (thursdayOf number)).year

/-- The number of the week of a day in its year, from the week with the fourth of January on. -/
def isoWeek (number : Int) : Int :=
  1 + (mondayOf number - mondayOf (dayNumber (weekYear number) 1 4)) / 7

theorem dayNumber_fourth (year : Int) : dayNumber year 1 4 = yearStart year + 3 := by
  rw [← carriedDay_eq (by decide) (by decide), carriedDay_eq_monthStart, yearStart, sub_self,
    add_zero]
  omega

section

variable (number : Int)

theorem weekYear_bounds : yearStart (weekYear number) ≤ thursdayOf number ∧
    thursdayOf number < yearStart (weekYear number + 1) := by
  have hbounds := (dateOfDay_isValid (thursdayOf number)).yearStart_le
  rwa [number_dateOfDay] at hbounds

theorem mondayOf_isoWeek : mondayOf number =
    mondayOf (dayNumber (weekYear number) 1 4) + 7 * (isoWeek number - 1) := by
  unfold isoWeek mondayOf
  omega

theorem isoWeek_eq : isoWeek number =
    (thursdayOf number - yearStart (weekYear number) + 7) / 7 := by
  rw [isoWeek, dayNumber_fourth, thursdayOf_eq]
  unfold mondayOf
  omega

theorem isoWeek_bounds : 1 ≤ isoWeek number ∧ isoWeek number ≤ 53 := by
  have hthursday := weekYear_bounds number
  have hyear := yearStart_bounds (weekYear number)
  rw [isoWeek_eq]
  omega

/-- The week after a week is the next one of its year, or the first of the year that follows. -/
theorem isoWeek_next : isoWeek (number + 7) = isoWeek number + 1 ∨ isoWeek (number + 7) = 1 := by
  have hthursday := weekYear_bounds number
  have hnext : thursdayOf (number + 7) = thursdayOf number + 7 := by
    unfold thursdayOf
    omega
  have hyear (y : Int) : y ≤ weekYear (number + 7) ↔ yearStart y ≤ thursdayOf (number + 7) :=
    le_year_iff y _
  have hsame := hyear (weekYear number)
  have hlater := hyear (weekYear number + 1)
  have hlast := hyear (weekYear number + 1 + 1)
  have hlength := yearStart_bounds (weekYear number + 1)
  rw [isoWeek_eq, isoWeek_eq number, hnext]
  rw [hnext] at hsame hlater hlast
  obtain hyear | hyear : weekYear (number + 7) = weekYear number ∨
      weekYear (number + 7) = weekYear number + 1 := by omega
  · rw [hyear]
    omega
  · rw [hyear]
    omega

end

theorem isoWeek_congr {m n : Int} (h : mondayOf m = mondayOf n) : isoWeek m = isoWeek n := by
  rw [isoWeek, isoWeek, weekYear, weekYear, thursdayOf_eq, thursdayOf_eq, h]

end Calendar

namespace Civil

theorem thursday_ofMillis (millis : Int) :
    (ofMillis millis).thursday = thursdayOf (millis / millisPerDay) * millisPerDay := by
  have hday := carriedDay_ofMillis millis
  rw [thursday]
  rw [carriedDay_eq_monthStart] at hday ⊢
  rw [isoWeekday_ofMillis, thursdayOf]
  congr 1
  omega

theorem weekIso_ofMillis (millis : Int) :
    ((ofMillis millis).weekIso : Int) = isoWeek (millis / millisPerDay) := by
  have hday : thursdayOf (millis / millisPerDay) * millisPerDay / millisPerDay =
      thursdayOf (millis / millisPerDay) := Int.mul_ediv_cancel _ (by decide)
  have hordinal := ordinal_eq (thursdayOf (millis / millisPerDay) * millisPerDay)
  rw [hday] at hordinal
  rw [weekIso, thursday_ofMillis, isoWeek_eq, weekYear]
  omega

theorem weekIso?_ofMillis {millis : Int} (h : millis.natAbs < 10000000000000000) :
    (ofMillis millis).weekIso? = some (ofMillis millis).weekIso := by
  have hword : fitsWord (ofMillis millis).thursday = true := by
    rw [thursday_ofMillis, fitsWord_iff]
    unfold thursdayOf millisPerDay
    omega
  rw [weekIso?, if_pos hword]

end Civil

end Coercion
