import Coercion.Proofs.Calendar.Months
import Mathlib.Algebra.BigOperators.Intervals

namespace Coercion.Calendar

theorem monthStart_add (index : Int) (count : Nat) :
    monthStart index + 28 * count ≤ monthStart (index + count) := by
  induction count with
  | zero => simp
  | succ count ih =>
    have := (daysInMonth_bounds ((index + count) / 12) ((index + count) % 12 + 1).toNat).1
    rw [Nat.cast_succ, ← add_assoc, monthStart_succ]
    omega

def yearStart (year : Int) : Int := monthStart (12 * year)

theorem carriedDay_first (year : Int) : carriedDay year 0 1 = yearStart year := by
  rw [carriedDay_eq_monthStart, yearStart, add_zero, add_sub_cancel_right]

theorem le_year_iff (year n : Int) : year ≤ (dateOfDay n).year ↔ yearStart year ≤ n := by
  have hvalid := dateOfDay_isValid n
  have hle := hvalid.le_monthIndex_iff (12 * year)
  obtain ⟨hm, hm', -, -⟩ := hvalid.bounds
  rw [number_dateOfDay] at hle
  rw [yearStart, ← hle, Date.monthIndex]
  omega

/-- A month starts after the days of the months before it. -/
theorem monthStart_eq_sum (year : Int) {count : Nat} (h : count ≤ 12) :
    monthStart (12 * year + count) =
      yearStart year + (∑ month ∈ Finset.Ico 1 (count + 1), daysInMonth year month : Nat) := by
  induction count with
  | zero => simp [yearStart]
  | succ count ih =>
    have hyear : (12 * year + count) / 12 = year := by omega
    have hmonth : ((12 * year + (count : Int)) % 12 + 1).toNat = count + 1 := by omega
    rw [Nat.cast_succ, ← add_assoc, monthStart_succ, hyear, hmonth, ih (by omega),
      Finset.sum_Ico_succ_top (b := count + 1) (by omega), Nat.cast_add, add_assoc]

theorem sum_daysInMonth (year : Int) :
    (∑ month ∈ Finset.Ico 1 13, daysInMonth year month : Nat) = 365 + leapDay year := by
  unfold leapDay
  simp only [Finset.sum_Ico_succ_top, Nat.reduceLeDiff, Finset.Ico_self, Finset.sum_empty,
    daysInMonth]
  split_ifs <;> rfl

theorem yearStart_succ (year : Int) :
    yearStart (year + 1) = yearStart year + 365 + leapDay year := by
  rw [add_assoc, ← sum_daysInMonth, ← monthStart_eq_sum year (le_refl 12), yearStart, mul_add]
  rfl

theorem yearStart_bounds (year : Int) :
    yearStart year + 365 ≤ yearStart (year + 1) ∧ yearStart (year + 1) ≤ yearStart year + 366 := by
  have := leapDay_cases year
  rw [yearStart_succ]
  omega

namespace Date.IsValid

variable {d : Date} (h : d.IsValid)

include h

/-- The day of a date is one of the days of its year. -/
theorem yearStart_le : yearStart d.year ≤ d.number ∧ d.number < yearStart (d.year + 1) := by
  have hyear (y : Int) := le_year_iff y d.number
  rw [dateOfDay_number h] at hyear
  have := hyear d.year
  have := hyear (d.year + 1)
  omega

theorem number_eq_sum : d.number = yearStart d.year +
    (∑ month ∈ Finset.Ico 1 d.month, daysInMonth d.year month : Nat) + d.day - 1 := by
  obtain ⟨hm, hm', -, -⟩ := h.bounds
  obtain ⟨month, hmonth⟩ : ∃ month, d.month = month + 1 := ⟨d.month - 1, by omega⟩
  have hindex : d.monthIndex = 12 * d.year + month := by
    rw [Date.monthIndex, hmonth]
    omega
  rw [h.number_eq, hindex, hmonth, monthStart_eq_sum _ (by omega)]

end Date.IsValid

end Coercion.Calendar
