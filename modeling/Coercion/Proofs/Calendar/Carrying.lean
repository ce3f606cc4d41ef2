import Coercion.Proofs.Calendar.Months

namespace Coercion.Calendar

theorem carriedDay_add_months (year month0 day k : ℤ) :
    carriedDay year (month0 + 12 * k) day = carriedDay (year + k) month0 day := by
  have hindex : 12 * year + (month0 + 12 * k) = 12 * (year + k) + month0 := by omega
  rw [carriedDay_eq_monthStart, carriedDay_eq_monthStart, hindex]

theorem carriedDay_add_days (year month0 day k : ℤ) :
    carriedDay year month0 (day + k) = carriedDay year month0 day + k := by
  rw [carriedDay_eq_monthStart, carriedDay_eq_monthStart]
  omega

theorem carriedDay_next_month (year month0 : ℤ) :
    carriedDay year (month0 + 1) 1 - carriedDay year month0 1 =
      daysInMonth (year + month0 / 12) (month0 % 12 + 1).toNat := by
  have hyear : (12 * year + month0) / 12 = year + month0 / 12 := by omega
  have hmonth : (12 * year + month0) % 12 = month0 % 12 := by omega
  have hnext := monthStart_succ (12 * year + month0)
  rw [hyear, hmonth] at hnext
  rw [carriedDay_eq_monthStart, carriedDay_eq_monthStart, ← add_assoc, hnext]
  omega

/-- Twelve months carry over into a year and days into the months, a month has as many days as the
calendar says, and fields in their ranges are those of the date. -/
theorem carriedDay_carries (year month0 day : ℤ) :
    (∀ k, carriedDay year (month0 + 12 * k) day = carriedDay (year + k) month0 day) ∧
    (∀ k, carriedDay year month0 (day + k) = carriedDay year month0 day + k) ∧
    carriedDay year (month0 + 1) 1 - carriedDay year month0 1 =
      daysInMonth (year + month0 / 12) (month0 % 12 + 1).toNat ∧
    ∀ month, 1 ≤ month → month ≤ 12 →
      carriedDay year (month - 1) day = dayNumber year month day :=
  ⟨carriedDay_add_months year month0 day, carriedDay_add_days year month0 day,
    carriedDay_next_month year month0, fun _ hm hm' => carriedDay_eq hm hm' year day⟩

theorem carriedDay_carries_leapDay : (1 : ℤ) ≤ 2 ∧ (2 : ℤ) ≤ 12 ∧
    carriedDay (-4) (2 - 1) 29 = dayNumber (-4) 2 29 ∧
    carriedDay (-3) (-11 + 1) 1 - carriedDay (-3) (-11) 1 = 29 := by
  obtain ⟨-, -, hlength, -⟩ := carriedDay_carries (-3) (-11) 1
  obtain ⟨-, -, -, hfields⟩ := carriedDay_carries (-4) 0 29
  exact ⟨by decide, by decide, hfields 2 (by decide) (by decide), hlength.trans (by decide)⟩

end Coercion.Calendar
