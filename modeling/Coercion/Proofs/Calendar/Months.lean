import Coercion.Proofs.Calendar.Readings
import Mathlib.Data.Int.ConditionallyCompleteOrder

namespace Coercion.Calendar

def monthStart (index : Int) : Int := carriedDay 0 index 1

theorem carriedDay_eq_monthStart (year month0 day : Int) :
    carriedDay year month0 day = monthStart (12 * year + month0) + day - 1 := by
  have hyear : 0 + (12 * year + month0) / 12 = year + month0 / 12 := by omega
  have hmonth : (12 * year + month0) % 12 = month0 % 12 := by omega
  rw [monthStart, carriedDay, carriedDay, hyear, hmonth]
  omega

theorem monthStart_eq (index : Int) :
    monthStart index = dayNumber (index / 12) (index % 12 + 1) 1 := by
  rw [monthStart, carriedDay]
  simp

theorem monthStart_succ (index : Int) : monthStart (index + 1) =
    monthStart index + daysInMonth (index / 12) (index % 12 + 1).toNat := by
  obtain ⟨month, hmonth⟩ : ∃ month : Nat, index % 12 + 1 = month :=
    ⟨(index % 12 + 1).toNat, by omega⟩
  have hlen := (daysInMonth_bounds (index / 12) month).1
  rw [hmonth, Int.toNat_natCast]
  obtain ⟨last, hlast⟩ :
      ∃ last : Date, last = ⟨index / 12, month, daysInMonth (index / 12) month⟩ := ⟨_, rfl⟩
  have hvalid : last.IsValid := by
    rw [Date.isValid_iff, hlast]
    dsimp only
    omega
  have hnumber : last.number =
      monthStart index + daysInMonth (index / 12) month - 1 := by
    rw [monthStart_eq, hmonth, Date.number, hlast, dayNumber_eq, dayNumber_eq]
    dsimp only
    omega
  have hnext : last.next.number = monthStart (index + 1) := by
    unfold Date.next Date.number
    rw [monthStart_eq, hlast, if_neg (lt_irrefl _)]
    dsimp only
    split_ifs with hdecember
    · have hyear : (index + 1) / 12 = index / 12 := by omega
      have hmonth' : (index + 1) % 12 + 1 = (month + 1 : Nat) := by omega
      rw [hyear, hmonth']
      rfl
    · have hyear : (index + 1) / 12 = index / 12 + 1 := by omega
      have hmonth' : (index + 1) % 12 + 1 = (1 : Nat) := by omega
      rw [hyear, hmonth']
      rfl
  have hstep := Date.next_number hvalid
  omega

theorem monthStart_strictMono : StrictMono monthStart := by
  apply strictMono_int_of_lt_succ
  intro index
  have := (daysInMonth_bounds (index / 12) (index % 12 + 1).toNat).1
  rw [monthStart_succ]
  omega

namespace Date

def monthIndex (d : Date) : Int := 12 * d.year + (d.month - 1)

theorem IsValid.number_eq {d : Date} (h : d.IsValid) :
    d.number = monthStart d.monthIndex + d.day - 1 := by
  obtain ⟨hm, hm', -, -⟩ := h.bounds
  rw [number, ← carriedDay_eq (by omega) (by omega), carriedDay_eq_monthStart, monthIndex]

theorem IsValid.number_lt {d : Date} (h : d.IsValid) :
    d.number < monthStart (d.monthIndex + 1) := by
  obtain ⟨hm, hm', -, hd⟩ := d.isValid_iff.mp h
  have hyear : d.monthIndex / 12 = d.year := by
    unfold monthIndex
    omega
  have hmonth : (d.monthIndex % 12 + 1).toNat = d.month := by
    unfold monthIndex
    omega
  rw [monthStart_succ, hyear, hmonth, h.number_eq]
  omega

/-- A day that is the first of a month or one after it lies in that month or a later one. -/
theorem IsValid.le_monthIndex_iff {d : Date} (h : d.IsValid) (index : Int) :
    index ≤ d.monthIndex ↔ monthStart index ≤ d.number := by
  have hday := h.bounds.2.2.1
  constructor
  · intro hle
    have := monthStart_strictMono.monotone hle
    rw [h.number_eq]
    omega
  · intro hle
    have := monthStart_strictMono.lt_iff_lt.mp (hle.trans_lt h.number_lt)
    omega

end Date

theorem dateOfDay_isValid (n : Int) : (dateOfDay n).IsValid := by
  obtain ⟨d, hd, rfl⟩ := Date.exists_number_eq n
  rwa [dateOfDay_number hd]

theorem number_dateOfDay (n : Int) : (dateOfDay n).number = n := by
  obtain ⟨d, hd, rfl⟩ := Date.exists_number_eq n
  rw [dateOfDay_number hd]

theorem eq_monthStart_of_day_eq_one {n : Int} (h : (dateOfDay n).day = 1) :
    n = monthStart (dateOfDay n).monthIndex := by
  have := (dateOfDay_isValid n).number_eq
  rw [number_dateOfDay, h] at this
  omega

/-- The first day of a month has the date of the first of that month. -/
theorem dateOfDay_monthStart (index : Int) :
    (dateOfDay (monthStart index)).day = 1 ∧ (dateOfDay (monthStart index)).monthIndex = index := by
  obtain ⟨n, hn⟩ : ∃ n, n = monthStart index := ⟨_, rfl⟩
  have hvalid := dateOfDay_isValid n
  have hday := hvalid.bounds.2.2.1
  have heq := hvalid.number_eq
  have hlow := (hvalid.le_monthIndex_iff index).mpr (by rw [number_dateOfDay, hn])
  rw [number_dateOfDay] at heq
  rw [← hn]
  obtain hlt | hindex := hlow.lt_or_eq
  · have := monthStart_strictMono hlt
    omega
  · rw [← hindex, ← hn] at heq
    exact ⟨by omega, hindex.symm⟩

end Coercion.Calendar
