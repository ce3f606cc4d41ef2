import Coercion.Calendar.Civil
import Coercion.Proofs.Calendar.Days

namespace Coercion

open Calendar

namespace Calendar

theorem carriedDay_eq {month : Int} (h : 1 ≤ month) (h' : month ≤ 12) (year day : Int) :
    carriedDay year (month - 1) day = dayNumber year month day := by
  have hmonth : (month - 1) % 12 + 1 = month := by omega
  have hyear : year + (month - 1) / 12 = year := by omega
  rw [carriedDay, hmonth, hyear, dayNumber_eq, dayNumber_eq]
  omega

theorem fitsWord_of_inRange {millis : Int} (h : inRange millis = true) :
    fitsWord millis = true := by
  simp only [inRange, Bool.and_eq_true, decide_eq_true_eq] at h
  unfold maxInstant millisPerDay at h
  exact fitsWord_iff.mpr (by omega)

theorem inRange_floor {millis : Int} (h : inRange millis = true) :
    inRange (millis / millisPerSecond * millisPerSecond) = true := by
  simp only [inRange, Bool.and_eq_true, decide_eq_true_eq] at h ⊢
  unfold maxInstant millisPerDay millisPerSecond at *
  omega

theorem floor_ediv_day (millis : Int) :
    millis / millisPerSecond * millisPerSecond / millisPerDay = millis / millisPerDay := by
  unfold millisPerSecond millisPerDay
  omega

end Calendar

namespace Civil

theorem ofMillis_date (millis : Int) :
    (⟨(ofMillis millis).year, (ofMillis millis).month, (ofMillis millis).day⟩ : Date) =
      dateOfDay (millis / millisPerDay) := rfl

theorem ofMillis_isValid (millis : Int) :
    (⟨(ofMillis millis).year, (ofMillis millis).month, (ofMillis millis).day⟩ : Date).IsValid := by
  obtain ⟨d, hd, hn⟩ := Date.exists_number_eq (millis / millisPerDay)
  rw [ofMillis_date, ← hn, dateOfDay_number hd]
  exact hd

theorem ofMillis_bounds (millis : Int) : 1 ≤ (ofMillis millis).month ∧
    (ofMillis millis).month ≤ 12 ∧ 1 ≤ (ofMillis millis).day ∧ (ofMillis millis).day ≤ 31 :=
  (ofMillis_isValid millis).bounds

theorem ofMillis_time (millis : Int) : (ofMillis millis).hour < 24 ∧
    (ofMillis millis).minute < 60 ∧ (ofMillis millis).second < 60 := by
  unfold ofMillis millisPerDay millisPerHour millisPerMinute millisPerSecond
  dsimp only
  omega

theorem weekday_ofMillis_lt (millis : Int) : (ofMillis millis).weekday < 7 := by
  change ((millis / millisPerDay + 4) % 7).toNat < 7
  omega

/-- The weekday of the first day is a Thursday, the fourth of its week. -/
theorem isoWeekday_ofMillis (millis : Int) :
    ((ofMillis millis).isoWeekday : Int) = (millis / millisPerDay + 3) % 7 + 1 := by
  change ((if ((millis / millisPerDay + 4) % 7).toNat = 0 then 7
    else ((millis / millisPerDay + 4) % 7).toNat : Nat) : Int) = _
  split_ifs <;> omega

theorem carriedDay_ofMillis (millis : Int) :
    carriedDay (ofMillis millis).year ((ofMillis millis).month - 1) (ofMillis millis).day =
      millis / millisPerDay := by
  obtain ⟨d, hd, hn⟩ := Date.exists_number_eq (millis / millisPerDay)
  have hdate :
      (⟨(ofMillis millis).year, (ofMillis millis).month, (ofMillis millis).day⟩ : Date) = d := by
    rw [ofMillis_date, ← hn, dateOfDay_number hd]
  obtain ⟨hm, hm', -, -⟩ := ofMillis_bounds millis
  rw [carriedDay_eq (by omega) (by omega), ← hn, ← hdate]
  rfl

theorem midnight_ofMillis (wall : Int) :
    (ofMillis wall).midnight = wall / millisPerDay * millisPerDay := by
  rw [midnight, carriedMillis, carriedDay_ofMillis]
  simp

theorem midnight?_ofMillis {wall : Int} (h : wall.natAbs < 10000000000000000) :
    (ofMillis wall).midnight? = some (wall / millisPerDay * millisPerDay) := by
  rw [midnight?, midnight_ofMillis, word?_eq_some_iff, fitsWord_iff]
  unfold millisPerDay
  omega

/-- The date and time of a reading are the reading without its fraction of a second. -/
theorem carriedMillis_ofMillis (millis : Int) :
    carriedMillis (ofMillis millis).year ((ofMillis millis).month - 1) (ofMillis millis).day
      (ofMillis millis).hour (ofMillis millis).minute (ofMillis millis).second =
        millis / millisPerSecond * millisPerSecond := by
  rw [carriedMillis, carriedDay_ofMillis]
  unfold ofMillis millisPerDay millisPerHour millisPerMinute millisPerSecond
  dsimp only
  omega

theorem exists_number_eq (millis : Int) : ∃ d : Date, d.IsValid ∧
    d.number = millis / millisPerDay ∧ (ofMillis millis).year = d.year := by
  obtain ⟨d, hd, hn⟩ := Date.exists_number_eq (millis / millisPerDay)
  refine ⟨d, hd, hn, ?_⟩
  rw [show (ofMillis millis).year = (dateOfDay (millis / millisPerDay)).year from rfl, ← hn,
    dateOfDay_number hd]

/-- Years of readings within some three hundred thousand years have at most six digits. -/
theorem natAbs_year_lt_of_natAbs_lt {millis : Int} (h : millis.natAbs < 10000000000000000) :
    (ofMillis millis).year.natAbs < 1000000 := by
  obtain ⟨d, hd, hn, hyear⟩ := exists_number_eq millis
  obtain ⟨hm, hm', hpos, hday⟩ := hd.bounds
  rw [hyear]
  unfold millisPerDay at hn
  rw [Date.number, dayNumber_eq] at hn
  unfold daysBefore marchYear at hn
  split_ifs at hn <;> omega

theorem inRange_of_fourDigits {millis : Int}
    (h : 0 ≤ (ofMillis millis).year ∧ (ofMillis millis).year ≤ 9999) :
    inRange millis = true := by
  obtain ⟨d, hd, hn, hyear⟩ := exists_number_eq millis
  obtain ⟨hm, hm', hpos, hday⟩ := hd.bounds
  rw [hyear] at h
  simp only [inRange, Bool.and_eq_true, decide_eq_true_eq]
  unfold maxInstant millisPerDay at *
  rw [Date.number, dayNumber_eq] at hn
  unfold daysBefore marchYear at hn
  split_ifs at hn <;> omega

theorem natAbs_year_lt {millis : Int} (h : inRange millis = true) :
    (ofMillis millis).year.natAbs < 1000000 := by
  apply natAbs_year_lt_of_natAbs_lt
  simp only [inRange, Bool.and_eq_true, decide_eq_true_eq] at h
  unfold maxInstant millisPerDay at h
  omega

end Civil

end Coercion
