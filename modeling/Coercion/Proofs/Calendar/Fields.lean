import Coercion.Proofs.Calendar.Readings
import Coercion.Proofs.Calendar.Years

namespace Coercion

open Calendar

namespace Calendar

/-- Numbers go in the order of their parts for a unit, the whole units first. -/
theorem lt_iff_ediv_emod {k : Int} (h : 0 < k) (m n : Int) : m < n ↔
    m / k < n / k ∨ m / k = n / k ∧ m % k < n % k := by
  have hm := Int.mul_ediv_add_emod m k
  have hn := Int.mul_ediv_add_emod n k
  constructor
  · intro hlt
    obtain hunits | hunits := (Int.ediv_le_ediv h hlt.le).lt_or_eq
    · exact .inl hunits
    · rw [hunits] at hm
      exact .inr ⟨hunits, by omega⟩
  · rintro (hunits | ⟨hunits, hrest⟩)
    · by_contra hle
      exact absurd (Int.ediv_le_ediv h (not_lt.mp hle)) (not_le.mpr hunits)
    · rw [hunits] at hm
      omega

namespace Date.IsValid

variable {d e : Date} (hd : d.IsValid) (he : e.IsValid)

include hd he

theorem number_lt_of_monthIndex_lt (h : d.monthIndex < e.monthIndex) : d.number < e.number := by
  have hlast := hd.number_lt
  have hfirst := (he.le_monthIndex_iff (d.monthIndex + 1)).mp h
  omega

theorem number_lt_iff : d.number < e.number ↔ d.year < e.year ∨
    d.year = e.year ∧ (d.month < e.month ∨ d.month = e.month ∧ d.day < e.day) := by
  obtain ⟨hm, hm', -, -⟩ := hd.bounds
  obtain ⟨hn, hn', -, -⟩ := he.bounds
  have hindex : d.monthIndex = 12 * d.year + (d.month - 1) := rfl
  have hindex' : e.monthIndex = 12 * e.year + (e.month - 1) := rfl
  obtain hlt | heq | hgt := lt_trichotomy d.monthIndex e.monthIndex
  · exact iff_of_true (number_lt_of_monthIndex_lt hd he hlt) (by omega)
  · rw [hd.number_eq, he.number_eq, heq]
    omega
  · have := number_lt_of_monthIndex_lt he hd hgt
    exact iff_of_false (by omega) (by omega)

end Date.IsValid

end Calendar

namespace Civil

section

variable (millis : Int)

theorem millisecond_ofMillis_lt : (ofMillis millis).millisecond < 1000 := by
  change (millis % millisPerDay % millisPerSecond).toNat < 1000
  unfold millisPerDay millisPerSecond
  omega

theorem toMillis_ofMillis : (ofMillis millis).toMillis = millis := by
  rw [toMillis, carriedMillis_ofMillis]
  change millis / millisPerSecond * millisPerSecond +
    ((millis % millisPerDay % millisPerSecond).toNat : Int) = millis
  unfold millisPerSecond millisPerDay
  omega

theorem weekday_ofMillis : (ofMillis millis).weekday = ((millis / millisPerDay + 4) % 7).toNat :=
  rfl

theorem weekday_next :
    (ofMillis (millis / millisPerDay * millisPerDay)).weekday = (ofMillis millis).weekday ∧
      (ofMillis (millis + millisPerDay)).weekday = ((ofMillis millis).weekday + 1) % 7 := by
  simp only [weekday_ofMillis]
  unfold millisPerDay
  omega

theorem ordinal_eq : ((ofMillis millis).ordinal : Int) =
    millis / millisPerDay - yearStart (dateOfDay (millis / millisPerDay)).year + 1 := by
  have hfirst := (dateOfDay_isValid (millis / millisPerDay)).yearStart_le.1
  rw [number_dateOfDay] at hfirst
  change ((millis / millisPerDay - carriedDay (dateOfDay (millis / millisPerDay)).year 0 1 +
    1).toNat : Int) = _
  rw [carriedDay_first]
  omega

theorem ordinal_eq_sum : (ofMillis millis).ordinal =
    ∑ month ∈ Finset.Ico 1 (ofMillis millis).month, daysInMonth (ofMillis millis).year month +
      (ofMillis millis).day := by
  have hnumber := (ofMillis_isValid millis).number_eq_sum
  have hordinal := ordinal_eq millis
  rw [ofMillis_date, number_dateOfDay] at hnumber
  change _ = yearStart (ofMillis millis).year + (∑ month ∈ Finset.Ico 1 (ofMillis millis).month,
    daysInMonth (ofMillis millis).year month : Nat) + ((ofMillis millis).day : Int) - 1 at hnumber
  change _ = _ - yearStart (ofMillis millis).year + 1 at hordinal
  omega

theorem ordinal_ofMillis_bounds : 1 ≤ (ofMillis millis).ordinal ∧
    (ofMillis millis).ordinal ≤ if isLeapYear (ofMillis millis).year then 366 else 365 := by
  obtain ⟨hfirst, hlast⟩ := (dateOfDay_isValid (millis / millisPerDay)).yearStart_le
  have hordinal := ordinal_eq millis
  change _ ∧ _ ≤ if isLeapYear (dateOfDay (millis / millisPerDay)).year then 366 else 365
  rw [yearStart_succ, leapDay] at hlast
  rw [number_dateOfDay] at hfirst hlast
  split_ifs at hlast ⊢ <;> omega

end

/-- The fields that tell a reading, the largest first. -/
def parts (c : Civil) : List Int :=
  [c.year, c.month, c.day, c.hour, c.minute, c.second, c.millisecond]

theorem date_lt_iff (m n : Int) :
    m / millisPerDay < n / millisPerDay ↔ (ofMillis m).year < (ofMillis n).year ∨
      (ofMillis m).year = (ofMillis n).year ∧ ((ofMillis m).month < (ofMillis n).month ∨
        (ofMillis m).month = (ofMillis n).month ∧ (ofMillis m).day < (ofMillis n).day) := by
  have hlt := (ofMillis_isValid m).number_lt_iff (ofMillis_isValid n)
  rwa [ofMillis_date, ofMillis_date, number_dateOfDay, number_dateOfDay] at hlt

theorem time_ofMillis (millis : Int) :
    ((ofMillis millis).hour : Int) = millis % millisPerDay / millisPerHour ∧
      ((ofMillis millis).minute : Int) = millis % millisPerDay % millisPerHour / millisPerMinute ∧
      ((ofMillis millis).second : Int) =
        millis % millisPerDay % millisPerHour % millisPerMinute / millisPerSecond ∧
      ((ofMillis millis).millisecond : Int) =
        millis % millisPerDay % millisPerHour % millisPerMinute % millisPerSecond := by
  unfold ofMillis millisPerDay millisPerHour millisPerMinute millisPerSecond
  dsimp only
  omega

theorem parts_lt_iff (m n : Int) : (ofMillis m).parts < (ofMillis n).parts ↔ m < n := by
  have hdate := date_lt_iff m n
  have hdate' := date_lt_iff n m
  obtain ⟨hhour, hminute, hsecond, hmillisecond⟩ := time_ofMillis m
  obtain ⟨hhour', hminute', hsecond', hmillisecond'⟩ := time_ofMillis n
  rw [lt_iff_ediv_emod (k := millisPerDay) (by decide),
    lt_iff_ediv_emod (k := millisPerHour) (by decide) (m % _),
    lt_iff_ediv_emod (k := millisPerMinute) (by decide) (m % _ % _),
    lt_iff_ediv_emod (k := millisPerSecond) (by decide) (m % _ % _ % _),
    ← hhour, ← hminute, ← hsecond, ← hmillisecond, ← hhour', ← hminute', ← hsecond',
    ← hmillisecond']
  simp only [parts, List.cons_lt_cons_iff, List.not_lt_nil, and_false, or_false]
  generalize m / millisPerDay = i at *
  generalize n / millisPerDay = j at *
  omega

/-- The fields of a reading are in range. The first day is a Thursday, and weekdays go on from day
to day. The ordinal counts the days of the earlier months. The fields have the milliseconds of the
reading, and their order is that of readings. -/
theorem fields_are_milliseconds (millis : Int) :
    let c := ofMillis millis
    (1 ≤ c.month ∧ c.month ≤ 12 ∧ 1 ≤ c.day ∧ c.day ≤ daysInMonth c.year c.month) ∧
    (c.hour < 24 ∧ c.minute < 60 ∧ c.second < 60 ∧ c.millisecond < 1000) ∧
    ((ofMillis 0).weekday = 4 ∧
      (ofMillis (millis / millisPerDay * millisPerDay)).weekday = c.weekday ∧
      (ofMillis (millis + millisPerDay)).weekday = (c.weekday + 1) % 7) ∧
    (c.ordinal = ∑ month ∈ Finset.Ico 1 c.month, daysInMonth c.year month + c.day ∧
      1 ≤ c.ordinal ∧ c.ordinal ≤ if isLeapYear c.year then 366 else 365) ∧
    c.toMillis = millis ∧
    ∀ other, c.parts < (ofMillis other).parts ↔ millis < other := by
  intro c
  have hdate := (Date.isValid_iff _).mp (ofMillis_isValid millis)
  obtain ⟨hhour, hminute, hsecond⟩ := ofMillis_time millis
  exact ⟨hdate, ⟨hhour, hminute, hsecond, millisecond_ofMillis_lt millis⟩,
    ⟨by decide, weekday_next millis⟩,
    ⟨ordinal_eq_sum millis, ordinal_ofMillis_bounds millis⟩,
    toMillis_ofMillis millis, parts_lt_iff millis⟩

end Civil

end Coercion
