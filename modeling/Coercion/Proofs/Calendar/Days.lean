import Coercion.Calendar.Day
import Mathlib.Tactic.IntervalCases

namespace Coercion.Calendar

theorem isLeapYear_iff (year : Int) :
    isLeapYear year = true ↔ year % 4 = 0 ∧ (year % 100 ≠ 0 ∨ year % 400 = 0) := by
  simp [isLeapYear]

def leapDay (year : Int) : Int := if isLeapYear year then 1 else 0

theorem leapDay_cases (year : Int) :
    leapDay year = 1 ∧ year % 4 = 0 ∧ (year % 100 ≠ 0 ∨ year % 400 = 0) ∨
      leapDay year = 0 ∧ (year % 4 ≠ 0 ∨ year % 100 = 0 ∧ year % 400 ≠ 0) := by
  have h := isLeapYear_iff year
  unfold leapDay
  split_ifs with hl
  · exact .inl ⟨rfl, h.mp hl⟩
  · refine .inr ⟨rfl, ?_⟩
    have := mt h.mpr hl
    omega

theorem daysInMonth_bounds (year : Int) (month : Nat) :
    28 ≤ daysInMonth year month ∧ daysInMonth year month ≤ 31 := by
  unfold daysInMonth
  split <;> (try split_ifs) <;> decide

theorem daysInMonth_eq (year : Int) {month : Nat} (h : 1 ≤ month) (h' : month ≤ 12) :
    (daysInMonth year month : Int) =
      if month = 2 then 28 + leapDay year
      else (153 * ((month + 9) % 12 + 1) + 2) / 5 - (153 * ((month + 9) % 12) + 2) / 5 := by
  unfold leapDay
  interval_cases month <;> simp [daysInMonth]
  split_ifs <;> rfl

def daysBefore (year : Int) : Int :=
  365 * year + year / 4 - year / 100 + year / 400

theorem daysBefore_succ (year : Int) :
    daysBefore year = daysBefore (year - 1) + 365 + leapDay year := by
  have := leapDay_cases year
  unfold daysBefore
  omega

def marchYear (year month : Int) : Int := if month ≤ 2 then year - 1 else year

theorem dayNumber_eq (year month day : Int) :
    dayNumber year month day = daysBefore (marchYear year month) +
      (153 * ((month + 9) % 12) + 2) / 5 + day - 719469 := by
  unfold dayNumber daysBefore
  change _ = 365 * (if month ≤ 2 then year - 1 else year) + _ / 4 - _ / 100 + _ / 400 + _ + _ - _
  dsimp only [marchYear]
  generalize (if month ≤ 2 then year - 1 else year) = y
  omega

namespace Date

def IsValid (d : Date) : Prop := isValidDate d.day d.month d.year = true

instance (d : Date) : Decidable d.IsValid := inferInstanceAs (Decidable (_ = true))

theorem isValid_iff (d : Date) :
    d.IsValid ↔ 1 ≤ d.month ∧ d.month ≤ 12 ∧ 1 ≤ d.day ∧ d.day ≤ daysInMonth d.year d.month := by
  simp [IsValid, isValidDate, and_assoc]

theorem IsValid.bounds {d : Date} (h : d.IsValid) :
    1 ≤ d.month ∧ d.month ≤ 12 ∧ 1 ≤ d.day ∧ d.day ≤ 31 := by
  obtain ⟨hm, hm', hd, hd'⟩ := d.isValid_iff.mp h
  exact ⟨hm, hm', hd, hd'.trans (daysInMonth_bounds _ _).2⟩

def number (d : Date) : Int := dayNumber d.year d.month d.day

/-- The date after a date. -/
def next (d : Date) : Date :=
  if d.day < daysInMonth d.year d.month then ⟨d.year, d.month, d.day + 1⟩
  else if d.month < 12 then ⟨d.year, d.month + 1, 1⟩
  else ⟨d.year + 1, 1, 1⟩

theorem next_isValid {d : Date} (h : d.IsValid) : d.next.IsValid := by
  obtain ⟨hm, hm', hd, hd'⟩ := d.isValid_iff.mp h
  unfold next
  split_ifs with h1 h2 <;> rw [isValid_iff] <;> dsimp only
  · exact ⟨hm, hm', Nat.le_add_left .., h1⟩
  · exact ⟨Nat.le_add_left .., h2, le_rfl, le_trans (by decide) (daysInMonth_bounds _ _).1⟩
  · exact ⟨le_rfl, by decide, le_rfl, le_trans (by decide) (daysInMonth_bounds _ _).1⟩

/-- The last of a month is followed by the first of the next one. The leap day comes in where
February ends, since there a year that starts in March ends. -/
theorem next_number {d : Date} (h : d.IsValid) : d.next.number = d.number + 1 := by
  obtain ⟨hm, hm', hd, hd'⟩ := d.isValid_iff.mp h
  unfold next
  split_ifs with h1 h2
  · simp only [number, dayNumber_eq]
    omega
  · have hlast : (d.day : Int) = daysInMonth d.year d.month := by omega
    rw [daysInMonth_eq d.year hm hm'] at hlast
    simp only [number, dayNumber_eq, marchYear, hlast]
    obtain ⟨year, month, day⟩ := d
    have := daysBefore_succ year
    dsimp only at *
    by_cases hfeb : month = 2
    · subst hfeb
      simp
      omega
    · rw [if_neg hfeb]
      split_ifs <;> omega
  · obtain ⟨year, month, day⟩ := d
    dsimp only at *
    obtain rfl : month = 12 := by omega
    have hlast : day = 31 := by simp [daysInMonth] at hd' h1; omega
    simp [number, dayNumber_eq, marchYear, hlast]
    omega

theorem exists_number_eq (n : Int) : ∃ d : Date, d.IsValid ∧ d.number = n := by
  have hcount (year : Int) (k : Nat) :
      ∃ d : Date, d.IsValid ∧ d.number = dayNumber year 1 1 + k := by
    induction k with
    | zero => exact ⟨⟨year, 1, 1⟩, by simp [isValid_iff, daysInMonth], by simp [number]⟩
    | succ k ih =>
      obtain ⟨d, hd, hk⟩ := ih
      exact ⟨d.next, next_isValid hd, by rw [next_number hd, hk]; omega⟩
  have hearly : dayNumber (400 * (n / 146097)) 1 1 ≤ n := by
    rw [dayNumber_eq]
    unfold daysBefore marchYear
    simp only [Int.reduceLE, ↓reduceIte]
    omega
  obtain ⟨d, hd, hn⟩ := hcount (400 * (n / 146097)) (n - dayNumber (400 * (n / 146097)) 1 1).toNat
  exact ⟨d, hd, by omega⟩

end Date

/-- The year of a day in an era: the days of the leap years before it are taken off, and on the
last day of the era one less than there would be in a fifth century. -/
theorem yearOfEra_eq {year day n : Int} (hy : 0 ≤ year) (hy' : year < 400) (hd : 0 ≤ day)
    (hd' : day < 365 + leapDay (year + 1))
    (hn : n = 365 * year + year / 4 - year / 100 + day) :
    (n - n / 1460 + n / 36524 - n / 146096) / 365 = year := by
  have hleap := leapDay_cases (year + 1)
  obtain ⟨c, hc⟩ : ∃ c, c = year / 100 := ⟨_, rfl⟩
  obtain ⟨q, hq⟩ : ∃ q, q = year % 100 / 4 := ⟨_, rfl⟩
  obtain ⟨r, hr⟩ : ∃ r, r = year % 4 := ⟨_, rfl⟩
  have hyear : year = 100 * c + 4 * q + r := by omega
  have hn' : n = 36524 * c + 1461 * q + 365 * r + day := by omega
  have hcentury : 1461 * q + 365 * r + day < 36524 ∨ c = 3 ∧ n = 146096 := by
    have hq' : q ≤ 24 := by omega
    have hr' : r ≤ 3 := by omega
    by_cases hlast : q = 24 ∧ r = 3
    · have : (year + 1) % 100 = 0 := by omega
      omega
    · omega
  have : n / 36524 - n / 146096 = c := by omega
  by_cases he : 24 * c + q + 365 * r + day < 1460
  · have : n / 1460 = 25 * c + q := by omega
    omega
  · have : n / 1460 = 25 * c + q + 1 := by omega
    omega

def marchDay (month day : Int) : Int := (153 * ((month + 9) % 12) + 2) / 5 + day - 1

theorem marchDay_bounds {d : Date} (h : d.IsValid) :
    0 ≤ marchDay d.month d.day ∧
      marchDay d.month d.day < 365 + leapDay (marchYear d.year d.month + 1) ∧
      (5 * marchDay d.month d.day + 2) / 153 = (d.month + 9) % 12 := by
  obtain ⟨hm, hm', hd, hd'⟩ := d.isValid_iff.mp h
  have hlen := daysInMonth_eq d.year hm hm'
  have hleap := leapDay_cases d.year
  unfold marchDay marchYear
  by_cases hfeb : d.month = 2
  · rw [if_pos hfeb] at hlen
    rw [if_pos (by omega), hfeb, Int.sub_add_cancel]
    omega
  · rw [if_neg hfeb] at hlen
    have := leapDay_cases ((if (d.month : Int) ≤ 2 then d.year - 1 else d.year) + 1)
    omega

theorem dateOfDay_number {d : Date} (h : d.IsValid) : dateOfDay d.number = d := by
  obtain ⟨hm, hm', -, -⟩ := d.isValid_iff.mp h
  obtain ⟨hpos, hlast, hmonth⟩ := marchDay_bounds h
  obtain ⟨y, hy⟩ : ∃ y, y = marchYear d.year d.month := ⟨_, rfl⟩
  obtain ⟨k, hk⟩ : ∃ k, k = marchDay d.month d.day := ⟨_, rfl⟩
  have hnumber : d.number + 719468 = 146097 * (y / 400) +
      (365 * (y % 400) + y % 400 / 4 - y % 400 / 100 + k) := by
    rw [Date.number, dayNumber_eq, hk, ← hy]
    unfold daysBefore marchDay
    omega
  have hleap : leapDay (y % 400 + 1) = leapDay (y + 1) := by
    have := leapDay_cases (y % 400 + 1)
    have := leapDay_cases (y + 1)
    omega
  rw [← hk, ← hy, ← hleap] at hlast
  rw [← hk] at hpos hmonth
  have hyear := yearOfEra_eq (by omega) (by omega) hpos hlast rfl
  have hleap' := leapDay_cases (y % 400 + 1)
  have hera : (d.number + 719468) / 146097 = y / 400 := by
    rw [hnumber]
    omega
  have hrest : d.number + 719468 - y / 400 * 146097 =
      365 * (y % 400) + y % 400 / 4 - y % 400 / 100 + k := by
    omega
  have hshift : (if ((d.month : Int) + 9) % 12 < 10 then ((d.month : Int) + 9) % 12 + 3
      else ((d.month : Int) + 9) % 12 - 9) = d.month := by
    split_ifs <;> omega
  have hday : k - (153 * ((d.month + 9) % 12) + 2) / 5 + 1 = d.day := by
    rw [hk]
    unfold marchDay
    omega
  have hyear' : y % 400 + y / 400 * 400 + (if (d.month : Int) ≤ 2 then 1 else 0) = d.year := by
    rw [hy]
    unfold marchYear
    split_ifs <;> omega
  unfold dateOfDay
  dsimp only
  rw [hera, hrest, hyear, add_sub_cancel_left, hmonth, hshift, hday, hyear']
  rfl

/-- Each day number has a valid date that has this number, each valid date has a number that has
this date, and dates go on from day to day by the lengths of their months. -/
theorem dates_are_day_numbers :
    (∀ n, (dateOfDay n).IsValid ∧
      dayNumber (dateOfDay n).year (dateOfDay n).month (dateOfDay n).day = n) ∧
    (∀ year month day : Int, isValidDate day month year = true →
      dateOfDay (dayNumber year month day) = ⟨year, month.toNat, day.toNat⟩) ∧
    ∀ n, dateOfDay (n + 1) = (dateOfDay n).next := by
  refine ⟨fun n => ?_, fun year month day h => ?_, fun n => ?_⟩
  · obtain ⟨d, hd, rfl⟩ := Date.exists_number_eq n
    rw [dateOfDay_number hd]
    exact ⟨hd, rfl⟩
  · obtain ⟨m, rfl⟩ : ∃ m : Nat, month = m := ⟨month.toNat, by simp [isValidDate] at h; omega⟩
    obtain ⟨k, rfl⟩ : ∃ k : Nat, day = k := ⟨day.toNat, by simp [isValidDate] at h; omega⟩
    exact dateOfDay_number (d := ⟨year, m, k⟩) h
  · obtain ⟨d, hd, rfl⟩ := Date.exists_number_eq n
    rw [dateOfDay_number hd, ← Date.next_number hd, dateOfDay_number (Date.next_isValid hd)]

theorem leap_day_of_day_number : isValidDate 29 2 2000 = true ∧
    dateOfDay (dayNumber 2000 2 29) = ⟨2000, 2, 29⟩ :=
  ⟨by decide, dates_are_day_numbers.2.1 2000 2 29 (by decide)⟩

end Coercion.Calendar
