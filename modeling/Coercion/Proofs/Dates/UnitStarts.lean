import Coercion.Dates.Truncation
import Coercion.Proofs.Calendar.Months
import Coercion.Proofs.Calendar.Weeks

namespace Coercion

open Calendar

namespace Calendar

theorem isGreatest_multiple {size : Int} (h : 0 < size) (wall : Int) :
    IsGreatest {b | b % size = 0 ∧ b ≤ wall} (wall / size * size) := by
  constructor
  · exact ⟨Int.mul_emod_left _ _, Int.ediv_mul_le _ h.ne'⟩
  · rintro b ⟨hb, hle⟩
    rw [← Int.ediv_mul_cancel (Int.dvd_of_emod_eq_zero hb)]
    exact Int.mul_le_mul_of_nonneg_right (Int.ediv_le_ediv h hle) h.le

theorem carriedMillis_month (year month0 : Int) :
    carriedMillis year month0 1 0 0 0 = monthStart (12 * year + month0) * millisPerDay := by
  simp [carriedMillis, carriedDay_eq_monthStart]

/-- The midnights of some days up to a reading are those of the days up to its own. -/
theorem isGreatest_midnight {p : Int → Prop} {wall n : Int}
    (h : IsGreatest {n | p n ∧ n ≤ wall / millisPerDay} n) :
    IsGreatest {b | (b % millisPerDay = 0 ∧ p (b / millisPerDay)) ∧ b ≤ wall}
      (n * millisPerDay) := by
  obtain ⟨⟨hn, hle⟩, hgreatest⟩ := h
  unfold millisPerDay at *
  constructor
  · refine ⟨⟨Int.mul_emod_left _ _, ?_⟩, by omega⟩
    rwa [Int.mul_ediv_cancel _ (by decide)]
  · rintro b ⟨⟨hb, hp⟩, hle'⟩
    have := hgreatest ⟨hp, by omega⟩
    omega

theorem isGreatest_monthStart {count : Int} (h : 0 < count) (n : Int) :
    IsGreatest {m | ((dateOfDay m).day = 1 ∧ (dateOfDay m).monthIndex % count = 0) ∧ m ≤ n}
      (monthStart ((dateOfDay n).monthIndex / count * count)) := by
  obtain ⟨⟨hzero, hle⟩, hgreatest⟩ := isGreatest_multiple h (dateOfDay n).monthIndex
  obtain ⟨hday, hindex⟩ := dateOfDay_monthStart ((dateOfDay n).monthIndex / count * count)
  constructor
  · refine ⟨⟨hday, by rw [hindex]; exact hzero⟩, ?_⟩
    have := ((dateOfDay_isValid n).le_monthIndex_iff _).mp hle
    rwa [number_dateOfDay] at this
  · rintro m ⟨⟨hm, hcount⟩, hle'⟩
    have hstart := eq_monthStart_of_day_eq_one hm
    have hbefore : (dateOfDay m).monthIndex ≤ (dateOfDay n).monthIndex := by
      rw [(dateOfDay_isValid n).le_monthIndex_iff, number_dateOfDay, ← hstart]
      exact hle'
    rw [hstart]
    exact monthStart_strictMono.monotone (hgreatest ⟨hcount, hbefore⟩)

end Calendar

namespace TimeUnit

/-- Whether a unit starts at a reading: on a whole second, minute or hour, at a midnight, at that
of a Monday, or at that of the first day of a month, of a quarter or of a year. -/
def Starts (wall : Int) : TimeUnit → Prop
  | second => wall % millisPerSecond = 0
  | minute => wall % millisPerMinute = 0
  | hour => wall % millisPerHour = 0
  | day => wall % millisPerDay = 0
  | week | isoWeek => wall % millisPerDay = 0 ∧ (Civil.ofMillis wall).weekday = 1
  | month => wall % millisPerDay = 0 ∧ (Civil.ofMillis wall).day = 1
  | quarter => wall % millisPerDay = 0 ∧ (Civil.ofMillis wall).day = 1 ∧
      (Civil.ofMillis wall).month ∈ [1, 4, 7, 10]
  | year => wall % millisPerDay = 0 ∧ (Civil.ofMillis wall).day = 1 ∧
      (Civil.ofMillis wall).month = 1

section

variable (wall : Int)

theorem starts_week_iff : week.Starts wall ↔
    wall % millisPerDay = 0 ∧ (wall / millisPerDay + 4) % 7 = 1 := by
  change _ ∧ ((wall / millisPerDay + 4) % 7).toNat = 1 ↔ _
  omega

theorem starts_month_iff : month.Starts wall ↔ wall % millisPerDay = 0 ∧
    (dateOfDay (wall / millisPerDay)).day = 1 ∧
      (dateOfDay (wall / millisPerDay)).monthIndex % 1 = 0 := by
  rw [Int.emod_one, eq_self, and_true]
  rfl

theorem starts_quarter_iff : quarter.Starts wall ↔ wall % millisPerDay = 0 ∧
    (dateOfDay (wall / millisPerDay)).day = 1 ∧
      (dateOfDay (wall / millisPerDay)).monthIndex % 3 = 0 := by
  obtain ⟨hm, hm', -, -⟩ := (dateOfDay_isValid (wall / millisPerDay)).bounds
  refine and_congr_right fun _ => and_congr_right fun _ => ?_
  change (dateOfDay (wall / millisPerDay)).month ∈ [1, 4, 7, 10] ↔ _
  simp only [List.mem_cons, List.not_mem_nil, or_false, Date.monthIndex]
  omega

theorem starts_year_iff : year.Starts wall ↔ wall % millisPerDay = 0 ∧
    (dateOfDay (wall / millisPerDay)).day = 1 ∧
      (dateOfDay (wall / millisPerDay)).monthIndex % 12 = 0 := by
  obtain ⟨hm, hm', -, -⟩ := (dateOfDay_isValid (wall / millisPerDay)).bounds
  refine and_congr_right fun _ => and_congr_right fun _ => ?_
  change (dateOfDay (wall / millisPerDay)).month = 1 ↔ _
  unfold Date.monthIndex
  omega

theorem monthIndex_ofMillis : (dateOfDay (wall / millisPerDay)).monthIndex =
    12 * (Civil.ofMillis wall).year + ((Civil.ofMillis wall).month - 1) := rfl

theorem start_month : month.start (Civil.ofMillis wall) =
    monthStart ((dateOfDay (wall / millisPerDay)).monthIndex / 1 * 1) * millisPerDay := by
  rw [Int.ediv_one, mul_one, monthIndex_ofMillis]
  exact carriedMillis_month _ _

theorem start_quarter : quarter.start (Civil.ofMillis wall) =
    monthStart ((dateOfDay (wall / millisPerDay)).monthIndex / 3 * 3) * millisPerDay := by
  obtain ⟨hm, hm', -, -⟩ := Civil.ofMillis_bounds wall
  have hindex : (dateOfDay (wall / millisPerDay)).monthIndex / 3 * 3 =
      12 * (Civil.ofMillis wall).year + 3 * ((Civil.ofMillis wall).quarter - 1) := by
    rw [monthIndex_ofMillis, Civil.quarter]
    omega
  rw [hindex]
  exact carriedMillis_month _ _

theorem start_year : year.start (Civil.ofMillis wall) =
    monthStart ((dateOfDay (wall / millisPerDay)).monthIndex / 12 * 12) * millisPerDay := by
  obtain ⟨hm, hm', -, -⟩ := Civil.ofMillis_bounds wall
  have hindex : (dateOfDay (wall / millisPerDay)).monthIndex / 12 * 12 =
      12 * (Civil.ofMillis wall).year + 0 := by
    rw [monthIndex_ofMillis]
    omega
  rw [hindex]
  exact carriedMillis_month _ _

theorem start_week : week.start (Civil.ofMillis wall) =
    (wall / millisPerDay - (wall / millisPerDay + 3) % 7) * millisPerDay := by
  have hday := Civil.carriedDay_ofMillis wall
  have hweekday := Civil.isoWeekday_ofMillis wall
  rw [carriedDay_eq_monthStart] at hday
  rw [start, carriedMillis, carriedDay_eq_monthStart]
  have hmonday : monthStart (12 * (Civil.ofMillis wall).year + ((Civil.ofMillis wall).month - 1)) +
      ((Civil.ofMillis wall).day - (Civil.ofMillis wall).isoWeekday + 1) - 1 =
      wall / millisPerDay - (wall / millisPerDay + 3) % 7 := by
    omega
  rw [hmonday]
  omega

theorem start_day :
    day.start (Civil.ofMillis wall) = wall / millisPerDay * millisPerDay :=
  Civil.midnight_ofMillis wall

theorem start_hour :
    hour.start (Civil.ofMillis wall) = wall / millisPerHour * millisPerHour := by
  rw [start, carriedMillis, Civil.carriedDay_ofMillis]
  unfold Civil.ofMillis millisPerDay millisPerHour
  dsimp only
  omega

theorem start_minute :
    minute.start (Civil.ofMillis wall) = wall / millisPerMinute * millisPerMinute := by
  rw [start, carriedMillis, Civil.carriedDay_ofMillis]
  unfold Civil.ofMillis millisPerDay millisPerHour millisPerMinute
  dsimp only
  omega

theorem start_second :
    second.start (Civil.ofMillis wall) = wall / millisPerSecond * millisPerSecond :=
  Civil.carriedMillis_ofMillis wall

end

/-- The start of the unit around a reading is the last reading up to it at which the unit
starts. -/
theorem start_isGreatest (u : TimeUnit) (wall : Int) :
    IsGreatest {b | u.Starts b ∧ b ≤ wall} (u.start (Civil.ofMillis wall)) := by
  have hmonths {count : Int} (hcount : 0 < count) :=
    isGreatest_midnight (isGreatest_monthStart hcount (wall / millisPerDay))
  have hweek : IsGreatest {b | week.Starts b ∧ b ≤ wall} (week.start (Civil.ofMillis wall)) := by
    rw [start_week]
    simp only [starts_week_iff]
    exact isGreatest_midnight (isGreatest_monday (wall / millisPerDay))
  cases u with
  | second =>
    rw [start_second]
    exact isGreatest_multiple (by decide) wall
  | minute =>
    rw [start_minute]
    exact isGreatest_multiple (by decide) wall
  | hour =>
    rw [start_hour]
    exact isGreatest_multiple (by decide) wall
  | day =>
    rw [start_day]
    exact isGreatest_multiple (by decide) wall
  | week => exact hweek
  | isoWeek => exact hweek
  | month =>
    rw [start_month]
    simp only [starts_month_iff]
    exact hmonths (by decide)
  | quarter =>
    rw [start_quarter]
    simp only [starts_quarter_iff]
    exact hmonths (by decide)
  | year =>
    rw [start_year]
    simp only [starts_year_iff]
    exact hmonths (by decide)

/-- One unit is a part of another if it starts wherever the other one does. -/
def PartOf (fine u : TimeUnit) : Prop :=
  ∀ wall, u.Starts wall → fine.Starts wall

theorem PartOf.trans {a b c : TimeUnit} (h : a.PartOf b) (h' : b.PartOf c) : a.PartOf c :=
  fun wall hstarts => h wall (h' wall hstarts)

theorem PartOf.refl (u : TimeUnit) : u.PartOf u :=
  fun _ hstarts => hstarts

theorem second_partOf_minute : second.PartOf minute := by
  intro wall hstarts
  change wall % 60000 = 0 at hstarts
  change wall % 1000 = 0
  omega

theorem minute_partOf_hour : minute.PartOf hour := by
  intro wall hstarts
  change wall % 3600000 = 0 at hstarts
  change wall % 60000 = 0
  omega

theorem hour_partOf_day : hour.PartOf day := by
  intro wall hstarts
  change wall % 86400000 = 0 at hstarts
  change wall % 3600000 = 0
  omega

theorem day_partOf {u : TimeUnit} (h : day.rank ≤ u.rank) : day.PartOf u := by
  intro wall hstarts
  cases u with
  | second | minute | hour => simp [rank] at h
  | day => exact hstarts
  | week | isoWeek | month | quarter | year => exact hstarts.1

theorem month_partOf_quarter : month.PartOf quarter :=
  fun _ hstarts => ⟨hstarts.1, hstarts.2.1⟩

theorem quarter_partOf_year : quarter.PartOf year :=
  fun _ hstarts => ⟨hstarts.1, hstarts.2.1, by rw [hstarts.2.2]; decide⟩

/-- The units are parts of all coarser ones, only that weeks are parts of no months. -/
theorem partOf_of_rank_le {fine u : TimeUnit} (h : fine.rank ≤ u.rank)
    (hweek : fine = week ∨ fine = isoWeek → u = week ∨ u = isoWeek) : fine.PartOf u := by
  have hday (hu : day.rank ≤ u.rank) := hour_partOf_day.trans (day_partOf hu)
  cases fine with
  | second =>
    cases u with
    | second => exact .refl _
    | minute => exact second_partOf_minute
    | hour => exact second_partOf_minute.trans minute_partOf_hour
    | day | week | isoWeek | month | quarter | year =>
      exact second_partOf_minute.trans (minute_partOf_hour.trans (hday (by decide)))
  | minute =>
    cases u with
    | second => simp [rank] at h
    | minute => exact .refl _
    | hour => exact minute_partOf_hour
    | day | week | isoWeek | month | quarter | year =>
      exact minute_partOf_hour.trans (hday (by decide))
  | hour =>
    cases u with
    | second | minute => simp [rank] at h
    | hour => exact .refl _
    | day | week | isoWeek | month | quarter | year => exact hday (by decide)
  | day => exact day_partOf h
  | week | isoWeek =>
    obtain rfl | rfl := hweek (by simp)
    · exact .refl _
    · exact .refl _
  | month =>
    cases u with
    | month => exact .refl _
    | quarter => exact month_partOf_quarter
    | year => exact month_partOf_quarter.trans quarter_partOf_year
    | _ => simp [rank] at h
  | quarter =>
    cases u with
    | quarter => exact .refl _
    | year => exact quarter_partOf_year
    | _ => simp [rank] at h
  | year =>
    cases u with
    | year => exact .refl _
    | _ => simp [rank] at h

end TimeUnit

end Coercion
