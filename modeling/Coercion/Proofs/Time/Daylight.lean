import Coercion.Proofs.Calendar.Years
import Coercion.Time.Zone

namespace Coercion

open Calendar

namespace Transition

/-- A transition on a whole hour of a day, from one to midnight and not in it, of a month that is
neither the first of the year nor the last. -/
structure IsRegular (t : Transition) : Prop where
  month : 2 ≤ t.month ∧ t.month ≤ 11
  week : 1 ≤ t.week ∧ t.week ≤ 5
  hour : t.time % 3600 = 0
  day : 3600 < t.time ∧ t.time < 86400

variable {t : Transition}

theorem IsRegular.day_bounds (h : t.IsRegular) (year : Int) :
    monthStart (12 * year + (t.month - 1)) ≤ t.day year ∧
      t.day year < monthStart (12 * year + t.month) := by
  obtain ⟨hm, hm'⟩ := h.month
  obtain ⟨hw, hw'⟩ := h.week
  have hyear : (12 * year + (t.month - 1)) / 12 = year := by omega
  have hmonth : ((12 * year + ((t.month : Int) - 1)) % 12 + 1).toNat = t.month := by omega
  have hnext := monthStart_succ (12 * year + (t.month - 1))
  rw [hyear, hmonth, show 12 * year + ((t.month : Int) - 1) + 1 = 12 * year + t.month by omega]
    at hnext
  have := (daysInMonth_bounds year t.month).1
  rw [hnext, Transition.day, carriedDay_eq_monthStart]
  split_ifs <;> omega

theorem IsRegular.reading_bounds (h : t.IsRegular) (year : Int) :
    yearStart year * 86400 + 2419200 ≤ t.reading year ∧
      t.reading year + 2419200 ≤ yearStart (year + 1) * 86400 := by
  obtain ⟨hm, hm'⟩ := h.month
  obtain ⟨hpos, hlt⟩ := h.day
  obtain ⟨hlow, hhigh⟩ := h.day_bounds year
  have hfirst := monthStart_add (12 * year) (t.month - 1)
  have hlast := monthStart_add (12 * year + t.month) (12 - t.month)
  rw [show 12 * year + ((t.month - 1 : Nat) : Int) = 12 * year + (t.month - 1) by omega] at hfirst
  rw [show 12 * year + (t.month : Int) + ((12 - t.month : Nat) : Int) = 12 * (year + 1) by omega]
    at hlast
  unfold yearStart reading
  omega

theorem IsRegular.reading_hour (h : t.IsRegular) (year : Int) :
    t.reading year % 3600 = 0 ∧ 3600 < t.reading year % 86400 := by
  have := h.hour
  have := h.day
  unfold reading
  omega

end Transition

namespace DaylightRule

/-- Clocks go forward by an hour at one regular transition of a year and back at another, a month
or more apart. -/
structure IsRegular (r : DaylightRule) : Prop where
  gap : r.daylight = r.standard + 3600
  hour : r.standard % 3600 = 0
  bounds : -43200 ≤ r.standard ∧ r.standard ≤ 43200
  starts : r.starts.IsRegular
  ends : r.ends.IsRegular
  apart : r.starts.month + 2 ≤ r.ends.month ∨ r.ends.month + 2 ≤ r.starts.month

variable {r : DaylightRule}

theorem IsRegular.positions (h : r.IsRegular) (year : Int) :
    yearStart year * 86400 + 2419200 ≤ r.starts.reading year ∧
      r.starts.reading year + 2419200 ≤ yearStart (year + 1) * 86400 ∧
      yearStart year * 86400 + 2419200 ≤ r.ends.reading year ∧
      r.ends.reading year + 2419200 ≤ yearStart (year + 1) * 86400 ∧
      (r.starts.month < r.ends.month ∧ r.starts.reading year + 2419200 ≤ r.ends.reading year ∨
        r.ends.month < r.starts.month ∧
          r.ends.reading year + 2419200 ≤ r.starts.reading year) := by
  obtain ⟨hlow, hhigh⟩ := h.starts.reading_bounds year
  obtain ⟨hlow', hhigh'⟩ := h.ends.reading_bounds year
  refine ⟨hlow, hhigh, hlow', hhigh', ?_⟩
  obtain ⟨hstart, hstart'⟩ := h.starts.day_bounds year
  obtain ⟨hend, hend'⟩ := h.ends.day_bounds year
  have := h.starts.day
  have := h.ends.day
  unfold Transition.reading
  obtain hlt | hlt := h.apart
  · have := monthStart_add (12 * year + r.starts.month) (r.ends.month - 1 - r.starts.month)
    rw [show 12 * year + (r.starts.month : Int) + ((r.ends.month - 1 - r.starts.month : Nat) : Int)
      = 12 * year + (r.ends.month - 1) by omega] at this
    omega
  · have := monthStart_add (12 * year + r.ends.month) (r.starts.month - 1 - r.ends.month)
    rw [show 12 * year + (r.ends.month : Int) + ((r.starts.month - 1 - r.ends.month : Nat) : Int)
      = 12 * year + (r.starts.month - 1) by omega] at this
    omega

theorem yearOf_bounds (s : Int) :
    yearStart (yearOf s) * 86400 ≤ s ∧ s < yearStart (yearOf s + 1) * 86400 := by
  have hle (y : Int) : y ≤ yearOf s ↔ yearStart y ≤ s / 86400 := le_year_iff y _
  have := hle (yearOf s)
  have := hle (yearOf s + 1)
  omega

theorem yearOf_cases (year : Int) {s : Int} (hlow : yearStart year * 86400 - 1209600 ≤ s)
    (hhigh : s < yearStart (year + 1) * 86400 + 1209600) :
    yearOf s = year - 1 ∧ s < yearStart year * 86400 ∨ yearOf s = year ∨
      yearOf s = year + 1 ∧ yearStart (year + 1) * 86400 ≤ s := by
  have hle (y : Int) : y ≤ yearOf s ↔ yearStart y ≤ s / 86400 := le_year_iff y _
  have hbefore := yearStart_bounds (year - 1)
  have hafter := yearStart_bounds (year + 1)
  have := hle (year - 1)
  have := hle year
  have := hle (year + 1)
  have := hle (year + 1 + 1)
  rw [sub_add_cancel] at hbefore
  omega

def offsetIn (r : DaylightRule) (year instant : Int) : Int :=
  let start := r.starts.reading year - r.standard
  let stop := r.ends.reading year - r.daylight
  if start < stop then
    if start ≤ instant ∧ instant < stop then r.daylight else r.standard
  else if instant < stop ∨ start ≤ instant then r.daylight else r.standard

def readingOffsetIn? (r : DaylightRule) (year wall : Int) : Option Int :=
  let start := r.starts.reading year
  let stop := r.ends.reading year
  if start < stop then
    if wall ≤ start then some r.standard
    else if wall < start + 3600 then none
    else if wall < stop - 3600 then some r.daylight
    else some r.standard
  else
    if wall < stop - 3600 then some r.daylight
    else if wall < start then some r.standard
    else if wall < start + 3600 then none
    else some r.daylight

def readingOffset? (r : DaylightRule) (wall : Int) : Option Int :=
  match r.resolve wall with
  | .unique offset => some offset
  | .repeated first _ => some first
  | .skipped => none

theorem offsetAt_eq_offsetIn (r : DaylightRule) (instant : Int) :
    r.offsetAt instant = r.offsetIn (yearOf instant) instant := by
  unfold offsetAt offsetIn inEffect
  dsimp only
  by_cases hlt : r.starts.reading (yearOf instant) - r.standard <
      r.ends.reading (yearOf instant) - r.daylight
  · simp only [hlt, ↓reduceIte, Bool.and_eq_true, decide_eq_true_eq]
  · simp only [hlt, ↓reduceIte, Bool.or_eq_true, decide_eq_true_eq]

section

variable (h : r.IsRegular) (year : Int)

include h

theorem IsRegular.readingOffset?_eq (wall : Int) :
    r.readingOffset? wall = r.readingOffsetIn? (yearOf wall) wall := by
  have hgap : r.daylight - r.standard = 3600 := by
    rw [h.gap]
    omega
  have := h.positions (yearOf wall)
  unfold readingOffset? readingOffsetIn? resolve
  dsimp only
  rw [hgap]
  split_ifs <;> first | rfl | omega

theorem IsRegular.offsetAt_eq {s : Int} (hlow : yearStart year * 86400 - 1209600 ≤ s)
    (hhigh : s < yearStart (year + 1) * 86400 + 1209600) :
    r.offsetAt s = r.offsetIn year s := by
  have hgap := h.gap
  have hbounds := h.bounds
  have := h.positions year
  have hbefore := h.positions (year - 1)
  have := h.positions (year + 1)
  rw [sub_add_cancel] at hbefore
  rw [offsetAt_eq_offsetIn]
  obtain ⟨hyear, hs⟩ | hyear | ⟨hyear, hs⟩ := yearOf_cases year hlow hhigh
  · rw [hyear]
    unfold offsetIn
    dsimp only
    split_ifs <;> omega
  · rw [hyear]
  · rw [hyear]
    unfold offsetIn
    dsimp only
    split_ifs <;> omega

theorem IsRegular.readingOffset?_eq_in {wall : Int}
    (hlow : yearStart year * 86400 - 1209600 ≤ wall)
    (hhigh : wall < yearStart (year + 1) * 86400 + 1209600) :
    r.readingOffset? wall = r.readingOffsetIn? year wall := by
  have := h.positions year
  have hbefore := h.positions (year - 1)
  have := h.positions (year + 1)
  rw [sub_add_cancel] at hbefore
  rw [h.readingOffset?_eq]
  obtain ⟨hyear, hs⟩ | hyear | ⟨hyear, hs⟩ := yearOf_cases year hlow hhigh
  · rw [hyear]
    unfold readingOffsetIn?
    dsimp only
    split_ifs <;> first | rfl | omega
  · rw [hyear]
  · rw [hyear]
    unfold readingOffsetIn?
    dsimp only
    split_ifs <;> first | rfl | omega

end

theorem offsetAt_cases (r : DaylightRule) (s : Int) :
    r.offsetAt s = r.standard ∨ r.offsetAt s = r.daylight := by
  unfold offsetAt
  split_ifs <;> simp

/-- Whether an instant is in the last hour of daylight saving time of some year. -/
def InLastHour (r : DaylightRule) (instant : Int) : Prop :=
  ∃ year, r.ends.reading year - r.daylight - 3600 ≤ instant ∧
    instant < r.ends.reading year - r.daylight

section

variable (h : r.IsRegular)

include h

theorem IsRegular.inLastHour_iff (s : Int) : r.InLastHour s ↔
    r.ends.reading (yearOf s) - r.daylight - 3600 ≤ s ∧
      s < r.ends.reading (yearOf s) - r.daylight := by
  constructor
  · rintro ⟨year, hlow, hhigh⟩
    have := h.positions year
    have := h.gap
    have := h.bounds
    obtain ⟨hyear, hs⟩ | hyear | ⟨hyear, hs⟩ :=
      yearOf_cases year (s := s) (by omega) (by omega)
    · omega
    · rw [hyear]
      exact ⟨hlow, hhigh⟩
    · omega
  · exact fun hs => ⟨yearOf s, hs⟩

theorem IsRegular.exists_winter (year : Int) : ∃ offset, ∀ s,
    yearStart year * 86400 - 1209600 ≤ s → s < yearStart year * 86400 + 1209600 →
      r.offsetAt s = offset ∧ r.readingOffset? s = some offset := by
  have hgap := h.gap
  have hbounds := h.bounds
  have hpositions := h.positions year
  have hyear := yearStart_bounds year
  refine ⟨if r.starts.month < r.ends.month then r.standard else r.daylight, ?_⟩
  intro s hlow hhigh
  rw [h.offsetAt_eq year hlow (by omega),
    h.readingOffset?_eq_in year hlow (by omega)]
  unfold offsetIn readingOffsetIn?
  dsimp only
  constructor
  · split_ifs <;> omega
  · split_ifs <;> first | rfl | omega

theorem IsRegular.offsetAt_eq_of_yearEnd (year : Int) {s reading offset : Int}
    (hs : yearStart year * 86400 - 1209600 ≤ s ∧ s < yearStart year * 86400 + 1209600)
    (hreading : yearStart year * 86400 - 1209600 ≤ reading ∧
      reading < yearStart year * 86400 + 1209600)
    (hoffset : r.readingOffset? reading = some offset) : r.offsetAt s = offset := by
  obtain ⟨winter, hwinter⟩ := h.exists_winter year
  rw [(hwinter s hs.1 hs.2).1]
  exact Option.some.inj ((hwinter reading hreading.1 hreading.2).2.symm.trans hoffset)

theorem IsRegular.readingOffset?_midnight {wall : Int} (hwall : wall % 86400 = 0) :
    ∃ offset, r.readingOffset? wall = some offset ∧
      (offset = r.standard ∨ offset = r.daylight) := by
  have := h.starts.reading_hour (yearOf wall)
  rw [h.readingOffset?_eq]
  unfold readingOffsetIn?
  dsimp only
  split_ifs <;> first | exact ⟨_, rfl, by simp⟩ | omega

theorem IsRegular.readingOffset?_wall {s : Int} (hlast : ¬r.InLastHour s) :
    r.readingOffset? (s + r.offsetAt s) = some (r.offsetAt s) := by
  have hgap := h.gap
  have hbounds := h.bounds
  have hpositions := h.positions (yearOf s)
  have hs := yearOf_bounds s
  have hoffset := r.offsetAt_cases s
  rw [h.inLastHour_iff] at hlast
  rw [h.readingOffset?_eq_in (yearOf s) (by omega) (by omega)]
  rw [offsetAt_eq_offsetIn] at *
  unfold offsetIn readingOffsetIn? at *
  dsimp only at *
  generalize r.starts.reading (yearOf s) = start at *
  generalize r.ends.reading (yearOf s) = stop at *
  split_ifs <;> first | rfl | omega

theorem IsRegular.readingOffset?_skipped (year : Int) {wall : Int}
    (hlow : r.starts.reading year ≤ wall) (hhigh : wall < r.starts.reading year + 3600) :
    (r.readingOffset? wall = none ∨ r.readingOffset? wall = some r.standard) ∧
      r.offsetAt (wall - 86400) = r.standard ∧ r.offsetAt (wall - r.standard) = r.daylight := by
  have hgap := h.gap
  have hbounds := h.bounds
  have hpositions := h.positions year
  rw [h.readingOffset?_eq_in year (by omega) (by omega), h.offsetAt_eq year (by omega) (by omega),
    h.offsetAt_eq year (by omega) (by omega)]
  unfold offsetIn readingOffsetIn?
  dsimp only
  refine ⟨?_, ?_, ?_⟩ <;> split_ifs <;> first | omega | simp

theorem IsRegular.ne_skipped (year : Int) {wall : Int}
    (hlow : r.starts.reading year ≤ wall) (hhigh : wall < r.starts.reading year + 3600) (s : Int) :
    s + r.offsetAt s ≠ wall := by
  have hgap := h.gap
  have hbounds := h.bounds
  have hpositions := h.positions year
  obtain ⟨-, -, hafter⟩ := h.readingOffset?_skipped year hlow hhigh
  have hbefore : r.offsetAt (wall - r.daylight) = r.standard := by
    rw [h.offsetAt_eq year (by omega) (by omega)]
    unfold offsetIn
    dsimp only
    split_ifs <;> omega
  rintro rfl
  obtain hoffset | hoffset := r.offsetAt_cases s
  · rw [hoffset, add_sub_cancel_right, hoffset] at hafter
    omega
  · rw [hoffset, add_sub_cancel_right, hoffset] at hbefore
    omega

/-- The offset of a reading that belongs to the same hour as the reading of an instant, or is the
midnight less than an hour before it, is that of the instant, except in the last hour of daylight
saving time, which has that of standard time. -/
theorem IsRegular.readingOffset?_near (s wall : Int) (hle : wall ≤ s + r.offsetAt s)
    (hnear : s + r.offsetAt s - wall < 3600)
    (hunit : wall % 86400 = 0 ∨ wall / 3600 = (s + r.offsetAt s) / 3600) :
    ∃ offset, r.readingOffset? wall = some offset ∧
      (offset = r.standard ∨ offset = r.daylight) ∧
      (r.InLastHour s →
        offset = r.standard ∧ r.offsetAt s = r.daylight ∧ wall % 86400 ≠ 0) ∧
      (¬r.InLastHour s → r.offsetAt s ≤ offset) := by
  have hgap := h.gap
  have hhour := h.hour
  have hbounds := h.bounds
  have hpositions := h.positions (yearOf s)
  have hstart := h.starts.reading_hour (yearOf s)
  have hend := h.ends.reading_hour (yearOf s)
  have hs := yearOf_bounds s
  have hoffset := r.offsetAt_cases s
  rw [h.readingOffset?_eq_in (yearOf s) (by omega) (by omega), h.inLastHour_iff]
  rw [offsetAt_eq_offsetIn] at *
  unfold offsetIn at *
  unfold readingOffsetIn?
  dsimp only at *
  generalize r.starts.reading (yearOf s) = start at *
  generalize r.ends.reading (yearOf s) = stop at *
  split_ifs at hle hnear hunit hoffset ⊢ <;>
    first | exact ⟨_, rfl, by omega, by omega, by omega⟩ | omega

end

end DaylightRule

end Coercion
