import Coercion.Proofs.Dates.Truncation
import Coercion.Proofs.Dates.WeekNumbers
import Mathlib.Data.Int.Interval
import Mathlib.Data.Set.Card

namespace Coercion

open Calendar

namespace Calendar

/-- The Mondays from a day to another one. -/
def mondays (first last : Int) : Set Int :=
  {m | IsMonday m ∧ first ≤ m ∧ m ≤ last}

theorem finite_mondays (first last : Int) : (mondays first last).Finite :=
  (Set.finite_Icc first last).subset fun _ hm => hm.2

theorem mondays_succ {first last : Int} (h : first - 1 ≤ last) : mondays first (last + 1) =
    if (last + 1 + 4) % 7 = 1 then insert (last + 1) (mondays first last)
    else mondays first last := by
  ext m
  split_ifs with hmonday
  · simp only [mondays, isMonday_iff, Set.mem_insert_iff, Set.mem_ofPred_eq]
    omega
  · simp only [mondays, isMonday_iff, Set.mem_ofPred_eq]
    omega

theorem ncard_mondays {first last : Int} (h : first - 1 ≤ last) :
    ((mondays first last).ncard : Int) = (last + 3) / 7 - (first + 2) / 7 := by
  induction last, h using Int.leInduction with
  | base =>
    have hnone : mondays first (first - 1) = ∅ := by
      ext m
      simp only [mondays, Set.mem_ofPred_eq, Set.mem_empty_iff_false, iff_false]
      omega
    rw [hnone, Set.ncard_empty]
    omega
  | succ last h ih =>
    rw [mondays_succ h]
    split_ifs with hmonday
    · have hnot : last + 1 ∉ mondays first last := by
        simp [mondays]
      rw [Set.ncard_insert_of_notMem hnot (finite_mondays first last)]
      omega
    · omega

theorem dayNumber_first (year : Int) : dayNumber year 1 1 = yearStart year := by
  rw [← carriedDay_first, ← carriedDay_eq (by decide) (by decide)]
  rfl

/-- The Monday of a week is in the year of a day of the week or in the year before. -/
theorem mondayOf_cases (number : Int) :
    (dateOfDay (mondayOf number)).year = (dateOfDay number).year ∨
      (dateOfDay (mondayOf number)).year = (dateOfDay number).year - 1 ∧
        mondayOf number < yearStart (dateOfDay number).year := by
  have hyear (y : Int) := le_year_iff y (mondayOf number)
  have hsame := hyear (dateOfDay number).year
  have hbefore := hyear ((dateOfDay number).year - 1)
  have hafter := hyear ((dateOfDay number).year + 1)
  have hbounds := (dateOfDay_isValid number).yearStart_le
  have hlength := yearStart_bounds ((dateOfDay number).year - 1)
  rw [number_dateOfDay] at hbounds
  rw [sub_add_cancel] at hlength
  unfold mondayOf at *
  omega

end Calendar

namespace Civil

theorem week_eq (wall : Int) : ((ofMillis wall).week : Int) =
    (wall / millisPerDay + 3) / 7 -
      (yearStart (dateOfDay (wall / millisPerDay)).year + 2) / 7 := by
  have hfirst := (dateOfDay_isValid (wall / millisPerDay)).yearStart_le.1
  have hordinal := ordinal_eq wall
  have hweekday := isoWeekday_ofMillis wall
  rw [number_dateOfDay] at hfirst
  rw [week]
  omega

theorem week_ofMillis (wall : Int) : (ofMillis wall).week =
    (mondays (yearStart (ofMillis wall).year) (wall / millisPerDay)).ncard := by
  have hfirst := (dateOfDay_isValid (wall / millisPerDay)).yearStart_le.1
  rw [number_dateOfDay] at hfirst
  have hlast : yearStart (dateOfDay (wall / millisPerDay)).year - 1 ≤ wall / millisPerDay := by
    omega
  have hcard := ncard_mondays hlast
  rw [← week_eq] at hcard
  exact (Nat.cast_injective hcard).symm

theorem week_le (wall : Int) : (ofMillis wall).week ≤ 53 := by
  have hordinal := (ordinal_ofMillis_bounds wall).2
  have hweekday := isoWeekday_ofMillis wall
  rw [week]
  split_ifs at hordinal <;> omega

theorem week_midnight (wall : Int) {monday : Int}
    (h : monday = mondayOf (wall / millisPerDay) * millisPerDay) :
    if (ofMillis monday).year = (ofMillis wall).year then
      (ofMillis monday).week = (ofMillis wall).week
    else (ofMillis monday).year = (ofMillis wall).year - 1 ∧ (ofMillis wall).week = 0 := by
  have hday : monday / millisPerDay = mondayOf (wall / millisPerDay) := by
    rw [h, Int.mul_ediv_cancel _ (by decide)]
  have hweek := week_eq monday
  have hweek' := week_eq wall
  have hcases := mondayOf_cases (wall / millisPerDay)
  change if (dateOfDay (monday / millisPerDay)).year = (dateOfDay (wall / millisPerDay)).year then _
    else (dateOfDay (monday / millisPerDay)).year = (dateOfDay (wall / millisPerDay)).year - 1 ∧ _
  rw [hday] at hweek ⊢
  split_ifs with hyear
  · rw [hyear] at hweek
    unfold mondayOf at hweek
    omega
  · have hbounds := (dateOfDay_isValid (wall / millisPerDay)).yearStart_le
    rw [number_dateOfDay] at hbounds
    obtain ⟨hprevious, hbefore⟩ := hcases.resolve_left hyear
    unfold mondayOf at hbefore
    exact ⟨hprevious, by omega⟩

end Civil

namespace Temporal

theorem exists_fields (c : Context) (v : Temporal) : ∃ wall, v.fields c = Civil.ofMillis wall := by
  cases v with
  | instant millis dateOnly => exact ⟨c.zone.wallAt millis, rfl⟩
  | interval duration => exact ⟨duration.millis, rfl⟩

theorem localDay_eq {c : Context} {v : Temporal} {wall : Int}
    (h : v.fields c = Civil.ofMillis wall) : v.localDay c = wall / millisPerDay := by
  rw [localDay, h, Civil.dayNumber_ofMillis]

end Temporal

theorem Dates.fields_of_truncateTo_week {c : Context} {o : Offset} {v t : Temporal}
    (hzone : c.zone = .fixed o)
    (h : (Dates.truncateTo c .week (.value v)).result = .ok t) :
    t.fields c = Civil.ofMillis (mondayOf (v.localDay c) * millisPerDay) := by
  obtain ⟨zone, clock⟩ := c
  obtain rfl : zone = .fixed o := hzone
  cases v with
  | interval duration => cases h
  | instant millis dateOnly hv =>
    obtain ⟨hstart, rfl⟩ := result_truncateTo_eq_ok h
    have hfields : (Temporal.instant millis dateOnly).fields ⟨.fixed o, clock⟩ =
        Civil.ofMillis (millis + o.millis) :=
      congrArg Civil.ofMillis (Zone.wallAt_fixed o millis)
    have hwall : (Zone.fixed o).wallAt (startAt o .week millis) =
        TimeUnit.week.start (Civil.ofMillis (millis + o.millis)) := by
      rw [Zone.wallAt_fixed, startAt, Int.sub_add_cancel]
    rw [Temporal.localDay_eq hfields]
    change Civil.ofMillis ((Zone.fixed o).wallAt (startAt o .week millis)) = _
    rw [hwall, TimeUnit.start_week]
    rfl

/-- The week of a value is the number of Mondays of its year up to its date. At a constant offset
it is the week of the Monday that the value is truncated to, and zero if that Monday is in the year
before. -/
theorem week_eq_ncard_mondays (c : Context) (v : Temporal) :
    ∃ week : Nat, (Dates.week c (.value v)).result = .ok week ∧
      week = (mondays (dayNumber (v.fields c).year 1 1) (v.localDay c)).ncard ∧ week ≤ 53 ∧
      ∀ (o : Offset) (t : Temporal), c.zone = .fixed o →
        (Dates.truncateTo c .week (.value v)).result = .ok t →
        IsGreatest {m | IsMonday m ∧ m ≤ v.localDay c} (t.localDay c) ∧
          if (t.fields c).year = (v.fields c).year then
            (Dates.week c (.value t)).result = .ok week
          else (t.fields c).year = (v.fields c).year - 1 ∧ week = 0 := by
  obtain ⟨wall, hwall⟩ := v.exists_fields c
  have hday := Temporal.localDay_eq hwall
  refine ⟨(Civil.ofMillis wall).week, ?_, ?_, Civil.week_le wall, fun o t hzone ht => ?_⟩
  · rw [← hwall]
    rfl
  · rw [hday, hwall, dayNumber_first, Civil.week_ofMillis]
  · have hfields := Dates.fields_of_truncateTo_week hzone ht
    rw [hday] at hfields
    have hmonday := Civil.week_midnight wall rfl
    have hday' := Temporal.localDay_eq hfields
    rw [Int.mul_ediv_cancel _ (by decide)] at hday'
    rw [← hfields, ← hwall] at hmonday
    refine ⟨?_, ?_⟩
    · rw [hday', hday]
      exact isGreatest_mondayOf _
    · rw [← hwall]
      split_ifs at hmonday ⊢ with hyear
      · rw [← hmonday]
        rfl
      · exact hmonday

theorem week_eq_ncard_mondays_sunday :
    let c : Context := ⟨.fixed .utc, .fixed 0⟩
    let v : Temporal := .instant 1609632000000 false
    let t : Temporal := .instant 1609113600000 true
    (Dates.truncateTo c .week (.value v)).result = .ok t ∧
      (Dates.week c (.value v)).result = .ok 0 ∧
      (mondays (dayNumber 2021 1 1) (dayNumber 2021 1 3)).ncard = 0 ∧ t.localDay c = 18624 ∧
      (t.fields c).year = 2020 := by
  intro c v t
  have ht : (Dates.truncateTo c .week (.value v)).result = .ok t := by decide +kernel
  have hyear : (v.fields c).year = 2021 := by decide +kernel
  have hday : v.localDay c = dayNumber 2021 1 3 := by decide +kernel
  have hyear' : (t.fields c).year = 2020 := by decide +kernel
  have hday' : t.localDay c = 18624 := by decide +kernel
  obtain ⟨week, hweek, hmondays, -, htruncated⟩ := week_eq_ncard_mondays c v
  obtain ⟨-, hlast⟩ := htruncated .utc t rfl ht
  rw [hyear, hyear', if_neg (by decide)] at hlast
  obtain rfl := hlast.2
  rw [hyear, hday] at hmondays
  exact ⟨ht, hweek, hmondays.symm, hday', hyear'⟩

end Coercion
