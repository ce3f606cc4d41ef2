import Coercion.Proofs.Calendar.Weeks
import Coercion.Proofs.Time.Offsets
import Coercion.Reporting.Dates

namespace Coercion

open Calendar

namespace Temporal

def localDay (c : Context) (v : Temporal) : Int :=
  dayNumber (v.fields c).year (v.fields c).month (v.fields c).day

theorem exists_fields_eq (c : Context) {v : Temporal} (h : inRange v.millis = true) :
    ∃ wall, v.fields c = Civil.ofMillis wall ∧ wall.natAbs < 10000000000000000 := by
  cases v with
  | instant millis dateOnly => exact ⟨c.zone.wallAt millis, rfl, c.zone.natAbs_wallAt_lt h⟩
  | interval duration =>
    refine ⟨duration.millis, rfl, ?_⟩
    change inRange duration.millis = true at h
    simp only [inRange, Bool.and_eq_true, decide_eq_true_eq] at h
    unfold maxInstant millisPerDay at h
    omega

end Temporal

theorem Civil.dayNumber_ofMillis (wall : Int) :
    dayNumber (ofMillis wall).year (ofMillis wall).month (ofMillis wall).day =
      wall / millisPerDay := by
  have hnumber := number_dateOfDay (wall / millisPerDay)
  rwa [← ofMillis_date] at hnumber

namespace Dates

theorem result_weekIso (c : Context) {v : Temporal} (h : inRange v.millis = true) :
    ∃ week : Nat, (weekIso c (.value v)).result = .ok week ∧
      (week : Int) = isoWeek (v.localDay c) := by
  obtain ⟨wall, hfields, hwall⟩ := v.exists_fields_eq c h
  refine ⟨(v.fields c).weekIso, ?_, ?_⟩
  · rw [weekIso, ofFields?, result_ofDate_value, hfields, Civil.weekIso?_ofMillis hwall]
    rfl
  · rw [Temporal.localDay, hfields, Civil.dayNumber_ofMillis, Civil.weekIso_ofMillis]

end Dates

/-- The week of a value counts from the Monday of the week with the fourth of January, in the year
of the Thursday of its week. All values of a week have the same, in any zone, and those of the next
week have the next one or the first. -/
theorem weekIso_isoWeek (c : Context) {v : Temporal} (h : inRange v.millis = true) :
    ∃ week : Nat, (Dates.weekIso c (.value v)).result = .ok week ∧ 1 ≤ week ∧ week ≤ 53 ∧
      ∃ monday first,
        IsGreatest {m | IsMonday m ∧ m ≤ v.localDay c} monday ∧
        IsGreatest {m | IsMonday m ∧ m ≤ dayNumber (dateOfDay (monday + 3)).year 1 4} first ∧
        (week : Int) = 1 + (monday - first) / 7 ∧ (monday - first) % 7 = 0 ∧
        (∀ (c' : Context) (u : Temporal), inRange u.millis = true →
          monday ≤ u.localDay c' → u.localDay c' ≤ monday + 6 →
          (Dates.weekIso c' (.value u)).result = .ok week) ∧
        ∀ (c' : Context) (u : Temporal), inRange u.millis = true →
          monday + 7 ≤ u.localDay c' → u.localDay c' ≤ monday + 13 →
          ∃ next : Nat, (Dates.weekIso c' (.value u)).result = .ok next ∧
            (next = week + 1 ∨ next = 1) := by
  obtain ⟨week, hresult, hweek⟩ := Dates.result_weekIso c h
  have hbounds := isoWeek_bounds (v.localDay c)
  have hwhole := mondayOf_isoWeek (v.localDay c)
  refine ⟨week, hresult, by omega, by omega, mondayOf (v.localDay c),
    mondayOf (dayNumber (weekYear (v.localDay c)) 1 4), isGreatest_mondayOf _,
    isGreatest_mondayOf _, hweek, by omega, fun c' u hu hle hle' => ?_, fun c' u hu hle hle' => ?_⟩
  · obtain ⟨other, hother, hsame⟩ := Dates.result_weekIso c' hu
    have hmonday : mondayOf (u.localDay c') = mondayOf (v.localDay c) := by
      unfold mondayOf at *
      omega
    rw [isoWeek_congr hmonday] at hsame
    rw [hother, Nat.cast_injective (hsame.trans hweek.symm)]
  · obtain ⟨next, hnext, hlater⟩ := Dates.result_weekIso c' hu
    have hmonday : mondayOf (u.localDay c') = mondayOf (v.localDay c + 7) := by
      unfold mondayOf at *
      omega
    rw [isoWeek_congr hmonday] at hlater
    have hstep := isoWeek_next (v.localDay c)
    exact ⟨next, hnext, by omega⟩

theorem weekIso_isoWeek_sunday :
    inRange 1609632000000 = true ∧
    (Dates.weekIso ⟨.fixed .utc, .fixed 0⟩ (.value (.instant 1609632000000 false))).result =
      .ok 53 ∧
    ∃ next : Nat, (Dates.weekIso ⟨.fixed .utc, .fixed 0⟩
      (.value (.instant 1609718400000 false))).result = .ok next ∧ (next = 54 ∨ next = 1) := by
  have hresult : (Dates.weekIso ⟨.fixed .utc, .fixed 0⟩
      (.value (.instant 1609632000000 false))).result = .ok 53 := by decide +kernel
  have hday : (Temporal.instant 1609632000000 false).localDay ⟨.fixed .utc, .fixed 0⟩ = 18630 := by
    decide +kernel
  have hday' : (Temporal.instant 1609718400000 false).localDay ⟨.fixed .utc, .fixed 0⟩ = 18631 := by
    decide +kernel
  obtain ⟨week, hweek, -, -, monday, first, hmonday, -, -, -, -, hnext⟩ :=
    weekIso_isoWeek ⟨.fixed .utc, .fixed 0⟩ (v := .instant 1609632000000 false) (by decide)
  obtain rfl : week = 53 := Ending.ok.inj (hweek.symm.trans hresult)
  obtain rfl : 18624 = monday := by
    rw [hday] at hmonday
    exact mondayOf_eq hmonday
  exact ⟨by decide, hresult, hnext ⟨.fixed .utc, .fixed 0⟩ (.instant 1609718400000 false)
    (by decide) (by rw [hday']; decide) (by rw [hday']; decide)⟩

example : (Dates.weekIso ⟨.fixed .utc, .fixed 0⟩ (.value (.instant 1609718400000 false))).result =
    .ok 1 := by
  decide +kernel

end Coercion
