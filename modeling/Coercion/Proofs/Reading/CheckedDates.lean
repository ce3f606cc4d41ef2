import Coercion.Proofs.Reading.MarkedRules

namespace Coercion

open Calendar Text

theorem Calendar.dateOfDay_other_year {day month : Nat} {other : Int}
    (h : isValidDate day month other = true) (year : Int) :
    dateOfDay (dayNumber year month day) =
      if month = 2 ∧ day = 29 ∧ isLeapYear year = false then ⟨year, 3, 1⟩
      else ⟨year, month, day⟩ := by
  obtain ⟨hm, hm', hd, hd'⟩ := (Date.isValid_iff ⟨other, month, day⟩).mp h
  dsimp only at hm hm' hd hd'
  by_cases hleap : month = 2 ∧ day = 29 ∧ isLeapYear year = false
  · rw [if_pos hleap]
    obtain ⟨rfl, rfl, hyear⟩ := hleap
    have hmarch : (⟨year, 3, 1⟩ : Date).IsValid := by simp [Date.isValid_iff, daysInMonth]
    rw [← dateOfDay_number hmarch]
    congr 1
    have hfeb := daysBefore_succ year
    simp only [leapDay, hyear, Bool.false_eq_true, if_false] at hfeb
    rw [Date.number, dayNumber_eq, dayNumber_eq]
    simp [marchYear]
    omega
  · rw [if_neg hleap]
    refine dateOfDay_number (d := ⟨year, month, day⟩) ((Date.isValid_iff _).mpr ⟨hm, hm', hd, ?_⟩)
    have hlen : ∀ y, daysInMonth y month = if month = 2 then (if isLeapYear y then 29 else 28)
        else daysInMonth 0 month := by
      intro y
      interval_cases month <;> simp [daysInMonth]
    rw [hlen] at hd' ⊢
    by_cases hfeb : month = 2
    · rw [if_pos hfeb] at hd' ⊢
      cases hyear : isLeapYear year with
      | true => simp; split_ifs at hd' <;> omega
      | false =>
        have : day ≠ 29 := fun h29 => hleap ⟨hfeb, h29, hyear⟩
        simp
        split_ifs at hd' <;> omega
    · rwa [if_neg hfeb] at hd' ⊢

theorem Zone.wallAt_of_instantOfLocal? {o : Offset} {wall instant : Int}
    (h : (fixed o).instantOfLocal? wall = some instant) : (fixed o).wallAt instant = wall := by
  unfold instantOfLocal? at h
  dsimp only at h
  split_ifs at h with hrange
  obtain rfl := Option.some.inj h
  exact Int.sub_add_cancel wall o.millis

theorem Restated.exists_reading {c : Context} {r : Restated} {v : Temporal}
    (h : r.read c = .ok v) : r.check = .ok () ∧
      ∃ reading, wallReading? (trim r.text) = some reading ∧
        reading.instant? c.zone = some v.millis := by
  unfold read at h
  split at h
  · cases h
  · next hcheck =>
    obtain ⟨instant, -, hinstant, rfl⟩ := Temporal.ofInstant_eq_ok_iff.mp h
    rw [instantOfText?, Option.filter_eq_some_iff, Option.bind_eq_some_iff] at hinstant
    obtain ⟨⟨reading, hreading, hinstant⟩, -⟩ := hinstant
    exact ⟨hcheck, reading, hreading, hinstant⟩

theorem Restated.isDateOnly_of_read {c : Context} {r : Restated} {v : Temporal}
    (h : r.read c = .ok v) : v.isDateOnly = r.dateOnly := by
  unfold read at h
  split at h
  · cases h
  · obtain ⟨instant, -, -, rfl⟩ := Temporal.ofInstant_eq_ok_iff.mp h
    rfl

/-- The local month and day of an accepted text are those that its rule checked. The one exception
is a leap day in a year without one, which becomes the first of March. -/
theorem toDate_checked_date {c : Context} {o : Offset} {t : Text} {r : Restated} {v : Temporal}
    (hzone : c.zone = .fixed o) (hr : Restates c t r) (hpos : r.day.isPositive = true)
    (hlocal : Loose.statesZone false (Loose.tokens (trim r.text)) = false)
    (hok : (Dates.toDate c (.text t)).result = .ok v) :
    ∃ month day : Nat, r.month = .ofInt month ∧ r.day = .ofInt day ∧
      ((c.localFields v.millis).month, (c.localFields v.millis).day) =
        if month = 2 ∧ day = 29 ∧ isLeapYear (c.localFields v.millis).year = false then (3, 1)
        else (month, day) := by
  rw [hr.result_toDate, Ending.ofExcept_eq_ok] at hok
  obtain ⟨hcheck, reading, hreading, hinstant⟩ := Restated.exists_reading hok
  obtain ⟨hoffset, date, hof, hmonth, hday⟩ :=
    (hr.marked hcheck hpos).agrees hlocal hreading hcheck hpos
  refine ⟨date.month, date.day, hmonth, hday, ?_⟩
  obtain ⟨hm, hm', hd, hd', hwall⟩ := hof.wall_div
  obtain ⟨-, -, -, day, month, year, hday', hmonth', hvalid⟩ := Restated.check_eq_ok hcheck hpos
  rw [hday, Double.integer?_ofInt (by omega)] at hday'
  rw [hmonth, Double.integer?_ofInt (by omega)] at hmonth'
  obtain rfl := Option.some.inj hday'
  obtain rfl := Option.some.inj hmonth'
  rw [WallReading.instant?, hoffset, hzone] at hinstant
  have hfields : c.localFields v.millis = Civil.ofMillis reading.wall := by
    rw [Context.localFields, hzone, Zone.wallAt_of_instantOfLocal? hinstant]
  have hdate := Civil.ofMillis_date reading.wall
  rw [hwall, dateOfDay_other_year hvalid] at hdate
  rw [hfields]
  generalize Civil.ofMillis reading.wall = fields at hdate ⊢
  by_cases hleap : date.month = 2 ∧ date.day = 29 ∧ isLeapYear date.year = false
  · rw [if_pos hleap] at hdate
    obtain ⟨hy, hm, hd⟩ := (Date.mk.injEq ..).mp hdate
    rw [hy, if_pos hleap, hm, hd]
  · rw [if_neg hleap] at hdate
    obtain ⟨hy, hm, hd⟩ := (Date.mk.injEq ..).mp hdate
    rw [hy, if_neg hleap, hm, hd]

theorem toDate_checked_date_leapDay :
    let c : Context := ⟨.fixed .utc, .fixed 0⟩
    let t : Text := "29-feb-2020 12:30".toList
    let r := ShapeRule.restateDayMonthNameYear (.ofText t)
    let v : Temporal := .instant 1582979400000 false
    (c.zone = .fixed .utc ∧ Restates c t r ∧ r.day.isPositive = true ∧
      Loose.statesZone false (Loose.tokens (trim r.text)) = false ∧
      (Dates.toDate c (.text t)).result = .ok v) ∧
    ∃ month day : Nat, r.month = .ofInt month ∧ r.day = .ofInt day ∧
      ((c.localFields v.millis).month, (c.localFields v.millis).day) =
        if month = 2 ∧ day = 29 ∧ isLeapYear (c.localFields v.millis).year = false then (3, 1)
        else (month, day) := by
  intro c t r v
  have hr : Restates c t r := ⟨.dayMonthNameYear, by decide +kernel, rfl⟩
  have hpos : r.day.isPositive = true := by decide +kernel
  have hlocal : Loose.statesZone false (Loose.tokens (trim r.text)) = false := by decide +kernel
  have hok : (Dates.toDate c (.text t)).result = .ok v := by decide +kernel
  exact ⟨⟨rfl, hr, hpos, hlocal, hok⟩, toDate_checked_date rfl hr hpos hlocal hok⟩

theorem toDate_unchecked_year : ¬ ∀ (c : Context) (o : Offset) (t : Text) (r : Restated)
    (v : Temporal) (month day : Nat), c.zone = .fixed o → Restates c t r →
    r.day.isPositive = true → r.month = .ofInt month → r.day = .ofInt day →
    Loose.statesZone false (Loose.tokens (trim r.text)) = false →
    (Dates.toDate c (.text t)).result = .ok v →
    (c.localFields v.millis).month = month ∧ (c.localFields v.millis).day = day := by
  intro h
  have hr : Restates ⟨.fixed .utc, .fixed 0⟩ "29-feb-20200".toList
      (ShapeRule.restateDayMonthNameYear (.ofText "29-feb-20200".toList)) :=
    ⟨.dayMonthNameYear, by decide +kernel, rfl⟩
  have hday := h _ .utc _ _ (.instant 575288352000000 true) 2 29 rfl hr (by decide +kernel)
    (by decide +kernel) (by decide +kernel) (by decide +kernel) (by decide +kernel)
  exact absurd hday (by decide +kernel)

end Coercion
