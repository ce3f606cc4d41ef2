import Coercion.Proofs.Dates.UnitStarts
import Coercion.Proofs.Reading.FullText

namespace Coercion

open Calendar Text

/-- The instant of a local reading, or the fault of one that is out of range. -/
def Zone.dateOfLocal (z : Zone) (wall : Int) (dateOnly : Bool) : Ending Fault Temporal :=
  .ofExcept (Temporal.ofInstant (z.instantOfLocal? wall) dateOnly)

theorem instantOfText?_of_local (z : Zone) {t : Text} {wall : Int}
    (hread : wallReading? (trim t) = some ⟨wall, none⟩) :
    instantOfText? z t = z.instantOfLocal? wall := by
  rw [instantOfText?, hread, Option.bind_some, WallReading.instant?]
  exact z.filter_instantOfLocal? wall

theorem Shape.ofText_time (w : WrittenTime) : ofText w.text = ⟨w.text, [w.text], false⟩ := by
  have hshape := ofText_timed (by simpa using w.isSolid_text) (List.mem_singleton_self w.text)
  rwa [List.intercalate_singleton] at hshape

theorem Shape.ofText_namedParts {wall : Int} (hyear : 0 ≤ (Civil.ofMillis wall).year)
    (w : WrittenTime) :
    ofText (List.intercalate [' '] (Rendering.namedParts (Civil.ofMillis wall) w)) =
      ⟨List.intercalate [' '] (Rendering.namedParts (Civil.ofMillis wall) w),
        Rendering.namedParts (Civil.ofMillis wall) w, false⟩ := by
  have hsolid : ∀ a ∈ Rendering.namedParts (Civil.ofMillis wall) w, IsSolid a := by
    simpa using Rendering.isSolid_namedParts hyear w none
  have hmem : w.text ∈ Rendering.namedParts (Civil.ofMillis wall) w := by
    simp [Rendering.namedParts]
  exact ofText_timed hsolid hmem

theorem ShapeRule.restateTimeOfDay_eq (today : Civil) {s : Shape} {w : WrittenTime}
    (htext : s.text = w.text) : restateTimeOfDay today s =
      .unchanged (.ofText (List.intercalate [' '] (Rendering.namedParts today w))) := by
  simp [restateTimeOfDay, Rendering.namedParts, htext]

namespace Dates

variable {c : Context}

theorem result_toDate_keyword {t : Text}
    (hfirst : ShapeRule.first? (Shape.ofText t) = some .keyword) :
    (toDate c (.text t)).result = ShapeRule.readKeyword c (trim t) := by
  have hread : ShapeRule.keyword.read c (Shape.ofText t) =
      (ShapeRule.readKeyword c (trim t)).map .value := rfl
  rw [result_toDate_text, hfirst]
  dsimp only
  rw [hread]
  cases ShapeRule.readKeyword c (trim t) <;> rfl

theorem result_toDate_now_eq (c : Context) : (toDate c (.text "now".toList)).result =
    (Ending.orStop (word? (c.now / millisPerSecond * millisPerSecond))).bind fun instant =>
      .ofExcept (Temporal.ofInstant (some instant) false) := by
  have hnow : (trim "now".toList == "now".toList) = true := rfl
  rw [result_toDate_keyword (by decide), ShapeRule.readKeyword, if_pos hnow]

theorem result_toDate_today_eq (c : Context) : (toDate c (.text "today".toList)).result =
    (Ending.orStop (c.today?.bind Civil.midnight?)).bind (c.zone.dateOfLocal · true) := by
  have hother : ¬(trim "today".toList == "now".toList) = true := by decide
  rw [result_toDate_keyword (by decide), ShapeRule.readKeyword, if_neg hother]
  rfl

theorem result_toDate_now (h : inRange c.now = true) : (toDate c (.text "now".toList)).result =
    .ok (.instant (c.now / millisPerSecond * millisPerSecond) false (inRange_floor h)) := by
  have hword := word?_eq_some_iff.mpr ⟨fitsWord_of_inRange (inRange_floor h), rfl⟩
  rw [result_toDate_now_eq, hword, Ending.orStop_some, Ending.bind_ok,
    Temporal.ofInstant_some (inRange_floor h)]
  rfl

theorem result_toDate_today (h : inRange c.now = true) :
    (toDate c (.text "today".toList)).result =
      c.zone.dateOfLocal (c.zone.wallAt c.now / millisPerDay * millisPerDay) true := by
  have hmidnight : c.today.midnight? =
      some (c.zone.wallAt c.now / millisPerDay * millisPerDay) :=
    Civil.midnight?_ofMillis (c.zone.natAbs_wallAt_lt h)
  rw [result_toDate_today_eq, c.today?_of_inRange h, Option.bind_some, hmidnight]
  rfl

theorem result_truncateTo_day (c : Context) {millis : Int} (h : inRange millis = true)
    (dateOnly : Bool) : (truncateTo c .day (.value (.instant millis dateOnly))).result =
      c.zone.dateOfLocal (c.zone.wallAt millis / millisPerDay * millisPerDay) true := by
  rw [truncateTo, result_ofDate_value, Temporal.truncate, Context.localFields, TimeUnit.start_day]
  rfl

theorem result_truncateTo_now (h : inRange c.now = true) :
    (truncateTo c .day (.value (.instant (c.now / millisPerSecond * millisPerSecond) false
        (inRange_floor h)))).result =
      c.zone.dateOfLocal (c.zone.wallAt c.now / millisPerDay * millisPerDay) true := by
  rw [result_truncateTo_day, c.zone.wallAt_floor, floor_ediv_day]

theorem result_toDate_time (h : inRange c.now = true) (hyear : 0 ≤ c.today.year)
    {w : WrittenTime} (hw : w.IsValid) : (toDate c (.text w.text)).result =
      c.zone.dateOfLocal (c.zone.wallAt c.now / millisPerDay * millisPerDay + w.millis)
        false := by
  have hread : ShapeRule.timeOfDay.read c ⟨w.text, [w.text], false⟩ = .ok (.restated
      (.unchanged (.ofText (List.intercalate [' '] (Rendering.namedParts c.today w))))) := by
    rw [ShapeRule.read, c.today?_of_inRange h, Ending.orStop_some, Ending.map_ok,
      ShapeRule.restateTimeOfDay_eq c.today rfl]
  have hrestates : Restates c w.text
      (.unchanged (.ofText (List.intercalate [' '] (Rendering.namedParts c.today w)))) :=
    ⟨.timeOfDay, by rw [Shape.ofText_time, ShapeRule.first?_timeOfDay hw rfl rfl],
      by rw [Shape.ofText_time, hread]⟩
  have hwall := wallReading?_namedParts hyear (c.zone.natAbs_wallAt_lt h) hw none
  rw [WallReading.of?_ofMillis_dayTime, Option.map_none, Option.toList_none, List.append_nil]
    at hwall
  have hnamed := Shape.ofText_namedParts hyear w
  rw [hrestates.result_toDate, Restated.read_unchanged, Context.today, Context.localFields, hnamed]
  dsimp only
  rw [instantOfText?_of_local c.zone hwall]
  rfl

end Dates

/-- The current day is the current instant truncated to its day, or both are out of range. A time
alone is the one of the current day, if the year is not before the year zero. -/
theorem toDate_clockTexts (c : Context) (h : inRange c.now = true) :
    (∃ now, (Dates.toDate c (.text "now".toList)).result = .ok now ∧
      (Dates.toDate c (.text "today".toList)).result =
        (Dates.truncateTo c .day (.value now)).result) ∧
    (Dates.toDate c (.text "today".toList)).result =
      c.zone.dateOfLocal (c.zone.wallAt c.now / millisPerDay * millisPerDay) true ∧
    (0 ≤ c.today.year → ∀ w : WrittenTime, w.IsValid →
      (Dates.toDate c (.text w.text)).result =
        c.zone.dateOfLocal (c.zone.wallAt c.now / millisPerDay * millisPerDay + w.millis)
          false) := by
  have htoday := Dates.result_toDate_today h
  refine ⟨⟨_, Dates.result_toDate_now h, ?_⟩, htoday, fun hyear w hw =>
    Dates.result_toDate_time h hyear hw⟩
  rw [htoday, Dates.result_truncateTo_now h]

theorem toDate_clockTexts_skipped :
    let c : Context := ⟨.host (.daylight ⟨-18000, -14400, ⟨3, 2, 0, 7200⟩, ⟨11, 1, 0, 7200⟩⟩),
      .fixed 1615737600000⟩
    (inRange c.now = true ∧ 0 ≤ c.today.year ∧ (WrittenTime.minute 2 30).IsValid) ∧
    (Dates.toDate c (.text "today".toList)).result = .ok (.instant 1615698000000 true) ∧
    (Dates.toDate c (.text "02:30".toList)).result = .ok (.instant 1615707000000 false) := by
  intro c
  have hrange : inRange c.now = true := by decide
  have hyear : 0 ≤ c.today.year := by decide +kernel
  have hvalid : (WrittenTime.minute 2 30).IsValid := by decide
  obtain ⟨-, htoday, htime⟩ := toDate_clockTexts c hrange
  have hmidnight : c.zone.dateOfLocal (c.zone.wallAt c.now / millisPerDay * millisPerDay) true =
      .ok (.instant 1615698000000 true (by decide)) := by decide +kernel
  have hinstant : c.zone.dateOfLocal (c.zone.wallAt c.now / millisPerDay * millisPerDay +
      (WrittenTime.minute 2 30).millis) false =
        .ok (.instant 1615707000000 false (by decide)) := by
    decide +kernel
  exact ⟨⟨hrange, hyear, hvalid⟩, htoday.trans hmidnight,
    (htime hyear _ hvalid).trans hinstant⟩

end Coercion
