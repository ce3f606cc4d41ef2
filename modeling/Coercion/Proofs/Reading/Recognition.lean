import Coercion.Proofs.Double.Integers
import Coercion.Reporting.Dates

namespace Coercion

open Calendar

theorem clampWord_of_natAbs_lt {n : Int} (h : n.natAbs < 9007199254740992) : clampWord n = n := by
  unfold clampWord leastWord greatestWord
  omega

namespace Restated

theorem check_unchanged (s : Shape) : (unchanged s).check = .ok () := by
  have hnan : Double.zero.isNaN = false := Double.isNaN_ofInt (n := 0) (by decide)
  have hpos : Double.zero.isPositive = false := Double.isPositive_ofInt (n := 0) (by decide)
  simp [check, unchanged, hnan, hpos]

/-- A restated text whose parts are integers is checked for the date that they make up, if the
day is not zero. -/
theorem check_of_integers {r : Restated} {day month year : Int} (hday : r.day = .ofInt day)
    (hmonth : r.month = .ofInt month) (hyear : r.year = .ofInt year)
    (hd : day.natAbs < 9007199254740992) (hm : month.natAbs < 9007199254740992)
    (hy : year.natAbs < 9007199254740992) :
    r.check = if 0 < day ∧ isValidDate day month year = false then .error .invalidDayMonth
      else .ok () := by
  unfold check
  rw [hday, hmonth, hyear, Double.isNaN_ofInt hd, Double.isNaN_ofInt hm, Double.isNaN_ofInt hy,
    Double.isPositive_ofInt hd, Double.integer?_ofInt hd, Double.integer?_ofInt hm,
    Double.integer?_ofInt hy]
  simp only [clampWord_of_natAbs_lt hd, clampWord_of_natAbs_lt hm, clampWord_of_natAbs_lt hy]
  by_cases hpos : 0 < day
  · cases hvalid : isValidDate day month year <;> simp [hpos]
  · simp [hpos]

theorem read_unchanged (s : Shape) (c : Context) :
    (unchanged s).read c = Temporal.ofInstant (instantOfText? c.zone s.text) s.dateOnly := by
  rw [read, check_unchanged]
  rfl

theorem read_of_integers {r : Restated} {day month year : Int} (hday : r.day = .ofInt day)
    (hmonth : r.month = .ofInt month) (hyear : r.year = .ofInt year)
    (hd : day.natAbs < 9007199254740992) (hm : month.natAbs < 9007199254740992)
    (hy : year.natAbs < 9007199254740992) (c : Context) :
    r.read c = if 0 < day ∧ isValidDate day month year = false then .error .invalidDayMonth
      else Temporal.ofInstant (instantOfText? c.zone r.text) r.dateOnly := by
  rw [read, check_of_integers hday hmonth hyear hd hm hy]
  split_ifs <;> rfl

end Restated

namespace Dates

theorem result_toDate_text (c : Context) (t : Text) : (toDate c (.text t)).result =
    match ShapeRule.first? (Shape.ofText t) with
    | none => .ofExcept ((Restated.unchanged (Shape.ofText t)).read c)
    | some rule => match rule.read c (Shape.ofText t) with
      | .error e => .error e
      | .stopped => .stopped
      | .ok (.value v) => .ok v
      | .ok (.restated r) => .ofExcept (r.read c) := by
  rw [toDate, Report.result_reported, readDate, readText]
  cases ShapeRule.first? (Shape.ofText t) with
  | none => rfl
  | some rule =>
    dsimp only
    rw [Report.result_bind, Report.result_ofEnding]
    cases rule.read c (Shape.ofText t) with
    | error e => rfl
    | stopped => rfl
    | ok recognition => cases recognition <;> rfl

end Dates

theorem Recognition.map_value_ne (x : Ending Fault Temporal) (r : Restated) :
    x.map .value ≠ .ok (restated r) := by
  cases x <;> simp

theorem Recognition.map_restated_ne {α : Type} (f : α → Restated) (x : Ending Fault α)
    (v : Temporal) : x.map (fun a => restated (f a)) ≠ .ok (value v) := by
  cases x <;> simp

theorem Recognition.eq_of_restated {q r : Restated}
    (h : (.ok (restated q) : Ending Fault Recognition) = .ok (restated r)) : q = r :=
  restated.inj (Ending.ok.inj h)

theorem Recognition.of_map_value {x : Ending Fault Temporal} {v : Temporal}
    (h : x.map .value = .ok (value v)) : x = .ok v := by
  cases x with
  | error e => cases h
  | stopped => cases h
  | ok w => rw [Recognition.value.inj (Ending.ok.inj h)]

/-- A rule takes a day, a month and a year out of a text and restates it. -/
def Restates (c : Context) (t : Text) (r : Restated) : Prop :=
  ∃ rule, ShapeRule.first? (Shape.ofText t) = some rule ∧
    rule.read c (Shape.ofText t) = .ok (.restated r)

theorem Restates.result_toDate {c : Context} {t : Text} {r : Restated} (h : Restates c t r) :
    (Dates.toDate c (.text t)).result = .ofExcept (r.read c) := by
  obtain ⟨rule, hfirst, hread⟩ := h
  rw [Dates.result_toDate_text, hfirst]
  dsimp only
  rw [hread]

end Coercion
