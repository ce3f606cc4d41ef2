import Coercion.Proofs.Reading.ClockTexts
import Coercion.Proofs.Reading.WrittenDates

namespace Coercion

open Calendar Text

section

variable {c : Context} {t : Text} {wall : Int}

theorem Restated.read_of_local {r : Restated} (hcheck : r.check = .ok ())
    (hread : wallReading? (trim r.text) = some ⟨wall, none⟩) :
    .ofExcept (r.read c) = c.zone.dateOfLocal wall r.dateOnly := by
  rw [Restated.read, hcheck, instantOfText?_of_local c.zone hread]
  rfl

theorem Restates.result_of_local {day month year : Nat} {u : Text} {dateOnly : Bool}
    (h : Restates c t ⟨u, .ofInt day, .ofInt month, .ofInt year, dateOnly⟩)
    (hvalid : isValidDate day month year = true) (hyear : year < 10000)
    (hread : wallReading? (trim u) = some ⟨wall, none⟩) :
    (Dates.toDate c (.text t)).result = c.zone.dateOfLocal wall dateOnly := by
  obtain ⟨-, hm, -, hd⟩ := Date.IsValid.bounds (d := ⟨year, month, day⟩) hvalid
  dsimp only at hm hd
  have hcheck := Restated.check_of_integers
    (r := ⟨u, .ofInt day, .ofInt month, .ofInt year, dateOnly⟩) rfl rfl rfl (by omega) (by omega)
    (by omega)
  rw [if_neg (by simp [hvalid])] at hcheck
  rw [h.result_toDate, Restated.read_of_local hcheck hread]

theorem IsWritten.result_toDate {year month day : Nat} {w : Option WrittenTime}
    (ht : IsWritten month day year w t) (hyear : year < 10000)
    (hvalid : isValidDate day month year = true) (hw : ∀ v ∈ w, v.IsValid)
    (hof : WallReading.of? ⟨year, month, day⟩ (WrittenTime.suffixTime w) none =
      some ⟨wall, none⟩) :
    (Dates.toDate c (.text t)).result = c.zone.dateOfLocal wall w.isNone := by
  obtain ⟨-, hm, -, hd⟩ := Date.IsValid.bounds (d := ⟨year, month, day⟩) hvalid
  dsimp only at hm hd
  obtain ⟨u, hrestates, hread⟩ := ht.exists_restated (c := c) hyear (by omega) (by omega) hw
  exact hrestates.result_of_local hvalid hyear (hread.trans hof)

end

theorem Civil.exists_natYear {wall : Int}
    (h : 0 ≤ (ofMillis wall).year ∧ (ofMillis wall).year ≤ 9999) : ∃ year : Nat, year < 10000 ∧
      (ofMillis wall).year = year :=
  ⟨(ofMillis wall).year.toNat, by omega, by omega⟩

theorem WallReading.of?_midnight (wall : Int) : of? ⟨(Civil.ofMillis wall).year,
    (Civil.ofMillis wall).month, (Civil.ofMillis wall).day⟩ .midnight none =
      some ⟨wall / millisPerDay * millisPerDay, none⟩ := by
  have hof := of?_ofMillis_dayTime wall (.second 0 0 0) none
  have hzero : (WrittenTime.second 0 0 0).millis = 0 := rfl
  rw [hzero, add_zero] at hof
  exact hof

/-- The midnights of the years from 0 to 9999 are dates in every zone. -/
theorem Zone.exists_dateOfLocal_midnight (z : Zone) {wall : Int}
    (h : 0 ≤ (Civil.ofMillis wall).year ∧ (Civil.ofMillis wall).year ≤ 9999) :
    ∃ v, z.dateOfLocal (wall / millisPerDay * millisPerDay) true = .ok v := by
  obtain ⟨year, hlt, hnat⟩ := Civil.exists_natYear h
  have hvalid := Civil.ofMillis_isValid wall
  have hof := WallReading.of?_midnight wall
  rw [hnat] at hvalid hof
  have hwritten := of?_of_isValidDate (w := none) hvalid
  obtain ⟨hwall, -⟩ := WallReading.mk.inj (Option.some.inj (hwritten.symm.trans hof))
  obtain ⟨instant, hinstant⟩ :=
    z.exists_instantOfLocal?_eq (natAbs_writtenWall_lt (w := none) hlt hvalid (by simp))
  rw [hwall] at hinstant
  have hrange := instantOfLocal?_eq_some hinstant
  exact ⟨.instant instant true, by rw [dateOfLocal, hinstant, Temporal.ofInstant_some hrange]; rfl⟩

end Coercion
