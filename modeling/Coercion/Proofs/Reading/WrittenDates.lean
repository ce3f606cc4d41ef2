import Coercion.Proofs.Calendar.Readings
import Coercion.Proofs.Reading.Layouts
import Coercion.Proofs.Reading.Restatements
import Coercion.Proofs.Time.Offsets

namespace Coercion

open Calendar Text

namespace Zone

theorem exists_instantOfLocal?_eq (z : Zone) {wall : Int} (h : wall.natAbs < 1000000000000000) :
    ∃ instant, z.instantOfLocal? wall = some instant := by
  obtain ⟨hlo, hhi⟩ := (z.offsetOfLocal wall).inRange
  have hrange : inRange (wall - (z.offsetOfLocal wall).millis) = true := by
    simp only [inRange, Bool.and_eq_true, decide_eq_true_eq]
    unfold maxInstant millisPerDay Offset.millis millisPerMinute
    omega
  exact ⟨_, if_pos hrange⟩

end Zone

inductive IsWritten (month day : Nat) : Nat → Option WrittenTime → Text → Prop
  | yearMonthDay (year : Nat) (w : Option WrittenTime) : IsWritten month day year w
      (ofNatPadded 4 year ++ '-' :: (ofNatPadded 2 month ++ '-' :: ofNatPadded 2 day) ++
        WrittenTime.suffix w)
  | slashedMonthDayYear (year : Nat) (w : Option WrittenTime) : IsWritten month day year w
      (ofNatPadded 2 month ++ '/' :: (ofNatPadded 2 day ++ '/' :: ofNatPadded 4 year) ++
        WrittenTime.suffix w)
  | monthDayYear (year : Nat) (w : Option WrittenTime) : IsWritten month day year w
      (ofNatPadded 2 month ++ '-' :: (ofNatPadded 2 day ++ '-' :: ofNatPadded 4 year) ++
        WrittenTime.suffix w)
  | dayMonthNameYear (year : Nat) (w : Option WrittenTime) {name : Text}
      (hname : IsMonthName month name) : IsWritten month day year w
      (ofNatPadded 2 day ++ '-' :: (name ++ '-' :: ofNatPadded 4 year) ++ WrittenTime.suffix w)
  | dottedYearMonthDay (year : Nat) (w : Option WrittenTime) : IsWritten month day year w
      (ofNatPadded 4 year ++ '.' :: (ofNatPadded 2 month ++ '.' :: ofNatPadded 2 day) ++
        WrittenTime.suffix w)
  | underscoredYearMonthDay (year : Nat) (w : Option WrittenTime) : IsWritten month day year w
      (ofNatPadded 4 year ++ '_' :: (ofNatPadded 2 month ++ '_' :: ofNatPadded 2 day) ++
        WrittenTime.suffix w)
  | packedYearMonthDay (year : Nat) (w : Option WrittenTime) : IsWritten month day year w
      (ofNatPadded 4 year ++ (ofNatPadded 2 month ++ ofNatPadded 2 day) ++ WrittenTime.suffix w)
  | dottedDayMonthYear (year : Nat) (w : Option WrittenTime) : IsWritten month day year w
      (ofNatPadded 2 day ++ '.' :: (ofNatPadded 2 month ++ '.' :: ofNatPadded 4 year) ++
        WrittenTime.suffix w)
  | yearMonthNameDay (year : Nat) (w : Option WrittenTime) {name : Text}
      (hname : IsMonthName month name) : IsWritten month day year w
      (ofNatPadded 4 year ++ '-' :: (name ++ '-' :: ofNatPadded 2 day) ++ WrittenTime.suffix w)
  | monthNameDayYear (year : Nat) (w : Option WrittenTime) {name : Text}
      (hname : IsMonthName month name) : IsWritten month day year w
      (name ++ '-' :: (ofNatPadded 2 day ++ '-' :: ofNatPadded 4 year) ++ WrittenTime.suffix w)
  | packedDateTime (year hour minute second : Nat) :
      IsWritten month day year (some (.second hour minute second))
      (ofNatPadded 4 year ++ (ofNatPadded 2 month ++ (ofNatPadded 2 day ++ 'T' ::
        (ofNatPadded 2 hour ++ (ofNatPadded 2 minute ++ ofNatPadded 2 second)))))
  | slashedMonthDayShortYear {yy : Nat} (hyy : yy < 100) (w : Option WrittenTime) :
      IsWritten month day (2000 + yy) w
      (ofNatPadded 2 month ++ '/' :: (ofNatPadded 2 day ++ '/' :: ofNatPadded 2 yy) ++
        WrittenTime.suffix w)
  | monthDayShortYear {yy : Nat} (hyy : yy < 100) (w : Option WrittenTime) :
      IsWritten month day (2000 + yy) w
      (ofNatPadded 2 month ++ '-' :: (ofNatPadded 2 day ++ '-' :: ofNatPadded 2 yy) ++
        WrittenTime.suffix w)
  | packedMonthDayYear {yy : Nat} (hyy : yy < 100) (w : Option WrittenTime) :
      IsWritten month day (2000 + yy) w
      (ofNatPadded 2 month ++ (ofNatPadded 2 day ++ ofNatPadded 2 yy) ++ WrittenTime.suffix w)

namespace IsWritten

variable {c : Context} {year month day : Nat} {w : Option WrittenTime} {t : Text}

theorem exists_restated (h : IsWritten month day year w t) (hyear : year < 10000)
    (hmonth : month < 100) (hday : day < 100) (hw : ∀ v ∈ w, v.IsValid) :
    ∃ u, Restates c t ⟨u, .ofInt day, .ofInt month, .ofInt year, w.isNone⟩ ∧
      wallReading? (trim u) =
        WallReading.of? ⟨year, month, day⟩ (WrittenTime.suffixTime w) none := by
  have hy := isDigits_ofNatPadded (k := 4) (by decide) hyear
  have hm := isDigits_ofNatPadded (k := 2) (by decide) hmonth
  have hd := isDigits_ofNatPadded (k := 2) (by decide) hday
  have hmidnight : (w.getD (.second 0 0 0)).IsValid ∧
      (w.getD (.second 0 0 0)).dayTime = WrittenTime.suffixTime w := by
    cases w with
    | none => decide
    | some w => exact ⟨hw w rfl, rfl⟩
  have hiso := wallReading?_iso hy hm hd hmidnight.1 (.inr rfl)
  have hmonthFirst {s : Char} (hs) := wallReading?_monthFirst hy hm hd hw (s := s) hs
  have hyearFirst := wallReading?_yearFirst hy hm hd hw
  have hnamed {name : Text} (hname : IsMonthName month name) := wallReading?_named hy hd hw hname
  simp only [toNat_ofNatPadded, hmidnight.2] at hiso hmonthFirst hyearFirst hnamed
  cases h with
  | yearMonthDay =>
    exact ⟨_, by simpa only [toNat_ofNatPadded] using Restates.yearMonthDay hy hd w hm, hiso⟩
  | slashedMonthDayYear =>
    exact ⟨_, by simpa only [toNat_ofNatPadded] using Restates.monthDayYear hd w hm hy (.inl rfl),
      hmonthFirst (.inl rfl)⟩
  | monthDayYear =>
    exact ⟨_, by simpa only [toNat_ofNatPadded] using Restates.monthDayYear hd w hm hy (.inr rfl),
      hmonthFirst (.inr rfl)⟩
  | dayMonthNameYear _ _ hname =>
    exact ⟨_, by simpa only [toNat_ofNatPadded] using Restates.dayMonthNameYear hy hd w hname,
      hnamed hname⟩
  | dottedYearMonthDay =>
    exact ⟨_, by simpa only [toNat_ofNatPadded] using Restates.dottedYearMonthDay hy hd w hm,
      hyearFirst⟩
  | underscoredYearMonthDay =>
    exact ⟨_, by simpa only [toNat_ofNatPadded] using Restates.underscoredYearMonthDay hy hd w hm,
      hyearFirst⟩
  | packedYearMonthDay =>
    exact ⟨_, by simpa only [toNat_ofNatPadded] using Restates.packedYearMonthDay hy hd w hm, hiso⟩
  | dottedDayMonthYear =>
    exact ⟨_, by simpa only [toNat_ofNatPadded] using Restates.dottedDayMonthYear hy hd w hm,
      hmonthFirst (.inl rfl)⟩
  | yearMonthNameDay _ _ hname =>
    exact ⟨_, by simpa only [toNat_ofNatPadded] using Restates.yearMonthNameDay hy hd w hname,
      hnamed hname⟩
  | monthNameDayYear _ _ hname =>
    exact ⟨_, by simpa only [toNat_ofNatPadded] using Restates.monthNameDayYear hy hd w hname,
      hnamed hname⟩
  | packedDateTime _ hour minute second =>
    obtain ⟨hhour, hminute, hsecond⟩ := hw _ rfl
    dsimp only [WrittenTime.dayTime] at hhour hminute hsecond
    have hrestates := Restates.packedDateTime (c := c) hy hd hm
      (isDigits_ofNatPadded (k := 2) (n := hour) (by decide) (by omega))
      (isDigits_ofNatPadded (k := 2) (n := minute) (by decide) (by omega))
      (isDigits_ofNatPadded (k := 2) (n := second) (by decide) (by omega))
    have hread := wallReading?_iso hy hm hd (hw _ rfl) (.inl rfl)
    simp only [toNat_ofNatPadded, WrittenTime.text, List.append_assoc,
      List.cons_append] at hrestates hread
    exact ⟨_, hrestates, hread⟩
  | slashedMonthDayShortYear hyy =>
    have hrestates := Restates.monthDayShortYear (c := c) hd w hm
      (isDigits_ofNatPadded (k := 2) (by decide) hyy) (.inl rfl)
    rw [ofNatPadded_century _ hyy] at hrestates
    exact ⟨_, by simpa only [toNat_ofNatPadded] using hrestates, hmonthFirst (.inl rfl)⟩
  | monthDayShortYear hyy =>
    have hrestates := Restates.monthDayShortYear (c := c) hd w hm
      (isDigits_ofNatPadded (k := 2) (by decide) hyy) (.inr rfl)
    rw [ofNatPadded_century _ hyy] at hrestates
    exact ⟨_, by simpa only [toNat_ofNatPadded] using hrestates, hmonthFirst (.inr rfl)⟩
  | packedMonthDayYear hyy =>
    have hrestates := Restates.packedMonthDayYear (c := c) hd w hm
      (isDigits_ofNatPadded (k := 2) (by decide) hyy)
    rw [ofNatPadded_century _ hyy] at hrestates
    exact ⟨_, by simpa only [toNat_ofNatPadded] using hrestates, hmonthFirst (.inl rfl)⟩

end IsWritten

def writtenWall (year month day : Nat) (w : Option WrittenTime) : Int :=
  dayNumber year month day * millisPerDay + (WrittenTime.suffixTime w).hour * millisPerHour +
    (WrittenTime.suffixTime w).minute * millisPerMinute +
    (WrittenTime.suffixTime w).second * millisPerSecond

section

variable {year month day : Nat} {w : Option WrittenTime}

theorem natAbs_writtenWall_lt (hyear : year < 10000) (hvalid : isValidDate day month year = true)
    (hw : ∀ v ∈ w, v.IsValid) : (writtenWall year month day w).natAbs < 1000000000000000 := by
  obtain ⟨hm, hm', hd, hd'⟩ := Date.IsValid.bounds (d := ⟨year, month, day⟩) hvalid
  dsimp only at hm hm' hd hd'
  have htime : (WrittenTime.suffixTime w).hour < 24 ∧ (WrittenTime.suffixTime w).minute < 60 ∧
      (WrittenTime.suffixTime w).second < 60 := by
    cases w with
    | none => decide
    | some w => exact hw w rfl
  unfold writtenWall millisPerDay millisPerHour millisPerMinute millisPerSecond
  rw [dayNumber_eq]
  unfold daysBefore marchYear
  split_ifs <;> omega

theorem of?_of_isValidDate (hvalid : isValidDate day month year = true) :
    WallReading.of? ⟨year, month, day⟩ (WrittenTime.suffixTime w) none =
      some ⟨writtenWall year month day w, none⟩ := by
  obtain ⟨hm, hm', hd, hd'⟩ := Date.IsValid.bounds (d := ⟨year, month, day⟩) hvalid
  dsimp only at hm hm' hd hd'
  have hmillis : (WrittenTime.suffixTime w).millisecond = 0 := by
    obtain _ | w | w := w <;> rfl
  rw [WallReading.of?, if_pos ⟨hm, hm', hd, hd'⟩]
  dsimp only
  rw [carriedMillis, carriedDay_eq (by omega) (by omega), hmillis, writtenWall, Nat.cast_zero,
    add_zero]

end

/-- All shapes of dates agree: a date that exists is the instant of its local reading, and one that
does not is refused. -/
theorem toDate_isWritten (c : Context) {year month day : Nat} {w : Option WrittenTime} {t : Text}
    (ht : IsWritten month day year w t) (hyear : year < 10000) (hmonth : month < 100)
    (hday : day < 100) (hw : ∀ v ∈ w, v.IsValid) :
    (isValidDate day month year = true → ∃ (instant : Int) (_ : inRange instant = true),
      c.zone.instantOfLocal? (writtenWall year month day w) = some instant ∧
        (Dates.toDate c (.text t)).result = .ok (.instant instant w.isNone)) ∧
    (day = 0 → (Dates.toDate c (.text t)).result = .error .invalidDate) ∧
    (day ≠ 0 → isValidDate day month year = false →
      (Dates.toDate c (.text t)).result = .error .invalidDayMonth) := by
  obtain ⟨u, hrestates, hread⟩ := ht.exists_restated (c := c) hyear hmonth hday hw
  rw [hrestates.result_toDate,
    Restated.read_of_integers rfl rfl rfl (by omega) (by omega) (by omega), instantOfText?, hread]
  refine ⟨fun hvalid => ?_, fun hzero => ?_, fun hzero hvalid => ?_⟩
  · have hbound := natAbs_writtenWall_lt hyear hvalid hw
    obtain ⟨instant, hinstant⟩ := c.zone.exists_instantOfLocal?_eq hbound
    have hrange := Zone.instantOfLocal?_eq_some hinstant
    refine ⟨instant, hrange, hinstant, ?_⟩
    rw [if_neg (by simp [hvalid]), of?_of_isValidDate hvalid, Option.bind_some,
      WallReading.instant?, Zone.filter_instantOfLocal?, hinstant, Temporal.ofInstant_some hrange]
    rfl
  · rw [if_neg (by omega), WallReading.of?, if_neg (by simp [hzero])]
    rfl
  · rw [if_pos ⟨by omega, hvalid⟩]
    rfl

theorem toDate_isWritten_leapDay :
    IsWritten 2 29 2024 (some (.minute 23 59)) "fEB-29-2024 23:59".toList ∧
      (Dates.toDate ⟨.fixed .utc, .fixed 0⟩ (.text "fEB-29-2024 23:59".toList)).result =
        .ok (.instant 1709251140000 false) := by
  have hname : IsMonthName 2 "fEB".toList := ⟨by decide, "Feb", rfl, by decide⟩
  have hwritten : IsWritten 2 29 2024 (some (.minute 23 59)) "fEB-29-2024 23:59".toList :=
    .monthNameDayYear 2024 _ hname
  obtain ⟨instant, _, hinstant, hresult⟩ := (toDate_isWritten ⟨.fixed .utc, .fixed 0⟩ hwritten
    (by decide) (by decide) (by decide) (by simp; decide)).1 (by decide)
  obtain rfl : 1709251140000 = instant := Option.some.inj hinstant
  exact ⟨hwritten, hresult⟩

end Coercion
