import Coercion.Proofs.Calendar.Years
import Coercion.Proofs.Reading.LooseWords
import Coercion.Proofs.Reading.ShortYears

namespace Coercion

open Calendar Text

/-- The year that a reader makes of the shortest text of a year. -/
def readYear (year : Nat) : Nat :=
  if year < 100 then windowYear year else year

theorem lt_readYear {year : Nat} (h : year < 100) : year < readYear year := by
  unfold readYear windowYear
  split_ifs <;> omega

theorem readYear_lt {year : Nat} (h : year < 10000) : readYear year < 10000 := by
  unfold readYear windowYear
  split_ifs <;> omega

theorem isValidDate_readYear (day month year : Nat) :
    isValidDate day month (readYear year) = isValidDate day month year := by
  unfold readYear
  split_ifs with h
  · obtain ⟨hleap, hwindow⟩ := isLeapYear_of_twoDigits year h
    exact isValidDate_congr (hwindow.trans hleap.symm) day month
  · rfl

theorem Loose.year?_ofNat {year : Nat} (h : year < 1000000) :
    year? (ofNat year) = some (readYear year : Int) := by
  have hlen (k : Nat) (hk : 0 < k) : (ofNat year).length ≤ k ↔ year < 10 ^ k :=
    Nat.length_toDigits_le_iff (by decide) hk
  have htwo : (ofNat year).length ≤ 2 ↔ year < 100 := hlen 2 (by decide)
  have hsix := (hlen 6 (by decide)).mpr h
  have hnumber : number? 6 (ofNat year) = some (toNat (ofNat year)) :=
    number?_of_isNumber (List.ne_nil_of_length_pos Nat.length_toDigits_pos) (isNumber_ofNat year)
      hsix
  simp only [year?, hnumber, toNat_ofNat, htwo, readYear, windowYear]
  split_ifs <;> simp [add_comm] <;> omega

section

variable {month day : Text} (hmonth : IsDigits 2 month) (hday : IsDigits 2 day) {s : Char}
  (hs : s = '/' ∨ s = '-') (w : Option WrittenTime)

include hmonth hday hs

theorem ShapeRule.first?_monthDay :
    first? (Shape.dated (month ++ s :: day) w) = some monthDay := by
  have hdate : IsDateText (month ++ s :: day) := by
    obtain rfl | rfl := hs <;> simp [hday.isDateText, hmonth.isDateText]
  have htokens : IntervalText.recognizes (Shape.dated (month ++ s :: day) w).tokens = false :=
    IntervalText.recognizes_dated _ w
  have hascii := Shape.isAscii_dated hdate w
  obtain ⟨m₁, m₂, rfl, hm₁, hm₂⟩ := hmonth.exists_two
  obtain ⟨d₁, d₂, rfl, hd₁, hd₂⟩ := hday.exists_two
  simp only [first?, all, List.find?_cons, recognizes, Shape.has, hascii.hasAt_eq, htokens]
  cases w with
  | none => obtain rfl | rfl := hs <;> simp [Shape.dated, WrittenTime.suffix, beq_of_isDigit, *]
  | some w =>
    obtain ⟨h₁, t, htext, hh₁⟩ := w.startsWithDigit_text
    obtain rfl | rfl := hs <;> simp [Shape.dated, WrittenTime.suffix, beq_of_isDigit, *]

theorem Restates.monthDay {c : Context} {year : Nat} (htoday : c.today.year = year)
    (hlt : year < 10000) :
    Restates c (month ++ s :: day ++ WrittenTime.suffix w)
      ⟨month ++ s :: (day ++ s :: ofNat year) ++ WrittenTime.suffix w, .ofInt (toNat day),
        .ofInt (toNat month), .ofInt year, w.isNone⟩ := by
  have hdate : IsDateText (month ++ s :: day) := by
    obtain rfl | rfl := hs <;> simp [hday.isDateText, hmonth.isDateText]
  have hascii := Shape.isAscii_dated hdate w
  have hbytes : byteLength (Shape.dated (month ++ s :: day) w).firstToken = 5 := by
    change byteLength (month ++ s :: day) = 5
    simp [hdate.isAscii.byteLength_eq, hday.length_eq, hmonth.length_eq]
  refine of_dated (by simp) hdate (ShapeRule.first?_monthDay hmonth hday hs w) ?_
  have hknown : c.today? = some c.today := c.today?_of_fourDigits (by omega)
  rw [← numberOf_of_isDigits hmonth (by decide), ← numberOf_of_isDigits hday (by decide),
    ← ofInt_natCast, ← htoday, ShapeRule.read, ShapeRule.readMonthDay, if_pos hbytes, hknown,
    Ending.orStop_some, Ending.map_ok, Ending.map_ok, ShapeRule.restateMonthDay]
  obtain ⟨m₁, m₂, rfl, -⟩ := hmonth.exists_two
  obtain ⟨d₁, d₂, rfl, -⟩ := hday.exists_two
  simp only [Shape.slice, Shape.sliceFrom, hascii.slice_eq, hascii.sliceFrom_eq]
  simp [Shape.dated]

variable {w} in
theorem wallReading?_readYear {year : Nat} (hyear : year < 10000) (hw : ∀ v ∈ w, v.IsValid) :
    wallReading? (trim (month ++ s :: (day ++ s :: ofNat year) ++ WrittenTime.suffix w)) =
      WallReading.of? ⟨readYear year, toNat month, toNat day⟩ (WrittenTime.suffixTime w) none := by
  have hdate := Loose.date?_of_parts hmonth.isNumber.isWord hday.isNumber.isWord
    (isNumber_ofNat year).isWord (s := s) (by tauto)
  rw [Loose.month?_of_isDigits hday, if_neg (by simp [hmonth.length_eq]),
    Loose.year?_ofNat (by omega), Loose.number?_of_isDigits hmonth (by decide),
    Loose.number?_of_isDigits hday (by decide)] at hdate
  exact wallReading?_of_parts hmonth.isNumber hmonth.ne_nil (by rw [hmonth.length_eq]; decide)
    hday.isNumber.isWord (isNumber_ofNat year).isWord (by simp; tauto) hdate hw

end

namespace Calendar

theorem dayNumber_add_le {y z : Int} (h : y < z) (month day : Int) :
    dayNumber y month day + 2 ≤ dayNumber z month day := by
  rw [dayNumber_eq, dayNumber_eq]
  unfold daysBefore marchYear
  split_ifs <;> omega

end Calendar

theorem writtenWall_add_le {y z : Nat} (h : y < z) (month day : Nat) (w : Option WrittenTime) :
    writtenWall y month day w + 2 * millisPerDay ≤ writtenWall z month day w := by
  have hday := dayNumber_add_le (Int.ofNat_lt.mpr h) month day
  unfold writtenWall millisPerDay
  omega

theorem Zone.instantOfLocal?_lt {z : Zone} {wall wall' instant instant' : Int}
    (hwall : wall + 2 * millisPerDay ≤ wall') (h : z.instantOfLocal? wall = some instant)
    (h' : z.instantOfLocal? wall' = some instant') : instant < instant' := by
  have hoffset := (z.offsetOfLocal wall).inRange
  have hoffset' := (z.offsetOfLocal wall').inRange
  unfold instantOfLocal? at h h'
  dsimp only at h h'
  split_ifs at h h'
  obtain rfl := Option.some.inj h
  obtain rfl := Option.some.inj h'
  unfold millisPerDay at hwall
  unfold Offset.millis millisPerMinute
  omega

/-- A month and a day are a date of the year of the clock from the year 100 on. A year of two digits
or one is checked as it is and then read as one from 1950 to 2049. -/
theorem toDate_monthDay (c : Context) {year month day : Nat} {s : Char} {w : Option WrittenTime}
    (htoday : c.today.year = year) (hyear : year < 10000) (hmonth : month < 100) (hday : day < 100)
    (hs : s = '/' ∨ s = '-') (hw : ∀ v ∈ w, v.IsValid) :
    let t := ofNatPadded 2 month ++ s :: ofNatPadded 2 day ++ WrittenTime.suffix w
    (isValidDate day month year = true → ∃ (instant : Int) (_ : inRange instant = true),
      (Dates.toDate c (.text t)).result = .ok (.instant instant w.isNone) ∧
      c.zone.instantOfLocal? (writtenWall (readYear year) month day w) = some instant ∧
      (c.zone.instantOfLocal? (writtenWall year month day w) = some instant ↔ 100 ≤ year)) ∧
    (day ≠ 0 → isValidDate day month year = false →
      (Dates.toDate c (.text t)).result = .error .invalidDayMonth) ∧
    (day = 0 → (Dates.toDate c (.text t)).result = .error .invalidDate) := by
  intro t
  have hm := isDigits_ofNatPadded (k := 2) (by decide) hmonth
  have hd := isDigits_ofNatPadded (k := 2) (by decide) hday
  have hrestates := Restates.monthDay (c := c) hm hd hs w htoday hyear
  have hread := wallReading?_readYear hm hd hs hyear hw
  simp only [toNat_ofNatPadded] at hrestates hread
  refine ⟨fun hvalid => ?_, ?_⟩
  · have hvalid' := (isValidDate_readYear day month year).trans hvalid
    obtain ⟨instant, hrange, hinstant, hresult⟩ := hrestates.exists_instant hvalid hvalid'
      (readYear_lt hyear) hyear hw hread
    refine ⟨instant, hrange, hresult, hinstant, fun hcurrent => ?_, fun hlong => ?_⟩
    · by_contra hlt
      have hlater := writtenWall_add_le (lt_readYear (not_le.mp hlt)) month day w
      exact absurd (Zone.instantOfLocal?_lt hlater hcurrent hinstant) (lt_irrefl _)
    · rwa [readYear, if_neg (not_lt.mpr hlong)] at hinstant
  rw [hrestates.result_toDate,
    Restated.read_of_integers rfl rfl rfl (by omega) (by omega) (by omega), instantOfText?, hread]
  refine ⟨fun hzero hvalid => congrArg Ending.ofExcept (if_pos ⟨by omega, hvalid⟩),
    fun hzero => ?_⟩
  rw [if_neg (by omega), WallReading.of?, if_neg (by simp [hzero])]
  rfl

theorem toDate_monthDay_leapDay :
    let c : Context := ⟨.host (.daylight ⟨-18000, -14400, ⟨3, 2, 0, 7200⟩, ⟨11, 1, 0, 7200⟩⟩),
      .fixed 1704085200000⟩
    (c.today.year = (2024 : Nat) ∧ (WrittenTime.minute 23 59).IsValid) ∧
    (Dates.toDate c (.text "02-29 23:59".toList)).result = .ok (.instant 1709269140000 false) ∧
    c.zone.instantOfLocal? (writtenWall 2024 2 29 (some (.minute 23 59))) = some 1709269140000 := by
  intro c
  have htoday : c.today.year = (2024 : Nat) := by decide +kernel
  have htime : (WrittenTime.minute 23 59).IsValid := by decide
  obtain ⟨instant, _, hresult, hinstant, -⟩ := (@toDate_monthDay c 2024 2 29 '-'
    (some (.minute 23 59)) htoday (by decide) (by decide) (by decide) (.inr rfl)
    (by simpa using htime)).1 (by decide)
  have hwall : c.zone.instantOfLocal? (writtenWall 2024 2 29 (some (.minute 23 59))) =
      some 1709269140000 := by
    decide +kernel
  obtain rfl : 1709269140000 = instant := Option.some.inj (hwall.symm.trans hinstant)
  exact ⟨⟨htoday, htime⟩, hresult, hwall⟩

theorem monthDay_differs :
    let c : Context := ⟨.fixed .utc, .fixed (-61781912070000)⟩
    c.today.year = 12 ∧ isValidDate 17 3 12 = true ∧
      c.zone.instantOfLocal? (writtenWall 12 3 17 none) = some (-61781961600000) ∧
      (Dates.toDate c (.text "03/17".toList)).result = .ok (.instant 1331942400000 true) := by
  decide +kernel

end Coercion
