import Coercion.Proofs.Reading.Iso
import Coercion.Proofs.Reading.LooseWords
import Coercion.Proofs.Reading.Recognition
import Coercion.Proofs.Reading.Shapes

namespace Coercion

open Calendar Text

namespace Civil

theorem exists_weekdayAbbreviation (millis : Int) :
    ∃ name ∈ weekdayAbbreviations, (ofMillis millis).weekdayAbbreviation = name.toList := by
  have hlt : (ofMillis millis).weekday < weekdayAbbreviations.length := weekday_ofMillis_lt millis
  refine ⟨_, List.getElem_mem hlt, ?_⟩
  rw [weekdayAbbreviation, List.getElem?_eq_getElem hlt, Option.getD_some]

theorem isMonthName_monthAbbreviation {c : Civil} (h : 1 ≤ c.month) (h' : c.month ≤ 12) :
    IsMonthName c.month c.monthAbbreviation := by
  have hlt : c.month - 1 < monthAbbreviations.length := by
    change c.month - 1 < 12
    omega
  refine ⟨h, _, List.getElem?_eq_getElem hlt, ?_⟩
  rw [monthAbbreviation, List.getElem?_eq_getElem hlt, Option.getD_some, sameLetters,
    beq_self_eq_true]

end Civil

namespace Rendering

def namedParts (c : Civil) (w : WrittenTime) : List Text :=
  [c.weekdayAbbreviation, c.monthAbbreviation, ofNatPadded 2 c.day, ofIntPadded 4 c.year, w.text]

def fullParts (offset : Offset) (c : Civil) : List Text :=
  [c.weekdayAbbreviation, c.monthAbbreviation, ofNatPadded 2 c.day, ofIntPadded 4 c.year,
    (WrittenTime.ofCivil c).text, offset.gmtText]

theorem fullParts_eq (offset : Offset) (c : Civil) :
    fullParts offset c = namedParts c (.ofCivil c) ++ [offset.gmtText] := rfl

theorem full_eq (offset : Offset) (c : Civil) :
    full offset c = List.intercalate [' '] (fullParts offset c) := by
  simp [full, fullParts, Temporal.timeText, WrittenTime.text, WrittenTime.ofCivil]

end Rendering

section

variable {wall : Int} (offset : Offset) (hyear : 0 ≤ (Civil.ofMillis wall).year)

include hyear

theorem Rendering.mem_namedParts {w : WrittenTime} {a : Text}
    (ha : a ∈ namedParts (Civil.ofMillis wall) w) : a ≠ [] ∧ (IsWord a ∨ a = w.text) := by
  obtain ⟨hm, hm', -, -⟩ := Civil.ofMillis_bounds wall
  obtain ⟨weekday, hweekday, hname⟩ := Civil.exists_weekdayAbbreviation wall
  have hmonth := Civil.isMonthName_monthAbbreviation hm hm'
  have hnumber (k n : Nat) (hk : 0 < k) : ofNatPadded k n ≠ [] ∧ IsWord (ofNatPadded k n) :=
    ⟨(startsWithDigit_ofNatPadded hk n).ne_nil, (isNumber_ofNatPadded k n).isWord⟩
  simp only [namedParts, ofIntPadded_of_nonneg hyear, List.mem_cons, List.not_mem_nil, or_false]
    at ha
  obtain rfl | rfl | rfl | rfl | rfl := ha
  · obtain ⟨a, b, c, hthree, ha, hb, hc⟩ := Loose.exists_three_of_weekday hweekday
    rw [hname, hthree]
    exact ⟨by simp, .inl (by simp [IsWord, isAlphanum_of_isAlpha, *])⟩
  · exact ⟨hmonth.ne_nil, .inl hmonth.isWord⟩
  · exact ⟨(hnumber 2 _ (by decide)).1, .inl (hnumber 2 _ (by decide)).2⟩
  · exact ⟨(hnumber 4 _ (by decide)).1, .inl (hnumber 4 _ (by decide)).2⟩
  · exact ⟨w.startsWithDigit_text.ne_nil, .inr rfl⟩

theorem Rendering.isSolid_namedParts (w : WrittenTime) (o : Option Offset) :
    ∀ a ∈ namedParts (Civil.ofMillis wall) w ++ (o.map Offset.gmtText).toList, IsSolid a := by
  intro a ha
  obtain ha | ha := List.mem_append.mp ha
  · obtain ⟨hne, hword | rfl⟩ := mem_namedParts hyear ha
    · exact hword.isDateText.isSolid hne
    · exact w.isSolid_text
  · obtain ⟨offset, -, rfl⟩ := Option.map_eq_some_iff.mp (Option.mem_toList.mp ha)
    exact offset.isSolid_gmtText

theorem Rendering.isSolid_fullParts : ∀ a ∈ fullParts offset (Civil.ofMillis wall), IsSolid a :=
  isSolid_namedParts hyear _ (some offset)

theorem Rendering.isAscii_fullParts : ∀ a ∈ fullParts offset (Civil.ofMillis wall), IsAscii a := by
  intro a ha
  rw [fullParts_eq, List.mem_append, List.mem_singleton] at ha
  obtain ha | rfl := ha
  · obtain ⟨-, hword | rfl⟩ := mem_namedParts hyear ha
    · exact hword.isDateText.isAscii
    · exact WrittenTime.isAscii_text _
  · exact offset.isAscii_gmtText

theorem ShapeRule.first?_full :
    first? (Shape.ofText (Rendering.full offset (Civil.ofMillis wall))) = none := by
  obtain ⟨hm, hm', -, -⟩ := Civil.ofMillis_bounds wall
  obtain ⟨weekday, hweekday, hname⟩ := Civil.exists_weekdayAbbreviation wall
  obtain ⟨a, b, c, hthree, ha, hb, hc⟩ := Loose.exists_three_of_weekday hweekday
  obtain ⟨d, e, f, hmonth, hd, he, hf⟩ :=
    (Civil.isMonthName_monthAbbreviation hm hm').exists_three
  have hascii := isAscii_intercalate (Rendering.isAscii_fullParts offset hyear)
  have hpairs : IntervalText.recognizes
      (Rendering.fullParts offset (Civil.ofMillis wall)) = false := by
    have hnumber : IntervalText.unit? (ofIntPadded 4 (Civil.ofMillis wall).year) = none := by
      rw [ofIntPadded_of_nonneg hyear, IntervalText.unit?,
        TimeUnit.ofName?_of_startsWithDigit (startsWithDigit_ofNatPadded (by decide) _)]
      rfl
    simp [IntervalText.recognizes, IntervalText.pairs, Rendering.fullParts, hnumber]
  have hne : Rendering.fullParts offset (Civil.ofMillis wall) ≠ [] := List.cons_ne_nil _ _
  obtain ⟨t, htext⟩ : ∃ t,
      List.intercalate [' '] (Rendering.fullParts offset (.ofMillis wall)) = a :: b :: c :: ' ' ::
        d :: e :: f :: ' ' :: (ofNatPadded 2 (Civil.ofMillis wall).day ++ t) := by
    refine ⟨' ' :: List.intercalate [' '] [ofIntPadded 4 (Civil.ofMillis wall).year,
      (WrittenTime.ofCivil (Civil.ofMillis wall)).text, offset.gmtText], ?_⟩
    simp [Rendering.fullParts, hname, hthree, hmonth]
  rw [Rendering.full_eq, Shape.ofText_intercalate hne (Rendering.isSolid_fullParts offset hyear)]
  refine first?_named (by simp [*]) ((startsWithDigit_ofNatPadded (by decide) _).append t) hascii
    htext ?_ hpairs
  rw [Shape.firstToken, Rendering.fullParts, hname, hthree]
  rfl

section

variable (hwall : wall.natAbs < 10000000000000000)

include hwall

/-- The loose reader finds the date, the time and perhaps the offset of named parts. -/
theorem wallReading?_namedParts {w : WrittenTime} (hw : w.IsValid) (o : Option Offset) :
    wallReading? (trim (List.intercalate [' ']
        (Rendering.namedParts (Civil.ofMillis wall) w ++ (o.map Offset.gmtText).toList))) =
      WallReading.of? ⟨(Civil.ofMillis wall).year, (Civil.ofMillis wall).month,
        (Civil.ofMillis wall).day⟩ w.dayTime o := by
  obtain ⟨hm, hm', hd, hd'⟩ := Civil.ofMillis_bounds wall
  obtain ⟨weekday, hweekday, hname⟩ := Civil.exists_weekdayAbbreviation wall
  obtain ⟨a, b, c, hthree, ha, -⟩ := Loose.exists_three_of_weekday hweekday
  have hlen := length_ofNatPadded_le (k := 6) (by decide) (Civil.natAbs_year_lt_of_natAbs_lt hwall)
  have hloose := Loose.read?_named hweekday (Civil.isMonthName_monthAbbreviation hm hm')
    (isDigits_ofNatPadded (k := 2) (n := (Civil.ofMillis wall).day) (by decide) (by omega))
    (isNumber_ofNatPadded 4 (Civil.ofMillis wall).year.natAbs) (by omega) hlen.2 hw o
  rw [← hname, ← ofIntPadded_of_nonneg hyear] at hloose
  have hiso : Iso.read? (List.intercalate [' ']
      (Rendering.namedParts (Civil.ofMillis wall) w ++ (o.map Offset.gmtText).toList)) = none := by
    rw [Rendering.namedParts, hname, hthree]
    exact Iso.read?_of_isAlpha ha _
  rw [trim_intercalate (Rendering.isSolid_namedParts hyear w o), wallReading?, hiso,
    Rendering.namedParts, hloose, ofIntPadded_of_nonneg hyear, toNat_ofNatPadded,
    toNat_ofNatPadded, Int.natAbs_of_nonneg hyear]
  rfl

/-- The loose reader takes the full text back. -/
theorem instantOfText?_full (z : Zone)
    (hrange : inRange (wall / millisPerSecond * millisPerSecond - offset.millis) = true) :
    instantOfText? z (Rendering.full offset (Civil.ofMillis wall)) =
      some (wall / millisPerSecond * millisPerSecond - offset.millis) := by
  have hread := wallReading?_namedParts hyear hwall (w := .ofCivil (Civil.ofMillis wall))
    (Civil.ofMillis_time wall) (some offset)
  rw [WallReading.of?_ofMillis] at hread
  have hfull : wallReading? (trim (Rendering.full offset (Civil.ofMillis wall))) = _ :=
    (congrArg (fun t => wallReading? (trim t)) (Rendering.full_eq offset _)).trans hread
  simp [instantOfText?, hfull, WallReading.instant?, hrange]

end

end

/-- The full text of an instant is read back as the instant to the second, whatever the contexts
it is written and read in. -/
theorem toDate_toText (c₁ c₂ : Context) {millis : Int} (dateOnly : Bool)
    (h : inRange millis = true) (hyear : 0 ≤ (c₁.localFields millis).year) :
    ∃ t, (Dates.toText c₁ none (.value (.instant millis dateOnly))).result = .ok t ∧
      (Dates.toDate c₂ (.text t)).result =
        .ok (.instant (millis / millisPerSecond * millisPerSecond) false (inRange_floor h)) := by
  have hbound := c₁.zone.natAbs_wallAt_lt h
  have hfloor := (c₁.zone.offsetAt millis).floor_add_millis millis
  rw [← c₁.zone.wallAt_eq] at hfloor
  have hread := instantOfText?_full (c₁.zone.offsetAt millis) hyear hbound c₂.zone
    (by rw [hfloor]; exact inRange_floor h)
  have htrim := trim_intercalate
    (Rendering.isSolid_fullParts (c₁.zone.offsetAt millis) hyear)
  have hcolon : (Rendering.full (c₁.zone.offsetAt millis) (c₁.localFields millis)).contains ':' =
      true := by
    simp [Rendering.full, Temporal.timeText]
  rw [hfloor] at hread
  rw [← Rendering.full_eq] at htrim
  refine ⟨Rendering.full (c₁.zone.offsetAt millis) (c₁.localFields millis), ?_, ?_⟩
  · rw [Dates.toText, Dates.ofDate, Report.result_reported]
    rfl
  · rw [Dates.result_toDate_text, Context.localFields, ShapeRule.first?_full _ hyear]
    dsimp only
    rw [Restated.read_unchanged, Shape.ofText_of_trim htrim, hread,
      Temporal.ofInstant_some (inRange_floor h)]
    simp only [Context.localFields] at hcolon
    rw [hcolon]
    rfl

theorem toDate_toText_repeated_hour : inRange 1636266600123 = true ∧
    0 ≤ (Context.localFields ⟨.host (.daylight ⟨-18000, -14400, ⟨3, 2, 0, 7200⟩,
      ⟨11, 1, 0, 7200⟩⟩), .fixed 0⟩ 1636266600123).year ∧
    ∃ t, (Dates.toText ⟨.host (.daylight ⟨-18000, -14400, ⟨3, 2, 0, 7200⟩, ⟨11, 1, 0, 7200⟩⟩),
        .fixed 0⟩ none (.value (.instant 1636266600123 true))).result = .ok t ∧
      (Dates.toDate ⟨.fixed .utc, .fixed 0⟩ (.text t)).result =
        .ok (.instant 1636266600000 false) :=
  ⟨by decide, by decide, toDate_toText _ _ true (by decide) (by decide)⟩

end Coercion
