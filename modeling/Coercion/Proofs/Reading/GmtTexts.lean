import Coercion.Proofs.Reading.Iso
import Coercion.Proofs.Reading.LooseWords
import Coercion.Proofs.Reading.Recognition
import Coercion.Proofs.Reading.Shapes

namespace Coercion

open Calendar Text

def gmtParts (mark : Char) (year month day : Text) (w : WrittenTime) : List Text :=
  [year ++ mark :: (month ++ mark :: day), w.text, "GMT".toList]

theorem Rendering.gmt_eq {c : Civil} (hyear : 0 ≤ c.year) :
    gmt c = List.intercalate [' '] (gmtParts '_' (ofNatPadded 4 c.year.natAbs)
      (ofNatPadded 2 c.month) (ofNatPadded 2 c.day) (.ofCivil c)) := by
  simp [gmt, underscored, gmtParts, Temporal.timeText, WrittenTime.text, WrittenTime.ofCivil,
    ofIntPadded_of_nonneg hyear]

namespace Loose

theorem read?_gmt {date : Text} {d : YearMonthDay} (hdate : IsDateText date)
    (hstart : StartsWithDigit date) (hnum : ¬ IsNumber date) (hd : date? date = some d)
    {w : WrittenTime} (hw : w.IsValid) :
    read? (List.intercalate [' '] [date, w.text, "GMT".toList]) =
      WallReading.of? d w.dayTime (some .utc) := by
  have hcolon : ':' ∉ date := by
    intro hmem
    obtain h | h := hdate ':' hmem
    · cases h
    · exact absurd h (by decide)
  have hparts : ∀ a ∈ [date, w.text, "GMT".toList], IsToken a := by
    simp only [List.forall_mem_cons, List.not_mem_nil, false_implies, implies_true, and_true]
    exact ⟨isToken_of_isDateText hstart.ne_nil hdate, isToken_time w,
      isToken_of_isWord (by decide) (by simp [IsWord])⟩
  have hgmt (f : Fields) : f.add? "GMT".toList = some { f with offset := some .utc } := rfl
  rw [read?, tokens_intercalate hparts]
  simp only [List.foldlM_cons, List.foldlM_nil, Option.bind_eq_bind, Option.bind_some,
    Fields.empty, Fields.add?_date hstart hcolon hnum hd, Fields.add?_time hw, hgmt]
  simp [Fields.date?, Fields.time?, w.checked?_dayTime hw]

end Loose

section

variable {year month day : Text} (hyear : IsDigits 4 year) (hmonth : IsDigits 2 month)
  (hday : IsDigits 2 day)

include hyear hmonth hday

theorem isDateText_marked {mark : Char} (hmark : mark ∈ ['-', '/', '.', '_']) :
    IsDateText (year ++ mark :: (month ++ mark :: day)) := by
  simp only [isDateText_append, isDateText_cons]
  exact ⟨hyear.isDateText, .inr hmark, hmonth.isDateText, .inr hmark, hday.isDateText⟩

theorem isSolid_gmtParts {mark : Char} (hmark : mark ∈ ['-', '/', '.', '_']) (w : WrittenTime) :
    ∀ a ∈ gmtParts mark year month day w, IsSolid a := by
  have hword : IsWord "GMT".toList := by simp [IsWord]
  simp only [gmtParts, List.forall_mem_cons, List.not_mem_nil, false_implies, implies_true,
    and_true]
  exact ⟨(isDateText_marked hyear hmonth hday hmark).isSolid (by simp), w.isSolid_text,
    hword.isDateText.isSolid (by decide)⟩

/-- The rule for underscores puts points in their place. -/
theorem Restates.underscoredGmt (c : Context) (w : WrittenTime) :
    Restates c (List.intercalate [' '] (gmtParts '_' year month day w))
      ⟨List.intercalate [' '] (gmtParts '.' year month day w), .ofInt (toNat day),
        .ofInt (toNat month), .ofInt (toNat year), false⟩ := by
  obtain ⟨t, ht⟩ : ∃ t, t = WrittenTime.suffix (some w) ++ " GMT".toList := ⟨_, rfl⟩
  have htext (mark : Char) : List.intercalate [' '] (gmtParts mark year month day w) =
      year ++ mark :: (month ++ mark :: (day ++ t)) := by
    simp [gmtParts, ht, WrittenTime.suffix]
  have htail : IsAscii (day ++ t) := by
    simp +decide [ht, hday.isDateText.isAscii, WrittenTime.isAscii_suffix]
  have hpairs : IntervalText.recognizes (gmtParts '_' year month day w) = false := by
    simp [IntervalText.recognizes, gmtParts]
  have hshape := Shape.ofText_timed
    (isSolid_gmtParts hyear hmonth hday (by simp : '_' ∈ ['-', '/', '.', '_']) w)
    (by simp [gmtParts] : w.text ∈ gmtParts '_' year month day w)
  refine ⟨.underscoredYearMonthDay, ?_, ?_⟩
  · rw [hshape]
    exact ShapeRule.first?_yearFirst htail hpairs (by simp) hyear hmonth (htext '_')
  · rw [hshape, ShapeRule.read,
      ShapeRule.restateYearMonthDay_eq hyear hmonth hday (by decide) (by decide) (htext '_')]
    simp only [Shape.slice, Shape.sliceFrom, htext]
    rw [slice_append_left _ hyear.byteLength_eq,
      slice_between (n := 4) (k := 2) hyear.byteLength_eq hmonth.byteLength_eq (by decide),
      sliceFrom_behind (n := 4) (k := 2) hyear.byteLength_eq hmonth.byteLength_eq (by decide)
        (by decide) _ 0, sliceFrom_zero]
    simp

theorem wallReading?_gmt {w : WrittenTime} (hw : w.IsValid) :
    wallReading? (trim (List.intercalate [' '] (gmtParts '.' year month day w))) =
      WallReading.of? ⟨toNat year, toNat month, toNat day⟩ w.dayTime (some .utc) := by
  have hmark : '.' ∈ ['-', '/', '.', '_'] := by decide
  have hstart := hyear.startsWithDigit.append ('.' :: (month ++ '.' :: day))
  have hnum : ¬ IsNumber (year ++ '.' :: (month ++ '.' :: day)) := by
    intro h
    cases h '.' (by simp)
  have hiso : Iso.read? (List.intercalate [' '] (gmtParts '.' year month day w)) = none := by
    simp only [gmtParts, List.intercalate_cons_cons, List.append_assoc, List.cons_append]
    rw [Iso.read?, Iso.year?_of_isDigits hyear]
    rfl
  rw [trim_intercalate (isSolid_gmtParts hyear hmonth hday hmark w), wallReading?, hiso, gmtParts,
    Loose.read?_gmt (isDateText_marked hyear hmonth hday hmark) hstart hnum
      (Loose.date?_yearFirst hyear hmonth hday (by simp)) hw]
  rfl

end

/-- The text of an instant in UTC is read back as the instant to the second, whatever the contexts
it is written and read in. -/
theorem toDate_dateGmt (c₁ c₂ : Context) {millis : Int}
    (hyear : 0 ≤ (Civil.ofMillis millis).year ∧ (Civil.ofMillis millis).year ≤ 9999) :
    have h := Civil.inRange_of_fourDigits hyear
    ∃ t, (Dates.dateGmt c₁ (.value (.instant millis false))).result = .ok t ∧
      (Dates.toDate c₂ (.text t)).result =
        .ok (.instant (millis / millisPerSecond * millisPerSecond) false (inRange_floor h)) := by
  obtain ⟨hm, hm', hd, hd'⟩ := Civil.ofMillis_bounds millis
  have hvalid := Civil.ofMillis_isValid millis
  have hfour : IsDigits 4 (ofNatPadded 4 (Civil.ofMillis millis).year.natAbs) :=
    isDigits_ofNatPadded (by decide) (by omega)
  have hmonth : IsDigits 2 (ofNatPadded 2 (Civil.ofMillis millis).month) :=
    isDigits_ofNatPadded (by decide) (by omega)
  have hday : IsDigits 2 (ofNatPadded 2 (Civil.ofMillis millis).day) :=
    isDigits_ofNatPadded (by decide) (by omega)
  have hrestates := Restates.underscoredGmt hfour hmonth hday c₂ (.ofCivil (.ofMillis millis))
  have hread := wallReading?_gmt hfour hmonth hday (w := .ofCivil (.ofMillis millis))
    (Civil.ofMillis_time millis)
  simp only [toNat_ofNatPadded, Int.natAbs_of_nonneg hyear.1] at hrestates hread
  rw [WallReading.of?_ofMillis] at hread
  intro h
  have hrange := inRange_floor h
  have hutc : Offset.utc.millis = 0 := rfl
  refine ⟨Rendering.gmt (.ofMillis millis), ?_, ?_⟩
  · rw [Dates.dateGmt, Dates.ofDate, Report.result_reported]
    rfl
  · rw [Rendering.gmt_eq hyear.1, hrestates.result_toDate,
      Restated.read_of_integers rfl rfl rfl (by omega) (by omega) (by omega),
      if_neg (fun hinvalid => by simp [Date.IsValid, hinvalid.2] at hvalid), instantOfText?, hread]
    simp [WallReading.instant?, hutc, Option.filter, hrange, Temporal.ofInstant_some hrange]

theorem toDate_dateGmt_before_epoch :
    (0 ≤ (Civil.ofMillis (-1)).year ∧ (Civil.ofMillis (-1)).year ≤ 9999) ∧
    ∃ t, (Dates.dateGmt ⟨.fixed ⟨330, by decide⟩, .fixed 0⟩ (.value (.instant (-1) false))).result =
        .ok t ∧
      (Dates.toDate ⟨.host (.daylight ⟨-18000, -14400, ⟨3, 2, 0, 7200⟩, ⟨11, 1, 0, 7200⟩⟩),
        .fixed 0⟩ (.text t)).result = .ok (.instant (-1000) false) :=
  ⟨by decide, toDate_dateGmt _ _ (by decide)⟩

end Coercion
