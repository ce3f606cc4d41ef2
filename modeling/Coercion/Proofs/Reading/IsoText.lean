import Coercion.Proofs.Reading.Iso
import Coercion.Proofs.Reading.Recognition
import Coercion.Proofs.Reading.Shapes

namespace Coercion

open Calendar Text

namespace Temporal

/-- The text of an instant from its year on, in UTC to the second. -/
theorem isoText_instant (c : Context) {millis : Int} (h : inRange millis = true) :
    (instant millis false).isoText c =
    yearText (Civil.ofMillis millis).year ++ '-' ::
      (ofNatPadded 2 (Civil.ofMillis millis).month ++ '-' ::
        (ofNatPadded 2 (Civil.ofMillis millis).day ++ 'T' ::
          ((WrittenTime.ofCivil (Civil.ofMillis millis)).text ++ ['Z']))) := by
  simp [isoText, dateText, timeText, WrittenTime.text, WrittenTime.ofCivil]

variable {millis : Int} {h : inRange millis = true} (c : Context)

theorem mem_isoText {x : Char} (hx : x ∈ (instant millis false).isoText c) :
    x.isDigit = true ∨ x ∈ ['+', '-', 'T', ':', 'Z'] := by
  have hnum (n : Nat) (h : x ∈ ofNatPadded 2 n) : x.isDigit = true := isNumber_ofNatPadded 2 n x h
  have htime (w : WrittenTime) (h : x ∈ w.text) := WrittenTime.isDigit_of_mem h
  have hyear (h : x ∈ yearText (Civil.ofMillis millis).year) := mem_yearText h
  rw [isoText_instant] at hx
  simp only [List.mem_append, List.mem_cons] at hx ⊢
  grind

theorem isBlank_of_mem_isoText {x : Char} (hx : x ∈ (instant millis false).isoText c) :
    isBlank x = false := by
  obtain hx | hx := mem_isoText c hx
  · exact isBlank_of_isDigit hx
  · simp only [List.mem_cons, List.not_mem_nil, or_false] at hx
    obtain rfl | rfl | rfl | rfl | rfl := hx <;> decide

theorem isAscii_isoText : IsAscii ((instant millis false).isoText c) := by
  intro x hx
  obtain hx | hx := mem_isoText c hx
  · exact utf8Size_of_isDigit hx
  · simp only [List.mem_cons, List.not_mem_nil, or_false] at hx
    obtain rfl | rfl | rfl | rfl | rfl := hx <;> decide

theorem trim_isoText : trim ((instant millis false).isoText c) = (instant millis false).isoText c :=
  trim_of_ends (fun _ hx => isBlank_of_mem_isoText c (List.mem_of_mem_head? hx))
    fun _ hx => isBlank_of_mem_isoText c (List.mem_of_mem_getLast? hx)

theorem ofText_isoText : Shape.ofText ((instant millis false).isoText c) =
    ⟨(instant millis false).isoText c, [(instant millis false).isoText c], false⟩ := by
  have hspace : ∀ x ∈ (instant millis false).isoText c, (x == ' ') = false := by
    intro x hx
    rw [beq_eq_false_iff_ne]
    rintro rfl
    exact absurd (isBlank_of_mem_isoText c hx) (by decide)
  have hcolon : ((instant millis false).isoText c).contains ':' = true := by
    simp [isoText_instant, WrittenTime.text, WrittenTime.ofCivil]
  rw [Shape.ofText_of_trim (trim_isoText c), split_of_forall hspace, hcolon]
  rfl

theorem instantOfText?_isoText (h : inRange millis = true) (z : Zone) :
    instantOfText? z ((instant millis false).isoText c) =
      some (millis / millisPerSecond * millisPerSecond) := by
  obtain ⟨hm, hm', hd, hd'⟩ := Civil.ofMillis_bounds millis
  have hread := Iso.read?_written (t := ['Z']) (w := .ofCivil (Civil.ofMillis millis))
    (Iso.year?_yearText (Civil.natAbs_year_lt h))
    (isDigits_ofNatPadded (k := 2) (n := (Civil.ofMillis millis).month) (by decide) (by omega))
    (isDigits_ofNatPadded (k := 2) (n := (Civil.ofMillis millis).day) (by decide) (by omega))
    (Civil.ofMillis_time millis) (.inl rfl) (by simp) (by simp)
  rw [toNat_ofNatPadded, toNat_ofNatPadded] at hread
  have hutc : Offset.utc.millis = 0 := rfl
  rw [instantOfText?, trim_isoText c, wallReading?, isoText_instant, hread]
  simp [Iso.offset?, WallReading.of?_ofMillis, WallReading.instant?, hutc, inRange_floor h]

end Temporal

/-- The text of an instant is read back as the instant to the second, in any context. -/
theorem toDate_isoText (c₁ c₂ : Context) {millis : Int} (h : inRange millis = true) :
    (Dates.toDate c₂ (.text ((Temporal.instant millis false).isoText c₁))).result =
      .ok (.instant (millis / millisPerSecond * millisPerSecond) false (inRange_floor h)) := by
  have hread := Temporal.instantOfText?_isoText c₁ h c₂.zone
  have hsix := Civil.natAbs_year_lt h
  obtain ⟨hm, hm', hd, hd'⟩ := Civil.ofMillis_bounds millis
  have hvalid := Civil.ofMillis_isValid millis
  have hmonth : IsDigits 2 (ofNatPadded 2 (Civil.ofMillis millis).month) :=
    isDigits_ofNatPadded (by decide) (by omega)
  have hday : IsDigits 2 (ofNatPadded 2 (Civil.ofMillis millis).day) :=
    isDigits_ofNatPadded (by decide) (by omega)
  rw [Dates.result_toDate_text, Temporal.ofText_isoText c₁]
  have hascii : IsAscii ((Temporal.instant millis false).isoText c₁) := Temporal.isAscii_isoText c₁
  obtain ⟨t, ht⟩ : ∃ t, t = (Temporal.instant millis false).isoText c₁ := ⟨_, rfl⟩
  rw [← ht] at hread hascii ⊢
  rw [Temporal.isoText_instant] at ht
  obtain ⟨tail, htail⟩ : ∃ tail, tail = 'T' ::
    ((WrittenTime.ofCivil (Civil.ofMillis millis)).text ++ ['Z']) := ⟨_, rfl⟩
  rw [← htail] at ht
  obtain ⟨hyear, hvalue⟩ | ⟨s, digits, hs, hdigits, hnum⟩ := Temporal.yearText_cases hsix
  · simp only [ht, isAscii_append, isAscii_cons] at hascii
    rw [ShapeRule.first?_yearFirst (by simp [hascii]) (by rfl) (.head _) hyear hmonth ht]
    dsimp only [ShapeRule.read]
    rw [if_neg (by decide), ShapeRule.restateYearMonthDay_eq hyear hmonth hday (by decide)
      (by decide) ht]
    rw [hvalue, toNat_ofNatPadded, toNat_ofNatPadded,
      Restated.read_of_integers rfl rfl rfl (by omega) (by omega) (by omega),
      if_neg (fun hinvalid => by simp [Date.IsValid, hinvalid.2] at hvalid)]
    rw [hread, Temporal.ofInstant_some (inRange_floor h)]
    rfl
  · rw [hdigits, List.cons_append] at ht
    simp only [ht, isAscii_append, isAscii_cons] at hascii
    rw [ShapeRule.first?_signedYear hs hnum hmonth (by simp [hascii]) ht rfl]
    dsimp only
    rw [Restated.read_unchanged]
    rw [hread, Temporal.ofInstant_some (inRange_floor h)]
    rfl

theorem toDate_isoText_year_minus_one : inRange (-62167219200001) = true ∧
    (Dates.toDate ⟨.fixed .utc, .fixed 0⟩ (.text ((Temporal.instant (-62167219200001) false).isoText
      ⟨.host .utc, .fixed 0⟩))).result = .ok (.instant (-62167219201000) false) :=
  ⟨by decide, toDate_isoText ⟨.host .utc, .fixed 0⟩ ⟨.fixed .utc, .fixed 0⟩ (by decide)⟩

end Coercion
