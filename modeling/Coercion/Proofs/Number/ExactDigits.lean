import Coercion.Proofs.Number.Expansions
import Coercion.Proofs.Number.RawValues
import Coercion.Reporting.Numbers

namespace Coercion

open Text

namespace Literal

variable {l : Literal}

theorem value_clamped :
    l.clamped.value = l.value * 10 ^ (l.clamped.exponent - l.exponent) := by
  have hscale : l.clamped.scale = l.scale + (l.clamped.exponent - l.exponent) := by
    change l.clamped.exponent - (l.fraction.length : Int) =
      l.exponent - (l.fraction.length : Int) + _
    ring
  change Double.factor l.negative * (l.significand * 10 ^ l.clamped.scale) = _
  rw [hscale, zpow_add₀ (by norm_num), value]
  ring

theorem exponent_clamped_eq_iff : l.clamped.exponent = l.exponent ↔ |l.exponent| ≤ 400 := by
  change max (-Expansion.maxExponent) (min Expansion.maxExponent l.exponent) = _ ↔ _
  rw [abs_le, Expansion.maxExponent]
  omega

theorem value_clamped_eq_iff (h : l.value ≠ 0) :
    l.clamped.value = l.value ↔ |l.exponent| ≤ 400 := by
  rw [value_clamped, mul_eq_left₀ h, zpow_eq_one_iff_right₀ (by norm_num) (by norm_num),
    sub_eq_zero, exponent_clamped_eq_iff]

end Literal

theorem WrittenNumber.value_ne_zero {w : WrittenNumber} {t : Text} {f : Double}
    (ht : trim t = w.text) (hguard : (Numbers.guard (.text t)).result = .ok f)
    (hne : f.toRat ≠ 0) : w.value ≠ 0 := by
  rw [Numbers.guard, Report.result_reported, Report.result_ofExcept,
    Ending.ofExcept_eq_ok] at hguard
  obtain ⟨hf, -⟩ := Raw.finite_eq_ok_iff.mp hguard
  rw [Raw.toDouble, Text.toDouble_of_trim ht] at hf
  intro hzero
  have hrounds := w.rounds
  rw [hzero, hf] at hrounds
  exact hne hrounds.value_of_zero.2

/-- A text that passes the check and is not zero writes a number, and its digits are digits with no
zero in front. They are those of the number exactly if its exponent has at most 400 for its size;
otherwise the point is where an exponent of 400 or -400 moves it. -/
theorem expansion_of_text {t : Text} {f : Double}
    (hguard : (Numbers.guard (.text t)).result = .ok f) (hne : f.toRat ≠ 0) :
    (∃ w : WrittenNumber, trim t = w.text) ∧ ∀ w : WrittenNumber, trim t = w.text →
      IsNumber (Expansion.ofRaw (.text t) f).whole ∧
      IsNumber (Expansion.ofRaw (.text t) f).fraction ∧
      (Expansion.ofRaw (.text t) f).whole.head? ≠ some '0' ∧
      (Expansion.ofRaw (.text t) f).value =
        w.value * 10 ^ (max (-400) (min 400 w.exponent) - w.exponent) ∧
      ((Expansion.ofRaw (.text t) f).value = w.value ↔ |w.exponent| ≤ 400) := by
  constructor
  · rw [Numbers.guard, Report.result_reported, Report.result_ofExcept,
      Ending.ofExcept_eq_ok] at hguard
    refine Raw.exists_written hguard fun hblank => hne ?_
    have hzero : Double.Rounds 0 .zero := by exact_mod_cast Double.rounds_ofInt 0
    rw [← (Raw.finite_eq_ok_iff.mp hguard).1, Raw.toDouble_blank hblank]
    exact hzero.value_of_zero.2
  · intro w hw
    obtain ⟨hwhole, hhead, hfraction, hvalue⟩ := Expansion.ofRaw_text_expands_clamped hw f
    have hclamped := Literal.value_clamped (l := w.literal)
    have hiff := Literal.value_clamped_eq_iff (l := w.literal)
    rw [hvalue, w.value_literal] at hclamped hiff
    exact ⟨hwhole, hfraction, hhead, hclamped, hiff (w.value_ne_zero hw hguard hne)⟩

theorem expansion_of_text_negative :
    (Numbers.guard (.text " -0012.50e1 ".toList)).result = .ok (.ofInt (-125)) ∧
    (Double.ofInt (-125)).toRat ≠ 0 ∧ ∃ w : WrittenNumber,
      trim " -0012.50e1 ".toList = w.text ∧ w.exponent = 1 ∧
      (Expansion.ofRaw (.text " -0012.50e1 ".toList) (.ofInt (-125))).value = w.value := by
  obtain ⟨w, hw⟩ : ∃ w : WrittenNumber, w = ⟨.minus, "0012".toList, some "50".toList,
    some ⟨'e', .none, ['1'], .inl rfl, by decide, isNumber_of_isNumeral rfl⟩,
    isNumber_of_isNumeral rfl, fun _ h => Option.some.inj h ▸ isNumber_of_isNumeral rfl,
    .inl (by decide)⟩ := ⟨_, rfl⟩
  have htext : trim " -0012.50e1 ".toList = w.text := by
    subst hw
    decide
  have hexponent : w.exponent = 1 := by
    subst hw
    decide
  have hguard : (Numbers.guard (.text " -0012.50e1 ".toList)).result = .ok (.ofInt (-125)) := by
    decide +kernel
  have hne : (Double.ofInt (-125)).toRat ≠ 0 := by
    rw [Double.toRat_ofInt (by decide)]
    norm_num
  obtain ⟨-, hdigits⟩ := expansion_of_text hguard hne
  obtain ⟨-, -, -, -, hiff⟩ := hdigits w htext
  exact ⟨hguard, hne, w, htext, hexponent, hiff.mpr (by rw [hexponent]; decide)⟩

theorem expansion_of_text_past : ¬ ∀ (t : Text) (f : Double) (w : WrittenNumber),
    (Numbers.guard (.text t)).result = .ok f → f.toRat ≠ 0 → trim t = w.text →
    (Expansion.ofRaw (.text t) f).value = w.value := by
  intro h
  obtain ⟨w, hw⟩ : ∃ w : WrittenNumber, w = ⟨.none, '1' :: List.replicate 401 '0', none,
    some ⟨'e', .minus, "401".toList, .inl rfl, by decide, isNumber_of_isNumeral rfl⟩,
    isNumber_of_isNumeral (by decide +kernel), fun _ h => (nomatch h),
    .inl (List.cons_ne_nil _ _)⟩ := ⟨_, rfl⟩
  have hguard : (Numbers.guard (.text w.text)).result = .ok (.ofInt 1) := by
    subst hw
    decide +kernel
  have hne : (Double.ofInt 1).toRat ≠ 0 := by
    rw [Double.toRat_ofInt (by decide)]
    norm_num
  have hexponent : w.exponent = -401 := by
    subst hw
    decide
  have hvalue := w.value_ne_zero w.trim_text hguard hne
  have hclamped := (Expansion.ofRaw_text_expands_clamped w.trim_text (.ofInt 1)).value_eq
  rw [h _ _ w hguard hne w.trim_text] at hclamped
  rw [← w.value_literal] at hvalue hclamped
  have hle := (Literal.value_clamped_eq_iff hvalue).mp hclamped
  change |w.exponent| ≤ 400 at hle
  rw [hexponent] at hle
  exact absurd hle (by decide)

end Coercion
