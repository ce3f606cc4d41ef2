import Coercion.Proofs.Double.FifteenDigits
import Coercion.Proofs.Number.AmountTexts
import Coercion.Proofs.Number.Decimals

namespace Coercion

open Text

theorem Money.coerce_number {f : Double} (hfinite : f.isFinite = true) {count : Nat} {x : ℚ}
    (hx : f.IsShortest count x) : coerce (.number f) =
      if h : |f.toRat| ≤ (Double.finite false limitRank).toRat then
        .ok ⟨halfAway (100 * x), abs_le.mp (abs_cents_le hx.rounds hfinite h)⟩
      else .error .moneyOverflow := by
  have hexpands := Expansion.ofRaw_expands (Raw.finite_number hfinite) (.number hx)
  unfold coerce
  dsimp only
  rw [Raw.finite_number hfinite]
  dsimp only
  rw [ite_within_limit hfinite]
  split_ifs with h
  · rw [bind_ofCents?_of_expands hexpands hx.rounds hfinite h]
  · rfl

/-- A text that writes a number of at most fifteen significant digits is coerced as the double is
that the number is rounded to. A text without an exponent has the exponent zero, whatever zeros
stand at its ends. -/
theorem toMoney_toDecimal_of_fifteenDigits {w : WrittenNumber} (hexponent : |w.exponent| ≤ 400)
    (hdigits : IsDecimal 15 w.value)
    (hrange : w.value = 0 ∨ 1 / 10 ^ 300 ≤ |w.value| ∧ |w.value| ≤ 10 ^ 300) {f : Double}
    (hf : Double.Rounds w.value f) :
    Numbers.toMoney (.text w.text) = Numbers.toMoney (.number f) ∧
    ∀ precision scale, Numbers.toDecimal precision scale (.text w.text) =
      Numbers.toDecimal precision scale (.number f) := by
  obtain ⟨hfinite, count, hshortest⟩ := hf.isShortest hdigits hrange
  constructor
  · have htrim : trim (Money.strip w.text) = w.text := by rw [Money.strip_text, w.trim_text]
    have hcoerce : Money.coerce (.text w.text) = Money.coerce (.number f) := by
      rw [Money.coerce_text htrim hexponent hf hfinite, Money.coerce_number hfinite hshortest]
    rw [Numbers.toMoney, Numbers.toMoney, hcoerce]
  · intro precision scale
    have hguard := Raw.finite_text w.trim_text hf hfinite
    have hguard' := Raw.finite_number hfinite
    have hexpands := Expansion.ofRaw_expands hguard (.written w.trim_text hexponent)
    have hexpands' := Expansion.ofRaw_expands hguard' (.number hshortest)
    have hcoerce : Decimal.coerce (.text w.text) precision scale =
        Decimal.coerce (.number f) precision scale := by
      rw [Decimal.coerce_of_expands precision scale hguard hexpands,
        Decimal.coerce_of_expands precision scale hguard' hexpands']
      simp only [(w.rounds.same_value hf).2]
    rw [Numbers.toDecimal, Numbers.toDecimal, hcoerce]

theorem toMoney_toDecimal_of_fifteenDigits_negative : ∃ (w : WrittenNumber) (f : Double),
    w.text = "-00.0000001230".toList ∧ |w.exponent| ≤ 400 ∧ IsDecimal 15 w.value ∧
    (w.value = 0 ∨ 1 / 10 ^ 300 ≤ |w.value| ∧ |w.value| ≤ 10 ^ 300) ∧ Double.Rounds w.value f ∧
    Numbers.toMoney (.text "-00.0000001230".toList) = Numbers.toMoney (.number f) ∧
    (Numbers.toDecimal 12 9 (.text "-00.0000001230".toList)).result =
      .ok ⟨-123, 12, 9, by decide, by decide⟩ ∧
    (Numbers.toDecimal 12 9 (.number f)).result = .ok ⟨-123, 12, 9, by decide, by decide⟩ := by
  obtain ⟨w, hw⟩ : ∃ w : WrittenNumber, w = ⟨.minus, "00".toList, some "0000001230".toList, none,
    isNumber_of_isNumeral rfl, fun _ h => Option.some.inj h ▸ isNumber_of_isNumeral rfl,
    .inl (by decide)⟩ := ⟨_, rfl⟩
  have htext : w.text = "-00.0000001230".toList := by
    subst hw
    decide
  have hexponent : |w.exponent| ≤ 400 := by
    subst hw
    decide
  have hvalue : w.value = -(123 / 10 ^ 9) := by
    have hwhole : toNat "00".toList = 0 := by decide
    have hfraction : toNat "0000001230".toList = 1230 := by decide
    have hlength : "0000001230".toList.length = 10 := rfl
    subst hw
    simp only [WrittenNumber.value, WrittenNumber.fraction, WrittenNumber.exponent,
      SignMark.negative, Option.getD_some, Option.elim_none, hwhole, hfraction, hlength]
    norm_num
  have habs : |w.value| = 123 / 10 ^ 9 := by
    rw [hvalue, abs_neg, abs_of_pos (by positivity)]
  have hdigits : IsDecimal 15 w.value := ⟨123, -9, by decide, by rw [habs]; norm_num⟩
  have hrange : w.value = 0 ∨ 1 / 10 ^ 300 ≤ |w.value| ∧ |w.value| ≤ 10 ^ 300 := by
    obtain ⟨limit, hlimit⟩ : ∃ limit : ℚ, limit = 10 ^ 300 := ⟨_, rfl⟩
    have hlow : 10 ^ 9 ≤ limit := by
      rw [hlimit]
      exact pow_le_pow_right₀ (by norm_num) (by norm_num)
    right
    rw [habs, ← hlimit]
    constructor
    · exact div_le_div₀ (by norm_num) (by norm_num) (by norm_num) hlow
    · exact le_trans (by norm_num) hlow
  have hresult : (Numbers.toDecimal 12 9 (.text "-00.0000001230".toList)).result =
      .ok ⟨-123, 12, 9, by decide, by decide⟩ := by
    decide +kernel
  obtain ⟨hmoney, hdecimal⟩ := toMoney_toDecimal_of_fifteenDigits hexponent hdigits hrange w.rounds
  rw [htext] at hmoney
  refine ⟨w, _, htext, hexponent, hdigits, hrange, w.rounds, hmoney, hresult, ?_⟩
  rw [← hdecimal, htext, hresult]

end Coercion
