import Coercion.Proofs.Number.Literals

namespace Coercion

open Text

namespace Double

variable {negative : Bool} {num den : Nat}

/-- A quotient not below the magnitude after the finite ones is rounded to infinity. -/
theorem ofRatio_of_le (hden : 0 < den)
    (h : Layout.double.units Layout.double.count * den ≤ num * one) :
    ofRatio negative num den = infinite negative := by
  have hle : (Layout.double.units Layout.double.count : ℚ) ≤ num / den * one := by
    rw [div_mul_eq_mul_div, le_div_iff₀ (by exact_mod_cast hden)]
    exact_mod_cast h
  have hrank := (Layout.isNearest_units _).mono (isNearest_ratio num hden) hle
  rw [ofRatio, ofRank, dif_neg (not_lt.mpr hrank)]

theorem ofRatio_of_ge (hden : 0 < den) (h : 2 * (num * one) ≤ den) :
    ofRatio negative num den = ofRank negative 0 := by
  have hone : (num / den * one : ℚ) = (num * one : ℕ) / den := by
    push_cast
    ring
  have hunits : Layout.double.units 1 = 1 := by decide +kernel
  have hzero : Layout.double.IsNearest (num / den * one) 0 := by
    have hnonneg : (0 : ℚ) ≤ (num * one : ℕ) / den :=
      div_nonneg (Nat.cast_nonneg _) (Nat.cast_nonneg _)
    rw [hone, Layout.isNearest_iff_isBetween hnonneg, Layout.isBetween_div_iff hden, zero_tsub,
      Layout.units_zero, zero_add, zero_add, zero_mul, hunits, one_mul]
    exact ⟨Nat.zero_le _, h, fun hodd => absurd Even.zero hodd⟩
  rw [ofRatio, (isNearest_ratio num hden).unique hzero]

end Double

namespace Literal

variable (l : Literal)

def value : ℚ := Double.factor l.negative * (l.significand * 10 ^ l.scale)

theorem toDouble_eq_ofRatio : l.toDouble = .ofRatio l.negative
    (l.significand * 10 ^ l.scale.toNat) (10 ^ (-l.scale).toNat) := by
  have hden : 0 < 10 ^ (-l.scale).toNat := by positivity
  unfold toDouble
  dsimp only
  split_ifs with hzero hlarge hsmall
  · rw [hzero, zero_mul]
    exact (Double.ofRatio_of_ge hden (by simp)).symm
  · have hunits : Layout.double.units Layout.double.count ≤ 10 ^ 310 * Double.one := by
      decide +kernel
    have hlow := pow_length_ofNat_le hzero
    have hnum : 10 ^ 310 * 10 ^ (-l.scale).toNat ≤ l.significand * 10 ^ l.scale.toNat := by
      calc 10 ^ 310 * 10 ^ (-l.scale).toNat = 10 ^ (310 + (-l.scale).toNat) := (pow_add ..).symm
        _ ≤ 10 ^ ((ofNat l.significand).length - 1 + l.scale.toNat) :=
          Nat.pow_le_pow_right (by decide) (by omega)
        _ = 10 ^ ((ofNat l.significand).length - 1) * 10 ^ l.scale.toNat := pow_add ..
        _ ≤ l.significand * 10 ^ l.scale.toNat := Nat.mul_le_mul_right _ hlow
    refine (Double.ofRatio_of_le hden ?_).symm
    calc Layout.double.units Layout.double.count * 10 ^ (-l.scale).toNat
      _ ≤ 10 ^ 310 * Double.one * 10 ^ (-l.scale).toNat := Nat.mul_le_mul_right _ hunits
      _ = 10 ^ 310 * 10 ^ (-l.scale).toNat * Double.one := Nat.mul_right_comm ..
      _ ≤ l.significand * 10 ^ l.scale.toNat * Double.one := Nat.mul_le_mul_right _ hnum
  · have hunit : 2 * Double.one ≤ 10 ^ 330 := by decide +kernel
    have hhigh := lt_pow_length_ofNat l.significand
    refine (Double.ofRatio_of_ge hden ?_).symm
    calc 2 * (l.significand * 10 ^ l.scale.toNat * Double.one)
      _ = l.significand * 10 ^ l.scale.toNat * (2 * Double.one) := by ring
      _ ≤ 10 ^ (ofNat l.significand).length * 10 ^ l.scale.toNat * 10 ^ 330 :=
        Nat.mul_le_mul (Nat.mul_le_mul_right _ hhigh.le) hunit
      _ = 10 ^ ((ofNat l.significand).length + l.scale.toNat + 330) := by rw [pow_add, pow_add]
      _ ≤ 10 ^ (-l.scale).toNat := Nat.pow_le_pow_right (by decide) (by omega)
  · rfl

theorem toDouble_rounds : Double.Rounds l.value l.toDouble := by
  have hden : 0 < 10 ^ (-l.scale).toNat := by positivity
  have h := Double.ofRatio_rounds l.negative (l.significand * 10 ^ l.scale.toNat) hden
  rw [toDouble_eq_ofRatio, value, Double.ten_zpow, ← mul_div_assoc]
  exact_mod_cast h

end Literal

theorem WrittenNumber.value_literal (w : WrittenNumber) : w.literal.value = w.value := by
  have hten : (10 : ℚ) ^ w.fraction.length ≠ 0 := by positivity
  have hsignificand : (w.literal.significand : ℚ) =
      (toNat w.whole + toNat w.fraction / 10 ^ w.fraction.length) * 10 ^ w.fraction.length := by
    rw [Literal.significand]
    change ((toNat (w.whole ++ w.fraction) : ℕ) : ℚ) = _
    rw [toNat_append, add_mul, div_mul_cancel₀ _ hten]
    push_cast
    rfl
  have hscale : (10 : ℚ) ^ w.literal.scale = 10 ^ w.exponent / 10 ^ w.fraction.length := by
    rw [← zpow_natCast, ← zpow_sub₀ (by norm_num)]
    rfl
  rw [Literal.value, hsignificand, hscale, value]
  change Double.factor w.sign.negative * _ = _
  field_simp

theorem WrittenNumber.rounds (w : WrittenNumber) : Double.Rounds w.value w.literal.toDouble := by
  rw [← w.value_literal]
  exact w.literal.toDouble_rounds

theorem Text.toDouble_of_trim {t : Text} {w : WrittenNumber} (h : trim t = w.text) :
    Text.toDouble t = w.literal.toDouble := by
  have hne : w.text.isEmpty = false := by
    obtain ⟨c, u, hbody, -⟩ := w.exists_unsignedText
    rw [WrittenNumber.text, hbody]
    simp
  rw [Text.toDouble, h, hne, Double.read?_text]
  rfl

theorem Raw.finite_eq_ok_iff {r : Raw} {f : Double} :
    r.finite = .ok f ↔ r.toDouble = f ∧ f.isFinite = true := by
  unfold finite
  cases hr : r.toDouble with
  | nan | infinite =>
    refine ⟨fun h => (nomatch h), ?_⟩
    rintro ⟨rfl, h⟩
    cases h
  | finite negative rank =>
    constructor
    · intro h
      obtain rfl := Except.ok.inj h
      exact ⟨rfl, rfl⟩
    · rintro ⟨rfl, -⟩
      rfl

/-- A text that is not blank passes the check only if it writes a number. -/
theorem Raw.exists_written {t : Text} {f : Double} (h : (Raw.text t).finite = .ok f)
    (hne : trim t ≠ []) : ∃ w : WrittenNumber, trim t = w.text := by
  obtain ⟨hf, hfinite⟩ := finite_eq_ok_iff.mp h
  rw [toDouble, Text.toDouble, if_neg (by simpa using hne)] at hf
  cases hread : Double.read? (trim t) with
  | none =>
    rw [hread] at hf
    rw [← hf] at hfinite
    cases hfinite
  | some g =>
    rw [hread] at hf
    obtain rfl : g = f := hf
    exact Double.exists_text_of_read? hread hfinite

theorem Raw.finite_number {f : Double} (hfinite : f.isFinite = true) :
    (Raw.number f).finite = .ok f :=
  finite_eq_ok_iff.mpr ⟨rfl, hfinite⟩

theorem Raw.finite_text {t : Text} {w : WrittenNumber} (ht : trim t = w.text) {f : Double}
    (hf : Double.Rounds w.value f) (hfinite : f.isFinite = true) :
    (Raw.text t).finite = .ok w.literal.toDouble :=
  finite_eq_ok_iff.mpr ⟨Text.toDouble_of_trim ht, (w.rounds.same_value hf).1.trans hfinite⟩

end Coercion
