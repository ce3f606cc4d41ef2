import Coercion.Proofs.Double.Errors
import Coercion.Proofs.Number.Amounts

namespace Coercion

open Text

namespace Money

/-- The second text is the first with separators and currency symbols inserted at any places. -/
inductive Inserted : Text → Text → Prop
  | nil : Inserted [] []
  | keep (c : Char) {t u : Text} (h : Inserted t u) : Inserted (c :: t) (c :: u)
  | separator {t u : Text} (h : Inserted t u) : Inserted t (',' :: u)
  | symbol {c : Char} {t u : Text} (hc : isCurrencySymbol c = true) (h : Inserted t u) :
      Inserted t (c :: u)

theorem Inserted.strip_eq {t u : Text} (h : Inserted t u) : strip u = strip t := by
  unfold strip
  induction h with
  | nil => rfl
  | keep c _ ih => rw [List.filter_cons, List.filter_cons, ih]
  | separator _ ih => exact ih
  | symbol hc _ ih => rw [List.filter_cons_of_neg (by simp [hc]), ih]

theorem isCurrencySymbol_of_isBlank {c : Char} (h : isBlank c = true) :
    isCurrencySymbol c = false := by
  simp only [isBlank, Bool.or_eq_true, Bool.and_eq_true, decide_eq_true_eq, beq_iff_eq] at h
  simp only [isCurrencySymbol, currencyRanges, List.any_cons, List.any_nil, Bool.or_false,
    Bool.or_eq_false_iff, Bool.and_eq_false_iff, decide_eq_false_iff_not]
  omega

theorem isCurrencySymbol_of_isDigit {c : Char} (h : c.isDigit = true) :
    isCurrencySymbol c = false := by
  rw [isDigit_iff] at h
  simp only [isCurrencySymbol, currencyRanges, List.any_cons, List.any_nil, Bool.or_false,
    Bool.or_eq_false_iff, Bool.and_eq_false_iff, decide_eq_false_iff_not]
  omega

theorem strip_text (w : WrittenNumber) : strip w.text = w.text := by
  have hmarks : ∀ c ∈ ['+', '-', '.', 'e', 'E'],
      (c != ',' && !isCurrencySymbol c) = true := by
    simp [isCurrencySymbol, currencyRanges]
  rw [strip, List.filter_eq_self]
  intro c hc
  obtain hdigit | hmark := w.mem_text hc
  · have hcomma : c ≠ ',' := by
      rintro rfl
      cases hdigit
    simp [hcomma, isCurrencySymbol_of_isDigit hdigit]
  · exact hmarks c hmark

def written (m : Money) : WrittenNumber where
  sign := .ofNegative (m.cents < 0)
  whole := ofNat (m.cents.natAbs / 100)
  pointed := some (ofNatPadded 2 (m.cents.natAbs % 100))
  power := none
  whole_isNumber := isNumber_ofNat _
  pointed_isNumber := fun _ h => Option.some.inj h ▸ isNumber_ofNatPadded _ _
  digits_ne_nil := .inl (List.ne_nil_of_length_pos Nat.length_toDigits_pos)

theorem text_written (m : Money) : m.written.text = m.text := by
  simp [WrittenNumber.text, WrittenNumber.unsignedText, WrittenNumber.afterWhole,
    WrittenNumber.powerText, written, text]

theorem value_written (m : Money) : m.written.value = m.cents / 100 := by
  have hlen : (ofNatPadded 2 (m.cents.natAbs % 100)).length = 2 :=
    length_ofNatPadded (by decide) (Nat.mod_lt _ (by decide))
  have habs : (m.cents.natAbs : ℚ) =
      100 * (m.cents.natAbs / 100 : ℕ) + (m.cents.natAbs % 100 : ℕ) := by
    exact_mod_cast (Nat.div_add_mod m.cents.natAbs 100).symm
  have hcents : (m.cents : ℚ) = Double.factor (m.cents < 0) * m.cents.natAbs := by
    have hsigned := Double.signed_natAbs m.cents 1
    rw [mul_one, Nat.cast_one, mul_one] at hsigned
    rw [← Double.signed_cast, hsigned]
  rw [hcents, habs]
  simp only [WrittenNumber.value, WrittenNumber.fraction, WrittenNumber.exponent, written,
    SignMark.negative_ofNegative, toNat_ofNat, Option.getD_some, toNat_ofNatPadded, hlen,
    Option.elim_none, zpow_zero, mul_one]
  ring

theorem strip_blanks {b : Text} (hb : ∀ c ∈ b, isBlank c = true) : strip b = b := by
  rw [strip, List.filter_eq_self]
  intro c hc
  have hcomma : c ≠ ',' := by
    rintro rfl
    exact absurd (hb ',' hc) (by decide)
  simp [hcomma, isCurrencySymbol_of_isBlank (hb c hc)]

variable {m : Money} {before after t : Text}

theorem trim_strip_of_inserted (hbefore : ∀ c ∈ before, isBlank c = true)
    (hafter : ∀ c ∈ after, isBlank c = true) (ht : Inserted (before ++ m.text ++ after) t) :
    trim (strip t) = m.written.text := by
  have hparts :
      strip (before ++ m.text ++ after) = strip before ++ strip m.text ++ strip after := by
    rw [strip, List.filter_append, List.filter_append]
    rfl
  rw [ht.strip_eq, hparts, ← text_written, strip_text, strip_blanks hbefore, strip_blanks hafter]
  exact trim_blanks hbefore hafter fun c hc => m.written.isBlank_of_mem_text hc

theorem toDouble_written_within (m : Money) :
    m.written.literal.toDouble.isFinite = true ∧
      |m.written.literal.toDouble.toRat| ≤ (Double.finite false limitRank).toRat := by
  have habs : |m.written.value| ≤ |(999999999999.99 : ℚ)| := by
    have hcents : |(m.cents : ℚ)| ≤ 99999999999999 := by
      exact_mod_cast abs_le.mpr m.inRange
    rw [value_written, abs_div, abs_of_pos (by norm_num : (0 : ℚ) < 100),
      abs_of_pos (by norm_num : (0 : ℚ) < 999999999999.99), div_le_iff₀ (by norm_num)]
    linarith
  have hbound := m.written.rounds.of_abs_le limit_rounds rfl habs
  rwa [Double.abs_toRat_finite, ← one_mul (_ / _), ← Double.factor_false,
    ← Double.toRat_finite] at hbound

end Money

/-- Every amount is read back from its text, at whatever places separators and currency symbols are
inserted and with any blanks at the ends. -/
theorem toMoney_inserted {m : Money} {before after t : Text}
    (hbefore : ∀ c ∈ before, isBlank c = true) (hafter : ∀ c ∈ after, isBlank c = true)
    (ht : Money.Inserted (before ++ m.text ++ after) t) :
    (Numbers.toMoney (.text t)).result = .ok m := by
  have htrim := Money.trim_strip_of_inserted hbefore hafter ht
  obtain ⟨hfinite, hwithin⟩ := m.toDouble_written_within
  have hexponent : |m.written.exponent| ≤ 400 := by
    change |(0 : Int)| ≤ 400
    decide
  have hcoerce := Money.coerce_text htrim hexponent m.written.rounds hfinite
  have hcents : halfAway (100 * m.written.value) = m.cents := by
    rw [Money.value_written, mul_div_cancel₀ _ (by norm_num), halfAway_intCast]
  simp only [Numbers.toMoney, Report.result_reported, Report.result_ofExcept, hcoerce,
    dif_pos hwithin, hcents, Ending.ofExcept_ok]

theorem toMoney_inserted_cents :
    Money.Inserted ([' '] ++ Money.text ⟨-5, by decide⟩ ++ [' ']) " -$0,.05 ".toList ∧
    (Numbers.toMoney (.text " -$0,.05 ".toList)).result = .ok ⟨-5, by decide⟩ := by
  have htext : [' '] ++ Money.text ⟨-5, by decide⟩ ++ [' '] = " -0.05 ".toList := by decide
  have ht : Money.Inserted ([' '] ++ Money.text ⟨-5, by decide⟩ ++ [' ']) " -$0,.05 ".toList := by
    rw [htext]
    exact .keep ' ' (.keep '-' (.symbol rfl (.keep '0' (.separator (.keep '.' (.keep '0'
      (.keep '5' (.keep ' ' .nil))))))))
  have hspace : ∀ c ∈ [' '], isBlank c = true := by simp [isBlank]
  exact ⟨ht, toMoney_inserted hspace hspace ht⟩

end Coercion
