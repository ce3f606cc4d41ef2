import Coercion.Double.Text
import Coercion.Proofs.Double.Shortest
import Coercion.Proofs.Number.Expansions

namespace Coercion

open Text

namespace Shortest

variable (negative : Bool) {s : Shortest} (hnumber : IsNumber s.digits)

include hnumber

theorem exists_positional (hne : s.digits ≠ []) : ∃ w : WrittenNumber,
    w.text = sign negative ++ s.positionalText ∧ w.value = Double.factor negative * s.value := by
  have hzeros (k : Nat) : IsNumber (List.replicate k '0') := isNumber_replicate_zero k
  unfold positionalText value
  dsimp only
  split_ifs with hpoint hplaces
  · refine ⟨⟨.ofNegative negative, ['0'], some (List.replicate (-s.point).toNat '0' ++ s.digits),
      none, isNumber_of_isNumeral rfl, fun _ h => ?_, .inl (by simp)⟩, ?_, ?_⟩
    · obtain rfl := Option.some.inj h
      exact isNumber_append.mpr ⟨hzeros _, hnumber⟩
    · simp [WrittenNumber.text, WrittenNumber.unsignedText, WrittenNumber.afterWhole,
        WrittenNumber.powerText]
    · rw [toNat_mul_zpow_of_nonpos s.digits hpoint]
      simp [WrittenNumber.value, WrittenNumber.fraction, WrittenNumber.exponent, toNat_cons]
  · refine ⟨⟨.ofNegative negative,
      s.digits ++ List.replicate (s.point.toNat - s.digits.length) '0', none, none,
      isNumber_append.mpr ⟨hnumber, hzeros _⟩, by simp, .inl (by simp [hne])⟩, ?_, ?_⟩
    · simp [WrittenNumber.text, WrittenNumber.unsignedText, WrittenNumber.afterWhole,
        WrittenNumber.powerText]
    · rw [toNat_mul_zpow_of_length_le s.digits (by omega)]
      simp [WrittenNumber.value, WrittenNumber.fraction, WrittenNumber.exponent]
  · refine ⟨⟨.ofNegative negative, s.digits.take s.point.toNat,
      some (s.digits.drop s.point.toNat), none, fun c hc => hnumber c (List.mem_of_mem_take hc),
      fun _ h => ?_, .inl ?_⟩, ?_, ?_⟩
    · obtain rfl := Option.some.inj h
      exact fun c hc => hnumber c (List.mem_of_mem_drop hc)
    · rw [ne_eq, List.take_eq_nil_iff, not_or]
      exact ⟨by omega, hne⟩
    · simp [WrittenNumber.text, WrittenNumber.unsignedText, WrittenNumber.afterWhole,
        WrittenNumber.powerText]
    · rw [toNat_mul_zpow_of_le_length s.digits (k := s.point.toNat) (by omega),
        Int.toNat_of_nonneg (by omega), sub_self]
      simp [WrittenNumber.value, WrittenNumber.fraction, WrittenNumber.exponent]

theorem exists_exponent (hne : s.digits ≠ []) : ∃ w : WrittenNumber,
    w.text = sign negative ++ s.exponentText ∧ w.value = Double.factor negative * s.value := by
  have hpos := List.length_pos_of_ne_nil hne
  obtain ⟨e, he⟩ : ∃ e, e = s.point - 1 := ⟨_, rfl⟩
  obtain ⟨mark, hmark, hmark'⟩ : ∃ mark : SignMark,
      mark.text = [if e < 0 then '-' else '+'] ∧ Double.signed mark.negative e.natAbs = e := by
    obtain hlt | hge := lt_or_ge e 0
    · refine ⟨.minus, by rw [if_pos hlt]; rfl, ?_⟩
      change -(e.natAbs : ℤ) = e
      omega
    · refine ⟨.plus, by rw [if_neg hge.not_gt]; rfl, ?_⟩
      change (e.natAbs : ℤ) = e
      omega
  obtain ⟨power, hpower, hexponent⟩ : ∃ power : WrittenPower,
      power.text = ['e', if e < 0 then '-' else '+'] ++ ofNat e.natAbs ∧ power.exponent = e := by
    refine ⟨⟨'e', mark, ofNat e.natAbs, .inl rfl, ?_, isNumber_ofNat _⟩, ?_, ?_⟩
    · exact List.ne_nil_of_length_pos Nat.length_toDigits_pos
    · simp [WrittenPower.text, hmark]
    · rw [WrittenPower.exponent, toNat_ofNat, hmark']
  obtain ⟨pointed, hpointed, hfraction⟩ : ∃ pointed : Option Text,
      pointed.elim [] ('.' :: ·) = (if (s.digits.drop 1).isEmpty then [] else
        '.' :: s.digits.drop 1) ∧ pointed.getD [] = s.digits.drop 1 := by
    cases hrest : s.digits.drop 1 with
    | nil => exact ⟨none, rfl, rfl⟩
    | cons c t => exact ⟨some (c :: t), rfl, rfl⟩
  refine ⟨⟨.ofNegative negative, s.digits.take 1, pointed, some power,
    fun c hc => hnumber c (List.mem_of_mem_take hc), fun t ht c hc => ?_, .inl ?_⟩, ?_, ?_⟩
  · rw [Option.mem_def.mp ht, Option.getD_some] at hfraction
    rw [hfraction] at hc
    exact hnumber c (List.mem_of_mem_drop hc)
  · rw [ne_eq, List.take_eq_nil_iff, not_or]
    exact ⟨one_ne_zero, hne⟩
  · simp [WrittenNumber.text, WrittenNumber.unsignedText, WrittenNumber.afterWhole,
      WrittenNumber.powerText, hpower, hpointed, exponentText, ← he]
  · rw [value, toNat_mul_zpow_of_le_length s.digits (k := 1) hpos, Nat.cast_one, ← he]
    simp [WrittenNumber.value, WrittenNumber.fraction, WrittenNumber.exponent, hfraction, hexponent,
      mul_assoc]

end Shortest

/-- The text of a finite double writes a number that is rounded to it. -/
theorem Double.exists_text {x : Double} (hx : x.isFinite = true) :
    ∃ w : WrittenNumber, w.text = x.text ∧ Rounds w.value x := by
  obtain ⟨negative, rfl | ⟨rank, hpos, rfl⟩⟩ := exists_rank_of_isFinite hx
  · refine ⟨⟨.none, ['0'], none, none, isNumber_of_isNumeral rfl, by simp, .inl (by simp)⟩, ?_, ?_⟩
    · rw [ofRank, dif_pos (by decide)]
      cases negative <;> rfl
    · have hzero := rounds_zero negative
      simpa [WrittenNumber.value, WrittenNumber.fraction, toNat_cons] using hzero
  · obtain ⟨_, _, _, hit⟩ := Shortest.exists_firstHit hpos
    obtain ⟨_, hshortest⟩ := isShortest_ofRank negative hpos
    obtain ⟨s, hs⟩ : ∃ s, s = Shortest.ofRank .even rank := ⟨_, rfl⟩
    have hnumber := hit.ofRank_isNumber
    have hrounds := hshortest.rounds
    rw [← hs] at hnumber hrounds
    have hne : s.digits ≠ [] := by
      intro hnil
      have hread := (rounds_iff_readsAs.mp hrounds).1
      rw [Shortest.value, hnil, toNat_nil] at hread
      exact Shortest.not_readsAs_zero hpos (by simpa using hread)
    have htext : (finite negative rank).text = sign negative ++
        if NumberStyle.exponential.positional s.point then s.positionalText
        else s.exponentText := by
      rw [text, textIn, if_neg hpos.ne', hs]
      rfl
    obtain ⟨w, hw, hvalue⟩ : ∃ w : WrittenNumber, w.text = (finite negative rank).text ∧
        w.value = factor negative * s.value := by
      rw [htext]
      split_ifs
      · exact Shortest.exists_positional negative hnumber hne
      · exact Shortest.exists_exponent negative hnumber hne
    exact ⟨w, hw, hvalue ▸ hrounds⟩

end Coercion
