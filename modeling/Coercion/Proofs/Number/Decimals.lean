import Coercion.Proofs.Double.Shortest
import Coercion.Proofs.Number.Expansions
import Coercion.Reporting.Numbers

namespace Coercion

open Text

inductive Raw.Denotes : Raw → ℚ → Prop
  | blank {t : Text} (ht : trim t = []) : Denotes (.text t) 0
  | written {t : Text} {w : WrittenNumber} (ht : trim t = w.text) (hexponent : |w.exponent| ≤ 400) :
      Denotes (.text t) w.value
  | flag {b : Bool} {count : Nat} {x : ℚ} (hx : (Double.ofInt b.toNat).IsShortest count x) :
      Denotes (.flag b) x
  | number {f : Double} {count : Nat} {x : ℚ} (hx : f.IsShortest count x) : Denotes (.number f) x

theorem Raw.exists_denotes {r : Raw} {f : Double} (h : r.finite = .ok f) :
    (∃ x, r.Denotes x) ∨
      ∃ (t : Text) (w : WrittenNumber), r = .text t ∧ trim t = w.text ∧ 400 < |w.exponent| := by
  obtain ⟨hf, hfinite⟩ := finite_eq_ok_iff.mp h
  cases r with
  | flag b =>
    obtain ⟨count, x, hx⟩ := Double.exists_isShortest (hf ▸ hfinite)
    exact .inl ⟨x, .flag hx⟩
  | number y =>
    obtain ⟨count, x, hx⟩ := Double.exists_isShortest (hf ▸ hfinite)
    exact .inl ⟨x, .number hx⟩
  | text t =>
    by_cases hblank : trim t = []
    · exact .inl ⟨0, .blank hblank⟩
    · obtain ⟨w, hw⟩ := exists_written h hblank
      obtain hle | hlt := le_or_gt |w.exponent| 400
      · exact .inl ⟨w.value, .written hw hle⟩
      · exact .inr ⟨t, w, rfl, hw, hlt⟩

namespace Expansion

theorem ofDouble_expands {f : Double} (hfinite : f.isFinite = true) {count : Nat} {x : ℚ}
    (hx : f.IsShortest count x) : (ofDouble f).Expands x := by
  obtain ⟨negative, rfl | ⟨rank, hpos, rfl⟩⟩ := Double.exists_rank_of_isFinite hfinite
  · have hplace := place_expands negative (fun c hc => absurd hc List.not_mem_nil) 0
    rw [hx.unique (Double.isShortest_zero negative), Double.ofRank, dif_pos (by decide), ofDouble,
      if_pos rfl]
    simpa using hplace
  · obtain ⟨count', hshortest⟩ := Double.isShortest_ofRank negative hpos
    obtain ⟨_, n, other, hit⟩ := Shortest.exists_firstHit hpos
    rw [hx.unique hshortest, ofDouble, if_neg hpos.ne']
    exact place_expands negative hit.ofRank_isNumber _

theorem ofRaw_expands {r : Raw} {f : Double} {x : ℚ} (hguard : r.finite = .ok f)
    (hx : r.Denotes x) : (ofRaw r f).Expands x := by
  obtain ⟨hf, hfinite⟩ := Raw.finite_eq_ok_iff.mp hguard
  cases hx with
  | @blank t ht =>
    have hzero : f = .ofRank false 0 := by
      rw [← hf, Raw.toDouble, Text.toDouble, ht]
      decide +kernel
    have hread : ofRaw (.text t) f = ofDouble f := by
      rw [ofRaw, ht]
      rfl
    rw [hread]
    exact ofDouble_expands hfinite (hzero ▸ Double.isShortest_zero false)
  | written ht hexponent => exact ofRaw_text_expands ht hexponent f
  | flag hx =>
    obtain rfl := hf
    exact ofDouble_expands hfinite hx
  | number hx =>
    obtain rfl := hf
    exact ofDouble_expands hfinite hx

end Expansion

theorem Decimal.coerce_of_expands (precision scale : Nat) {r : Raw} {f : Double} {x : ℚ}
    (hguard : r.finite = .ok f) (hx : (Expansion.ofRaw r f).Expands x) :
    coerce r precision scale =
      if hp : ¬(1 ≤ precision ∧ precision ≤ 39) then .error .invalidPrecision
      else if hs : precision < scale then .error .invalidScale
      else if f.toRat ≠ 0 ∧ precision - scale < max 1 (Nat.digits 10 ⌊|x|⌋₊).length then
        .error .decimalOverflow
      else
        .ok ⟨towardZero (x * 10 ^ scale), precision, scale, not_not.mp hp, not_lt.mp hs⟩ := by
  obtain ⟨negative, rank, rfl⟩ :=
    Double.exists_finite_of_isFinite (Raw.finite_eq_ok_iff.mp hguard).2
  obtain ⟨e, he⟩ : ∃ e, e = Expansion.ofRaw r (.finite negative rank) := ⟨_, rfl⟩
  have hdigits : e.whole ++ (e.fraction.take scale ++
      List.replicate (scale - (e.fraction.take scale).length) '0') = e.digitsTo scale := by
    have hlen : scale - (e.fraction.take scale).length = scale - e.fraction.length := by
      rw [List.length_take]
      omega
    rw [hlen, Expansion.digitsTo]
  rw [← he] at hx
  have hunscaled : Double.signed e.negative (toNat (e.digitsTo scale)) =
      towardZero (x * 10 ^ scale) := by
    rw [← hx.floor_abs_mul_pow, ← towardZero_factor_mul _ (by positivity), ← mul_assoc,
      ← hx.eq_factor_mul]
  have hzero := Double.isZero_finite_iff negative rank
  rw [coerce, hguard]
  dsimp only
  rw [← he, hdigits, hunscaled, hx.length_whole]
  have hroom : (precision - scale < if (Double.finite negative rank).isZero then 0
      else max 1 (Nat.digits 10 ⌊|x|⌋₊).length) ↔
      (Double.finite negative rank).toRat ≠ 0 ∧
        precision - scale < max 1 (Nat.digits 10 ⌊|x|⌋₊).length := by
    rw [ne_eq, ← hzero]
    split_ifs with h
    · simp [h]
    · simp [h]
  simp only [hroom]

/-- A value is coerced to a decimal in this order: the precision and the scale are checked, then
whether the digits of its integer part have room beside the scale, and what is kept is its exact
number cut toward zero. -/
theorem toDecimal_exact (precision scale : Nat) {r : Raw} {f : Double} {x : ℚ}
    (hguard : (Numbers.guard r).result = .ok f) (hx : r.Denotes x) :
    (Numbers.toDecimal precision scale r).result =
      if hp : ¬(1 ≤ precision ∧ precision ≤ 39) then .error .invalidPrecision
      else if hs : precision < scale then .error .invalidScale
      else if f.toRat ≠ 0 ∧ precision - scale < max 1 (Nat.digits 10 ⌊|x|⌋₊).length then
        .error .decimalOverflow
      else
        .ok ⟨towardZero (x * 10 ^ scale), precision, scale, not_not.mp hp, not_lt.mp hs⟩ := by
  rw [Numbers.guard, Report.result_reported, Report.result_ofExcept,
    Ending.ofExcept_eq_ok] at hguard
  rw [Numbers.toDecimal, Report.result_reported, Report.result_ofExcept,
    Decimal.coerce_of_expands precision scale hguard (Expansion.ofRaw_expands hguard hx)]
  split_ifs <;> rfl

theorem toDecimal_exact_negative : ∃ (w : WrittenNumber) (f : Double),
    (Numbers.guard (.text " -0123.4999e-1 ".toList)).result = .ok f ∧
    Raw.Denotes (.text " -0123.4999e-1 ".toList) w.value ∧
    (Numbers.toDecimal 5 2 (.text " -0123.4999e-1 ".toList)).result =
      .ok ⟨-1234, 5, 2, by decide, by decide⟩ ∧
    towardZero (w.value * 10 ^ 2) = -1234 := by
  obtain ⟨w, hw⟩ : ∃ w : WrittenNumber, w = ⟨.minus, "0123".toList, some "4999".toList,
    some ⟨'e', .minus, ['1'], .inl rfl, by decide, isNumber_of_isNumeral rfl⟩,
    isNumber_of_isNumeral rfl, fun _ h => Option.some.inj h ▸ isNumber_of_isNumeral rfl,
    .inl (by decide)⟩ := ⟨_, rfl⟩
  have htext : trim " -0123.4999e-1 ".toList = w.text := by
    subst hw
    decide
  have hexponent : |w.exponent| ≤ 400 := by
    subst hw
    decide
  have hguard : (Numbers.guard (.text " -0123.4999e-1 ".toList)).result =
      .ok w.literal.toDouble := by
    subst hw
    decide +kernel
  have hresult : (Numbers.toDecimal 5 2 (.text " -0123.4999e-1 ".toList)).result =
      .ok ⟨-1234, 5, 2, by decide, by decide⟩ := by
    decide +kernel
  have hdenotes := Raw.Denotes.written htext hexponent
  have hexact := toDecimal_exact 5 2 hguard hdenotes
  rw [hresult, dif_neg (by decide), dif_neg (by decide)] at hexact
  split_ifs at hexact
  have hunscaled := congrArg Decimal.unscaled (Ending.ok.inj hexact)
  exact ⟨w, _, hguard, hdenotes, hresult, hunscaled.symm⟩

end Coercion
