import Coercion.Proofs.Double.Errors
import Coercion.Proofs.Number.Decimals

namespace Coercion

open Text

theorem towardZero_towardZero {scale scale' : Nat} (h : scale' ≤ scale) (y : ℚ) :
    towardZero (towardZero (y * 10 ^ scale) / 10 ^ scale * 10 ^ scale') =
      towardZero (y * 10 ^ scale') := by
  obtain ⟨negative, hy⟩ := exists_eq_factor_mul_abs y
  have hten : (10 : ℚ) ^ scale = 10 ^ (scale - scale') * 10 ^ scale' := by
    rw [← pow_add, Nat.sub_add_cancel h]
  have hcut : |y| * 10 ^ scale' = |y| * 10 ^ scale / (10 ^ (scale - scale') : ℕ) := by
    rw [hten]
    push_cast
    field_simp
  have htwice : ((⌊|y| * 10 ^ scale⌋₊ : ℕ) : ℚ) / 10 ^ scale * 10 ^ scale' =
      (⌊|y| * 10 ^ scale⌋₊ : ℕ) / (10 ^ (scale - scale') : ℕ) := by
    rw [hten]
    push_cast
    field_simp
  have hfloor : ⌊((⌊|y| * 10 ^ scale⌋₊ : ℕ) : ℚ) / 10 ^ scale * 10 ^ scale'⌋₊ =
      ⌊|y| * 10 ^ scale'⌋₊ := by
    rw [htwice, hcut, Nat.floor_div_natCast, Nat.floor_div_natCast, Nat.floor_natCast]
  rw [hy, mul_assoc, towardZero_factor_mul negative (by positivity), Double.signed_cast,
    mul_div_assoc, mul_assoc, towardZero_factor_mul negative (by positivity), mul_assoc,
    towardZero_factor_mul negative (by positivity)]
  rw [hfloor]

theorem natAbs_towardZero (y : ℚ) : (towardZero y).natAbs = ⌊|y|⌋₊ := by
  obtain ⟨negative, hy⟩ := exists_eq_factor_mul_abs y
  have hcut := towardZero_factor_mul negative (abs_nonneg y)
  rw [← hy] at hcut
  rw [hcut]
  cases negative with
  | false => exact Int.natAbs_natCast _
  | true => exact (Int.natAbs_neg _).trans (Int.natAbs_natCast _)

namespace Double.Rounds

variable {x : ℚ} {f : Double} (hf : Rounds x f) (hfinite : f.isFinite = true)

include hf hfinite

theorem abs_mul_lt_one (h : f.toRat = 0) : |x| * 10 ^ 39 < 1 := by
  have hleast : (10 : ℚ) ^ 39 ≤ 2 ^ 1022 := by
    calc (10 : ℚ) ^ 39 ≤ 2 ^ 130 := by norm_num
      _ ≤ 2 ^ 1022 := pow_le_pow_right₀ (by norm_num) (by norm_num)
  by_contra hlow
  have hnormal : 1 / 2 ^ 1022 ≤ |x| := by
    calc 1 / 2 ^ 1022 ≤ 1 / 10 ^ 39 := one_div_le_one_div_of_le (by positivity) hleast
      _ ≤ |x| := by rwa [div_le_iff₀ (by positivity), ← not_lt]
  have herror := hf.abs_sub_le hfinite hnormal
  rw [h, zero_sub, abs_neg] at herror
  have hpos : 0 < |x| := lt_of_lt_of_le (by positivity) hnormal
  linarith only [herror, hpos]

theorem towardZero_eq_zero {scale : Nat} (hscale : scale ≤ 39) (h : f.toRat = 0) {y : ℚ}
    (hy : |y| ≤ |x|) : towardZero (y * 10 ^ scale) = 0 := by
  have hlt : |y * 10 ^ scale| < 1 := by
    calc |y * 10 ^ scale| = |y| * 10 ^ scale := by rw [abs_mul, abs_pow, Nat.abs_ofNat]
      _ ≤ |x| * 10 ^ 39 := by
        gcongr
        norm_num
      _ < 1 := abs_mul_lt_one hf hfinite h
  rw [← Int.natAbs_eq_zero, natAbs_towardZero, Nat.floor_eq_zero]
  exact hlt

end Double.Rounds

namespace Decimal

/-- The number of digits before the point, none if they are only a zero. -/
def wholeDigits (d : Decimal) : Nat :=
  (Nat.digits 10 (d.unscaled.natAbs / 10 ^ d.scale)).length

def wholeText (d : Decimal) : Text :=
  let digits := ofNatPadded (d.scale + 1) d.unscaled.natAbs
  digits.take (digits.length - d.scale)

def fractionText (d : Decimal) : Text :=
  let digits := ofNatPadded (d.scale + 1) d.unscaled.natAbs
  digits.drop (digits.length - d.scale)

theorem lt_length_digits (d : Decimal) :
    d.scale < (ofNatPadded (d.scale + 1) d.unscaled.natAbs).length := by
  simp only [ofNatPadded, List.length_leftpad]
  omega

theorem length_fractionText (d : Decimal) : d.fractionText.length = d.scale := by
  have hlen := d.lt_length_digits
  rw [fractionText, List.length_drop]
  omega

/-- The text of a decimal as a number that a text writes. -/
def written (d : Decimal) : WrittenNumber where
  sign := .ofNegative d.isNegative
  whole := d.wholeText
  pointed := if d.fractionText.isEmpty then none else some d.fractionText
  power := none
  whole_isNumber := fun c hc => isNumber_ofNatPadded _ _ c (List.mem_of_mem_take hc)
  pointed_isNumber := by
    intro t ht c hc
    split_ifs at ht
    · cases ht
    · obtain rfl := Option.some.inj ht
      exact isNumber_ofNatPadded _ _ c (List.mem_of_mem_drop hc)
  digits_ne_nil := by
    have hlen := d.lt_length_digits
    refine .inl (List.ne_nil_of_length_pos ?_)
    rw [wholeText, List.length_take]
    omega

theorem fraction_written (d : Decimal) : d.written.fraction = d.fractionText := by
  unfold WrittenNumber.fraction written
  dsimp only
  split_ifs with hempty
  · exact (List.isEmpty_iff.mp hempty).symm
  · rfl

theorem text_written (d : Decimal) : d.written.text = d.text := by
  have hafter : d.written.afterWhole =
      if d.fractionText.isEmpty then [] else '.' :: d.fractionText := by
    unfold WrittenNumber.afterWhole WrittenNumber.powerText written
    dsimp only
    split_ifs
    · rfl
    · exact List.append_nil _
  rw [WrittenNumber.text, WrittenNumber.unsignedText, hafter, written,
    SignMark.text_ofNegative, ← List.append_assoc]
  rfl

theorem value_written (d : Decimal) : d.written.value = d.unscaled / 10 ^ d.scale := by
  have hdigits : (d.unscaled.natAbs : ℚ) =
      toNat d.wholeText * 10 ^ d.scale + toNat d.fractionText := by
    have happend := toNat_append d.wholeText d.fractionText
    rw [length_fractionText, wholeText, fractionText, List.take_append_drop,
      toNat_ofNatPadded] at happend
    exact_mod_cast happend
  have hunscaled : Double.factor d.isNegative * (d.unscaled.natAbs : ℚ) = d.unscaled :=
    Double.factor_mul_natAbs d.unscaled
  rw [WrittenNumber.value, fraction_written, length_fractionText, ← hunscaled, hdigits]
  change Double.factor (SignMark.ofNegative d.isNegative).negative *
    (toNat d.wholeText + toNat d.fractionText / 10 ^ d.scale) * 10 ^ (0 : ℤ) = _
  rw [SignMark.negative_ofNegative]
  field_simp

theorem floor_abs_value_written (d : Decimal) :
    ⌊|d.written.value|⌋₊ = d.unscaled.natAbs / 10 ^ d.scale := by
  have habs : |d.written.value| = d.unscaled.natAbs / (10 ^ d.scale : ℕ) := by
    rw [value_written, abs_div, abs_of_pos (by positivity : (0 : ℚ) < 10 ^ d.scale),
      Nat.cast_natAbs, Int.cast_abs, Nat.cast_pow, Nat.cast_ofNat]
  rw [habs, Nat.floor_div_eq_div]

variable {d : Decimal}

theorem isFinite_written (h : d.wholeDigits ≤ 39) :
    d.written.literal.toDouble.isFinite = true := by
  have hlimit : (Double.ofInt (10 ^ 39)).isFinite = true := by decide +kernel
  have hfloor : ⌊|d.written.value|⌋₊ < 10 ^ 39 := by
    rw [floor_abs_value_written]
    exact (Nat.lt_base_pow_length_digits (by decide)).trans_le (Nat.pow_le_pow_right (by decide) h)
  have hle : |d.written.value| ≤ |((10 ^ 39 : ℤ) : ℚ)| := by
    have hlt := (Nat.floor_lt (abs_nonneg _)).mp hfloor
    rw [abs_of_nonneg (a := ((10 ^ 39 : ℤ) : ℚ)) (by positivity)]
    exact_mod_cast hlt.le
  exact (d.written.rounds.of_abs_le (Double.rounds_ofInt _) hlimit hle).1

theorem toRat_written_eq_zero_iff (hfinite : d.written.literal.toDouble.isFinite = true) :
    d.written.literal.toDouble.toRat = 0 ↔ d.unscaled = 0 := by
  have hrounds := d.written.rounds
  have hplaces : d.scale ≤ 39 := d.scale_le.trans d.precision_inRange.2
  constructor
  · intro h
    have hcut := hrounds.towardZero_eq_zero hfinite hplaces h le_rfl
    rwa [value_written, div_mul_cancel₀ _ (by positivity), towardZero_intCast] at hcut
  · intro h
    rw [value_written, h, Int.cast_zero, zero_div] at hrounds
    exact (hrounds.of_integer (n := 0) (by decide)).2

theorem exists_finite_of_coerce {r : Raw} {precision scale : Nat} {v : Decimal}
    (h : coerce r precision scale = .ok v) : ∃ f, r.finite = .ok f := by
  unfold coerce at h
  cases hr : r.finite with
  | error fault => simp [hr] at h
  | ok f => exact ⟨f, rfl⟩

/-- A decimal of a precision and a scale keeps the digits of a number up to its scale. -/
structure Keeps (v : Decimal) (precision scale : ℕ) (y : ℚ) : Prop where
  precision_eq : v.precision = precision
  scale_eq : v.scale = scale
  unscaled_eq : v.unscaled = towardZero (y * 10 ^ scale)

theorem Keeps.unique {v u : Decimal} {precision scale : ℕ} {y : ℚ} (hv : v.Keeps precision scale y)
    (hu : u.Keeps precision scale y) : v = u :=
  Decimal.ext (hv.unscaled_eq.trans hu.unscaled_eq.symm)
    (hv.precision_eq.trans hu.precision_eq.symm) (hv.scale_eq.trans hu.scale_eq.symm)

/-- A value becomes a decimal if its digits before the point have room beside the scale, which
those of a value whose double is zero do not need. -/
theorem coerce_eq_ok_iff {r : Raw} {f : Double} {y : ℚ} (hguard : r.finite = .ok f)
    (hy : (Expansion.ofRaw r f).Expands y) {precision scale : Nat} {v : Decimal} :
    coerce r precision scale = .ok v ↔ v.Keeps precision scale y ∧
      (f.toRat = 0 ∨ max 1 (Nat.digits 10 ⌊|y|⌋₊).length ≤ precision - scale) := by
  rw [coerce_of_expands precision scale hguard hy]
  constructor
  · intro h
    split_ifs at h with hprecision hscale hroom
    obtain rfl := Except.ok.inj h
    rw [not_and_or, not_not, not_lt] at hroom
    exact ⟨⟨rfl, rfl, rfl⟩, hroom⟩
  · rintro ⟨⟨rfl, rfl, hunscaled⟩, hroom⟩
    have hfits : ¬(f.toRat ≠ 0 ∧
        v.precision - v.scale < max 1 (Nat.digits 10 ⌊|y|⌋₊).length) := by
      rwa [not_and_or, not_not, not_lt]
    rw [dif_neg (not_not.mpr v.precision_inRange), dif_neg v.scale_le.not_gt, if_neg hfits]
    exact congrArg Except.ok (Decimal.ext hunscaled.symm rfl rfl)

theorem coerce_text_eq_ok_iff {precision scale : Nat} {v : Decimal} :
    coerce (.text d.text) precision scale = .ok v ↔
      v.Keeps precision scale (d.unscaled / 10 ^ d.scale) ∧
        (d.unscaled = 0 ∨ max 1 d.wholeDigits ≤ precision - scale) := by
  have htrim : trim d.text = d.written.text := by
    rw [← text_written, WrittenNumber.trim_text]
  have hdouble : (Raw.text d.text).toDouble = d.written.literal.toDouble :=
    Text.toDouble_of_trim htrim
  have hexpands := Expansion.ofRaw_text_expands htrim
    (show |(0 : Int)| ≤ 400 by decide) d.written.literal.toDouble
  by_cases hfinite : d.written.literal.toDouble.isFinite = true
  · rw [coerce_eq_ok_iff (Raw.finite_eq_ok_iff.mpr ⟨hdouble, hfinite⟩) hexpands,
      floor_abs_value_written, value_written, toRat_written_eq_zero_iff hfinite]
    rfl
  -- A decimal past all doubles has no room at any scale.
  · have hlong : ¬d.wholeDigits ≤ 39 := mt isFinite_written hfinite
    have hne : d.unscaled ≠ 0 := by
      intro hzero
      refine hlong ?_
      rw [wholeDigits, hzero, Int.natAbs_zero, Nat.zero_div, Nat.digits_zero]
      exact Nat.zero_le _
    constructor
    · intro h
      obtain ⟨f, hf⟩ := exists_finite_of_coerce h
      obtain ⟨hsame, hf'⟩ := Raw.finite_eq_ok_iff.mp hf
      rw [← hsame, hdouble] at hf'
      exact absurd hf' hfinite
    · rintro ⟨hkeeps, hroom⟩
      have hprecision := v.precision_inRange
      have := hroom.resolve_left hne
      rw [hkeeps.precision_eq] at hprecision
      omega

end Decimal

theorem Raw.Denotes.rounds {r : Raw} {x : ℚ} (hx : r.Denotes x) : Double.Rounds x r.toDouble := by
  cases hx with
  | @blank t ht =>
    have hzero : (Raw.text t).toDouble = .ofRank false 0 := by
      rw [toDouble, Text.toDouble, ht]
      decide +kernel
    rw [hzero]
    exact Double.rounds_zero false
  | @written t w ht hexponent =>
    rw [toDouble, Text.toDouble_of_trim ht]
    exact w.rounds
  | flag hx => exact hx.rounds
  | number hx => exact hx.rounds

theorem Literal.abs_value_clamped_le {l : Literal} (h : -400 ≤ l.exponent) :
    |l.clamped.value| ≤ |l.value| := by
  have hexponent : l.clamped.exponent ≤ l.exponent := max_le h (min_le_right _ _)
  have hscale : l.clamped.scale ≤ l.scale := Int.sub_le_sub_right hexponent _
  have hpow : (10 : ℚ) ^ l.clamped.scale ≤ 10 ^ l.scale :=
    zpow_le_zpow_right₀ (by norm_num) hscale
  rw [value, value, Double.abs_factor_mul _ (by positivity),
    Double.abs_factor_mul _ (by positivity)]
  exact mul_le_mul_of_nonneg_left hpow (Nat.cast_nonneg _)

/-- The expansion of a value is of a number whose double is that of the value or which is nearer to
zero than such a number, unless its text writes an exponent below those that count. -/
theorem Expansion.exists_ofRaw_expands {r : Raw} {f : Double} (hguard : r.finite = .ok f) :
    ∃ y, (ofRaw r f).Expands y ∧ ((∃ x, Double.Rounds x f ∧ |y| ≤ |x|) ∨
      ∃ (t : Text) (w : WrittenNumber), r = .text t ∧ trim t = w.text ∧ w.exponent < -400) := by
  obtain ⟨hf, -⟩ := Raw.finite_eq_ok_iff.mp hguard
  obtain ⟨x, hx⟩ | ⟨t, w, rfl, ht, -⟩ := Raw.exists_denotes hguard
  · exact ⟨x, ofRaw_expands hguard hx, .inl ⟨x, hf ▸ hx.rounds, le_rfl⟩⟩
  · refine ⟨_, ofRaw_text_expands_clamped ht f, ?_⟩
    obtain hlow | hhigh := lt_or_ge w.exponent (-400)
    · exact .inr ⟨t, w, rfl, ht, hlow⟩
    · rw [Raw.toDouble, Text.toDouble_of_trim ht] at hf
      refine .inl ⟨w.value, hf ▸ w.rounds, ?_⟩
      rw [← w.value_literal]
      exact Literal.abs_value_clamped_le hhigh

namespace Decimal

theorem Keeps.wholeDigits_eq {v : Decimal} {precision scale : ℕ} {y : ℚ}
    (h : v.Keeps precision scale y) : v.wholeDigits = (Nat.digits 10 ⌊|y|⌋₊).length := by
  have hfloor : ⌊|y * 10 ^ scale|⌋₊ / 10 ^ scale = ⌊|y|⌋₊ := by
    rw [← Nat.floor_div_natCast, abs_mul, abs_pow, Nat.abs_ofNat, Nat.cast_pow, Nat.cast_ofNat,
      mul_div_cancel_right₀ _ (by positivity)]
  rw [wholeDigits, h.unscaled_eq, h.scale_eq, natAbs_towardZero, hfloor]

section

variable {r : Raw} {f : Double} {y : ℚ} (hguard : r.finite = .ok f)
  (hy : (Expansion.ofRaw r f).Expands y) {precision scale : Nat} {d : Decimal}
  (hd : coerce r precision scale = .ok d) {precision' scale' : Nat}
  (hroom : precision + scale' ≤ precision' + scale)

include hguard hy hd hroom

theorem coerce_fewer (hpos : 1 ≤ precision') (hmax : precision' ≤ 39) :
    ∃ e, coerce r precision' scale' = .ok e ∧ e.Keeps precision' scale' y := by
  obtain ⟨⟨rfl, rfl, -⟩, hfits⟩ := (coerce_eq_ok_iff hguard hy).mp hd
  have hle := d.scale_le
  refine ⟨⟨towardZero (y * 10 ^ scale'), precision', scale', ⟨hpos, hmax⟩, by omega⟩, ?_,
    ⟨rfl, rfl, rfl⟩⟩
  exact (coerce_eq_ok_iff hguard hy).mpr
    ⟨⟨rfl, rfl, rfl⟩, hfits.imp_right fun h => h.trans (by omega)⟩

theorem coerce_text_fewer (hscale : scale' ≤ scale) (v : Decimal) :
    coerce (.text d.text) precision' scale' = .ok v ↔ v.Keeps precision' scale' y ∧
      ¬(f.toRat = 0 ∧ d.unscaled ≠ 0 ∧ precision' - scale' < max 1 d.wholeDigits) := by
  obtain ⟨hkeeps, hfits⟩ := (coerce_eq_ok_iff hguard hy).mp hd
  have hle := d.scale_le
  rw [hkeeps.precision_eq, hkeeps.scale_eq] at hle
  have hsame : v.Keeps precision' scale' (d.unscaled / 10 ^ d.scale) ↔
      v.Keeps precision' scale' y := by
    have hcut := towardZero_towardZero hscale y
    rw [← hkeeps.unscaled_eq] at hcut
    rw [hkeeps.scale_eq]
    exact ⟨fun h => ⟨h.1, h.2, h.3.trans hcut⟩, fun h => ⟨h.1, h.2, h.3.trans hcut.symm⟩⟩
  rw [coerce_text_eq_ok_iff, hsame, and_congr_right_iff]
  intro hv
  rw [not_and_or, not_and_or, not_not, not_lt]
  constructor
  · exact Or.inr
  · rintro (hne | hkept)
    · have hfits := hfits.resolve_left hne
      rw [hkeeps.wholeDigits_eq]
      exact .inr (hfits.trans (by omega))
    · exact hkept

end

end Decimal

/-- A decimal is read back from its text, or cut to fewer digits from it, as from the value that it
was made of. It is refused exactly if it is not zero, has no room for its digits before the point,
and was made of a value whose double is zero; such a value is a text with an exponent below the
ones that count. -/
theorem toDecimal_text {r : Raw} {precision scale : Nat} {d : Decimal}
    (hd : (Numbers.toDecimal precision scale r).result = .ok d) {precision' scale' : Nat}
    (hpos : 1 ≤ precision') (hmax : precision' ≤ 39) (hscale : scale' ≤ scale)
    (hroom : precision + scale' ≤ precision' + scale) :
    ∃ f e, (Numbers.guard r).result = .ok f ∧
      (Numbers.toDecimal precision' scale' r).result = .ok e ∧
      (∀ v, (Numbers.toDecimal precision' scale' (.text d.text)).result = .ok v ↔ v = e ∧
        ¬(f.toRat = 0 ∧ d.unscaled ≠ 0 ∧ precision' - scale' < max 1 d.wholeDigits)) ∧
      (∀ v, (Numbers.setDecimal d (.text d.text)).result = .ok v ↔ v = d ∧
        ¬(f.toRat = 0 ∧ d.unscaled ≠ 0 ∧ precision - scale < max 1 d.wholeDigits)) ∧
      (f.toRat = 0 → d.unscaled ≠ 0 → ∃ (t : Text) (w : WrittenNumber),
        r = .text t ∧ trim t = w.text ∧ w.exponent < -400) := by
  simp only [Numbers.setDecimal, Decimal.set, Numbers.toDecimal, Numbers.guard,
    Report.result_reported, Report.result_ofExcept, Ending.ofExcept_eq_ok] at hd ⊢
  obtain ⟨f, hguard⟩ := Decimal.exists_finite_of_coerce hd
  obtain ⟨y, hy, hnear⟩ := Expansion.exists_ofRaw_expands hguard
  have hfinite := (Raw.finite_eq_ok_iff.mp hguard).2
  obtain ⟨hkeeps, -⟩ := (Decimal.coerce_eq_ok_iff hguard hy).mp hd
  obtain ⟨e, hfewer, he⟩ := Decimal.coerce_fewer hguard hy hd hroom hpos hmax
  have hprecision := d.precision_inRange
  have hplaces : d.scale ≤ 39 := d.scale_le.trans hprecision.2
  have hset (v : Decimal) := Decimal.coerce_text_fewer hguard hy hd le_rfl le_rfl v
  rw [hkeeps.precision_eq, hkeeps.scale_eq]
  refine ⟨f, e, hguard, hfewer, fun v => ?_, fun v => ?_, fun hzero hne => ?_⟩
  · rw [Decimal.coerce_text_fewer hguard hy hd hroom hscale]
    exact and_congr_left' ⟨fun hv => hv.unique he, fun hv => hv ▸ he⟩
  · rw [hset]
    exact and_congr_left' ⟨fun hv => hv.unique hkeeps, fun hv => hv ▸ hkeeps⟩
  · refine hnear.resolve_left ?_
    rintro ⟨x, hx, hxy⟩
    refine hne (hkeeps.unscaled_eq.trans ?_)
    rw [hkeeps.scale_eq] at hplaces
    exact hx.towardZero_eq_zero hfinite hplaces hzero hxy

theorem toDecimal_text_negative :
    let d : Decimal := ⟨-123456, 6, 3, by decide, by decide⟩
    (Numbers.toDecimal 6 3 (.text "-12.3456e1".toList)).result = .ok d ∧
    (Numbers.toDecimal 4 1 (.text d.text)).result = .ok ⟨-1234, 4, 1, by decide, by decide⟩ ∧
    (Numbers.setDecimal d (.text d.text)).result = .ok d := by
  intro d
  have hd : (Numbers.toDecimal 6 3 (.text "-12.3456e1".toList)).result = .ok d := by
    decide +kernel
  have hfewer : (Numbers.toDecimal 4 1 (.text "-12.3456e1".toList)).result =
      .ok ⟨-1234, 4, 1, by decide, by decide⟩ := by
    decide +kernel
  have hdigits : d.wholeDigits = 3 := by
    norm_num [d, Decimal.wholeDigits]
  obtain ⟨f, e, -, he, htext, hset, -⟩ := toDecimal_text hd
    (show 1 ≤ 4 by decide) (by decide) (show 1 ≤ 3 by decide) (by decide)
  obtain rfl := Ending.ok.inj (hfewer.symm.trans he)
  rw [hdigits] at htext hset
  exact ⟨hd, (htext _).mpr ⟨rfl, by simp⟩, (hset _).mpr ⟨rfl, by simp⟩⟩

example :
    let d : Decimal := ⟨-5, 3, 2, by decide, by decide⟩
    (Numbers.toDecimal 3 2 (.text d.text)).result = .ok d := by
  decide +kernel

theorem toDecimal_text_overflow : ¬ ∀ (r : Raw) (precision scale precision' scale' : Nat)
    (d : Decimal), (Numbers.toDecimal precision scale r).result = .ok d →
    1 ≤ precision' → precision' ≤ 39 → scale' ≤ scale →
    precision + scale' ≤ precision' + scale →
    ∃ e, (Numbers.toDecimal precision' scale' (.text d.text)).result = .ok e ∧
      (Numbers.toDecimal precision' scale' r).result = .ok e := by
  intro h
  have hd : (Numbers.toDecimal 1 1
      (.text ('1' :: (List.replicate 400 '0' ++ "e-725".toList)))).result =
        .ok ⟨10, 1, 1, by decide, by decide⟩ := by
    decide +kernel
  obtain ⟨e, he, -⟩ := h _ 1 1 1 1 _ hd (by decide) (by decide) (by decide) (by decide)
  have hoverflow : (Numbers.toDecimal 1 1
      (.text (Decimal.text ⟨10, 1, 1, by decide, by decide⟩))).result = .error .decimalOverflow := by
    decide +kernel
  rw [hoverflow] at he
  cases he

end Coercion
