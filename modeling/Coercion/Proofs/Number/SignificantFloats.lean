import Coercion.Number.Significant
import Coercion.Proofs.Number.Decimals
import Coercion.Proofs.Number.FirstDigits

namespace Coercion

open Text

namespace Expansion

/-- All the digits of an expansion, without its point. -/
def digits (e : Expansion) : Text := e.whole ++ e.fraction

def significant (e : Expansion) : Text := e.digits.dropWhile (· == '0')

def zeros (e : Expansion) : ℕ := (e.digits.takeWhile (· == '0')).length

theorem digits_eq (e : Expansion) : e.digits = List.replicate e.zeros '0' ++ e.significant := by
  have hzeros : e.digits.takeWhile (· == '0') = List.replicate e.zeros '0' :=
    List.eq_replicate_of_mem fun c hc => by simpa using List.mem_takeWhile_imp hc
  rw [← hzeros, significant, List.takeWhile_append_dropWhile]

theorem length_digits (e : Expansion) : e.digits.length = e.zeros + e.significant.length := by
  rw [digits_eq, List.length_append, List.length_replicate]

theorem head_significant (e : Expansion) : e.significant.head? ≠ some '0' := by
  intro hhead
  have hnot := List.head?_dropWhile_not (· == '0') e.digits
  rw [significant] at hhead
  simp [hhead] at hnot

namespace Expands

variable {e : Expansion} {q : ℚ} (h : e.Expands q)

include h

theorem significant_isNumber : IsNumber e.significant := by
  intro c hc
  obtain hc | hc := List.mem_append.mp (List.dropWhile_subset _ hc)
  · exact h.whole_isNumber c hc
  · exact h.fraction_isNumber c hc

theorem abs_eq_significant : |q| = toNat e.significant * 10 ^ (-e.fraction.length : ℤ) := by
  rw [significant, toNat_dropWhile_zero, digits, toNat_append, h.abs_eq, zpow_neg, zpow_natCast]
  push_cast
  field_simp

end Expands

end Expansion

namespace Double

theorem factor_injective : Function.Injective factor := by
  intro negative negative' h
  cases negative with
  | false =>
    cases negative' with
    | false => rfl
    | true => norm_num at h
  | true =>
    cases negative' with
    | false => norm_num at h
    | true => rfl

theorem toRat_finite_eq_zero_iff {negative : Bool} {rank : Fin Layout.double.count} :
    (finite negative rank).toRat = 0 ↔ rank.val = 0 := by
  rw [← abs_eq_zero, abs_toRat_finite, div_eq_zero_iff, or_iff_left one_cast_pos.ne',
    Nat.cast_eq_zero, magnitude_eq_zero_iff]

theorem finite_eq_ofRank_zero (negative : Bool) {rank : Fin Layout.double.count}
    (h : rank.val = 0) : finite negative rank = ofRank negative 0 := by
  rw [ofRank, dif_pos (by decide)]
  exact congrArg _ (Fin.ext h)

end Double

namespace SignificantFloat

def cutDigits (count : ℕ) (e : Expansion) : Text :=
  e.digits.take (e.zeros + count) ++ List.replicate (e.digits.length - (e.zeros + count)) '0'

def cutLiteral (count : ℕ) (e : Expansion) : Literal :=
  ⟨e.negative, (cutDigits count e).take e.whole.length, (cutDigits count e).drop e.whole.length, 0⟩

theorem cut_eq (count : ℕ) (x : Double) : cut count x =
    if (Expansion.ofDouble x).significant.length ≤ count then x
    else (cutLiteral count (Expansion.ofDouble x)).toDouble := by
  obtain ⟨e, he⟩ : ∃ e, e = Expansion.ofDouble x := ⟨_, rfl⟩
  have hlength := e.length_digits
  have hcut : cut count x =
      if e.digits.length ≤ e.zeros + count then x else (cutLiteral count e).toDouble := he ▸ rfl
  rw [hcut, ← he, hlength]
  exact if_congr Nat.add_le_add_iff_left rfl rfl

section

variable (count : ℕ) (e : Expansion)

theorem cutDigits_eq : cutDigits count e = List.replicate e.zeros '0' ++
    (e.significant.take count ++ List.replicate (e.significant.length - count) '0') := by
  have htake : e.digits.take (e.zeros + count) =
      List.replicate e.zeros '0' ++ e.significant.take count := by
    rw [e.digits_eq, List.take_append, List.length_replicate, Nat.add_sub_cancel_left,
      List.take_of_length_le (by rw [List.length_replicate]; exact Nat.le_add_right _ _)]
  rw [cutDigits, htake, e.length_digits, Nat.add_sub_add_left, List.append_assoc]

theorem length_cutDigits : (cutDigits count e).length = e.whole.length + e.fraction.length := by
  have hlength := e.length_digits
  rw [Expansion.digits, List.length_append] at hlength
  rw [cutDigits_eq, hlength]
  simp only [List.length_append, List.length_replicate, List.length_take]
  omega

variable {e}

theorem value_cutLiteral {q : ℚ} (he : e.Expands q) :
    (cutLiteral count e).value = firstDigits count q := by
  have hsignificand : (cutLiteral count e).significand = toNat (cutDigits count e) :=
    congrArg toNat (List.take_append_drop ..)
  have hscale : (cutLiteral count e).scale = -(e.fraction.length : ℤ) := by
    change 0 - (((cutDigits count e).drop e.whole.length).length : ℤ) = _
    rw [List.length_drop, length_cutDigits, Nat.add_sub_cancel_left, zero_sub]
  rw [Literal.value, hsignificand, hscale, cutDigits_eq, toNat_append, toNat_replicate_zero,
    zero_mul, zero_add, firstDigits_eq_factor_mul count he.eq_factor_mul, he.abs_eq_significant,
    firstDigits_toNat he.significant_isNumber e.head_significant]
  rfl

end

theorem cut_rounds (count : ℕ) {x : Double} {digits : ℕ} {q : ℚ} (hfinite : x.isFinite = true)
    (hq : x.IsShortest digits q) : Double.Rounds (firstDigits count q) (cut count x) := by
  obtain ⟨e, he⟩ : ∃ e, e = Expansion.ofDouble x := ⟨_, rfl⟩
  have hexpands : e.Expands q := he ▸ Expansion.ofDouble_expands hfinite hq
  rw [cut_eq, ← he]
  split_ifs with hshort
  · have hdecimal : IsDecimal count q := ⟨toNat e.significant, _,
      (toNat_lt hexpands.significant_isNumber).trans_le (Nat.pow_le_pow_right (by decide) hshort),
      hexpands.abs_eq_significant⟩
    rw [firstDigits_of_isDecimal hdecimal]
    exact hq.rounds
  · rw [← value_cutLiteral count hexpands]
    exact (cutLiteral count e).toDouble_rounds

theorem cut_zero (count : ℕ) (negative : Bool) :
    cut count (.ofRank negative 0) = .ofRank negative 0 := by
  have hzero : Double.finite negative ⟨0, by decide⟩ = .ofRank negative 0 :=
    Double.finite_eq_ofRank_zero negative rfl
  have hnone : (Expansion.ofDouble (.ofRank negative 0)).significant = [] := by
    rw [← hzero, Expansion.ofDouble, if_pos rfl]
    rfl
  rw [cut_eq, hnone]
  exact if_pos (Nat.zero_le _)

theorem cut_le (count : ℕ) {x : Double} (hfinite : x.isFinite = true) :
    (cut count x).isFinite = true ∧ |(cut count x).toRat| ≤ |x.toRat| := by
  obtain ⟨digits, q, hq⟩ := Double.exists_isShortest hfinite
  exact (cut_rounds count hfinite hq).of_abs_le hq.rounds hfinite (abs_firstDigits_le count q)

/-- The shortest decimal after a cut has no more digits than were kept. -/
theorem isDecimal_of_cut {count : ℕ} {x : Double} (hfinite : x.isFinite = true) {digits : ℕ} {q : ℚ}
    (hq : (cut count x).IsShortest digits q) : IsDecimal count q := by
  obtain ⟨digits', q', hq'⟩ := Double.exists_isShortest hfinite
  have hrounds := cut_rounds count hfinite hq'
  exact hq.isDecimal.mono (hq.fewest hrounds (isDecimal_firstDigits q'))

theorem cut_cut (count : ℕ) {x : Double} (hfinite : x.isFinite = true) :
    cut count (cut count x) = cut count x := by
  obtain ⟨hcut, -⟩ := cut_le count hfinite
  obtain ⟨digits, q, hq⟩ := Double.exists_isShortest hcut
  have hagain := cut_rounds count hcut hq
  rw [firstDigits_of_isDecimal (isDecimal_of_cut hfinite hq)] at hagain
  obtain rfl | hne := eq_or_ne q 0
  · obtain ⟨negative, hzero⟩ := hq.rounds.eq_ofRank_zero
    rw [hzero, cut_zero]
  · exact hagain.unique hne hq.rounds

section

open Shortest (ReadsAs)

/-- What is less than twice a number next to zero is itself not past the least double above it. -/
theorem rank_le_one {rank : ℕ} {a b : ℚ} (ha : 0 ≤ a) (hzero : ReadsAs 0 a) (hb : ReadsAs rank b)
    (hlt : b < 2 * a) : rank ≤ 1 := by
  have hone : Layout.double.units 1 = 1 := if_pos (by decide)
  have hhalf := ((Layout.isNearest_iff_isBetween (mul_nonneg ha Double.one_cast_pos.le) 0).mp
    hzero).2.1
  rw [zero_add, Layout.units_zero, hone, Nat.cast_zero, zero_add] at hhalf
  refine Layout.IsNearest.mono hb (Layout.isNearest_units 1) ?_
  rw [hone]
  have := mul_le_mul_of_nonneg_right hlt.le Double.one_cast_pos.le
  linarith

variable {negative : Bool} {rank : Fin Layout.double.count} {digits : ℕ} {q : ℚ}
  (hq : (Double.finite negative rank).IsShortest digits q)

include hq

theorem isDecimal_of_rank_one (hrank : rank.val = 1) : IsDecimal 1 q := by
  obtain ⟨least, hleast⟩ : ∃ least : ℚ, least = (5 : ℕ) * 10 ^ (-324 : ℤ) := ⟨_, rfl⟩
  have hnonneg : 0 ≤ least := by
    rw [hleast]
    positivity
  have habs := Double.abs_factor_mul negative hnonneg
  have hread : ReadsAs rank least := by
    rw [hleast, hrank, ← Shortest.readsBack_iff]
    decide +kernel
  have hrounds : Double.Rounds (Double.factor negative * least) (.finite negative rank) := by
    rw [Double.rounds_iff_readsAs, habs]
    exact ⟨hread, rfl⟩
  have hdecimal : IsDecimal 1 (Double.factor negative * least) :=
    ⟨5, -324, by decide, habs.trans hleast⟩
  exact hq.isDecimal.mono (hq.fewest hrounds hdecimal)

/-- The first digits of a number other than zero are not rounded to zero. -/
theorem not_readsAs_zero_firstDigits {count : ℕ} (hcount : 0 < count) (hrank : rank.val ≠ 0) :
    ¬ReadsAs 0 |firstDigits count q| := by
  intro hzero
  obtain ⟨hread, -⟩ := Double.rounds_iff_readsAs.mp hq.rounds
  have hne : q ≠ 0 := by
    rintro rfl
    rw [abs_zero] at hread
    exact Shortest.not_readsAs_zero (Nat.pos_of_ne_zero hrank) hread
  have hle := rank_le_one (abs_nonneg _) hzero hread (abs_lt_two_mul_firstDigits hcount hne)
  have hdecimal := (isDecimal_of_rank_one hq (by omega)).mono hcount
  rw [firstDigits_of_isDecimal hdecimal] at hzero
  exact hrank (hread.unique hzero)

end

theorem exists_cut_eq {count : ℕ} (hcount : 0 < count) (negative : Bool)
    (rank : Fin Layout.double.count) : ∃ rank' : Fin Layout.double.count,
      cut count (.finite negative rank) = .finite negative rank' ∧
      (rank'.val = 0 ↔ rank.val = 0) := by
  have hfinite : (Double.finite negative rank).isFinite = true := rfl
  by_cases hrank : rank.val = 0
  · have hzero := Double.finite_eq_ofRank_zero negative hrank
    exact ⟨rank, by rw [hzero, cut_zero], Iff.rfl⟩
  · obtain ⟨digits, q, hq⟩ := Double.exists_isShortest hfinite
    obtain ⟨negative', rank', hcut⟩ := Double.exists_finite_of_isFinite (cut_le count hfinite).1
    have hrounds := cut_rounds count hfinite hq
    have hnonzero := not_readsAs_zero_firstDigits hq hcount hrank
    rw [hcut] at hrounds ⊢
    obtain ⟨hread, hsign'⟩ := Double.rounds_iff_readsAs.mp hrounds
    have hsign := firstDigits_eq_factor_mul count (Double.rounds_iff_readsAs.mp hq.rounds).2
    have hne : |firstDigits count q| ≠ 0 := by
      intro habs
      have hzero := Shortest.readsAs_rankValue 0
      rw [Shortest.rankValue, Layout.units_zero, Nat.cast_zero, zero_div] at hzero
      exact hnonzero (habs ▸ hzero)
    have hfactor : Double.factor negative' = Double.factor negative := by
      rw [firstDigits_abs] at hsign
      exact mul_right_cancel₀ hne (hsign'.symm.trans hsign)
    have hrank' : rank'.val ≠ 0 := fun h => hnonzero (h ▸ hread)
    exact ⟨rank', by rw [Double.factor_injective hfactor], by simp [hrank, hrank']⟩

end SignificantFloat

namespace Numbers

theorem exists_result_toFloat (width : FloatWidth) {x : Double} (hfinite : x.isFinite = true) :
    ∃ v : SignificantFloat, (toFloat width (.number x)).result = .ok v ∧ v.width = width ∧
      v.value = SignificantFloat.cut width.significantDigits x := by
  refine ⟨⟨width, _, x, hfinite, rfl⟩, ?_, rfl, rfl⟩
  rw [toFloat, Report.result_reported, Report.result_ofExcept,
    SignificantFloat.coerce_of_finite width (Raw.finite_number hfinite), Ending.ofExcept_ok]

end Numbers

/-- A double is coerced to the one nearest to its shortest decimal with zeros in place of all but
the first eight or fifteen significant digits. That is finite, has the same sign, is not further
from zero and zero only if the double is, and is coerced to itself. -/
theorem toFloat_firstDigits {width : FloatWidth} {count : ℕ}
    (h : width = .four ∧ count = 8 ∨ width = .eight ∧ count = 15) (negative : Bool)
    (rank : Fin Layout.double.count) :
    ∃ (v : SignificantFloat) (rank' : Fin Layout.double.count) (digits : ℕ) (q : ℚ),
      (Double.finite negative rank).IsShortest digits q ∧
      (Numbers.toFloat width (.number (.finite negative rank))).result = .ok v ∧
      v.width = width ∧ v.value = .finite negative rank' ∧
      Double.Rounds (firstDigits count q) v.value ∧
      |v.value.toRat| ≤ |(Double.finite negative rank).toRat| ∧
      (v.value.toRat = 0 ↔ (Double.finite negative rank).toRat = 0) ∧
      (Numbers.toFloat width (.number v.value)).result = .ok v := by
  have hfinite (rank : Fin Layout.double.count) : (Double.finite negative rank).isFinite = true :=
    rfl
  have hcount : width.significantDigits = count ∧ 0 < count := by
    obtain ⟨rfl, rfl⟩ | ⟨rfl, rfl⟩ := h <;> decide
  obtain ⟨rfl, hcount⟩ := hcount
  obtain ⟨digits, q, hq⟩ := Double.exists_isShortest (hfinite rank)
  obtain ⟨rank', hcut, hzero⟩ := SignificantFloat.exists_cut_eq hcount negative rank
  have hrounds := SignificantFloat.cut_rounds width.significantDigits (hfinite rank) hq
  have hle := (SignificantFloat.cut_le width.significantDigits (hfinite rank)).2
  have hagain := SignificantFloat.cut_cut width.significantDigits (hfinite rank)
  obtain ⟨v, hresult, hwidth, hvalue⟩ := Numbers.exists_result_toFloat width (hfinite rank)
  rw [hcut] at hrounds hle hagain hvalue
  obtain ⟨u, hresult', hwidth', hvalue'⟩ := Numbers.exists_result_toFloat width (hfinite rank')
  obtain rfl : u = v :=
    SignificantFloat.ext (hwidth'.trans hwidth.symm) (hvalue'.trans (hagain.trans hvalue.symm))
  refine ⟨u, rank', digits, q, hq, hresult, hwidth, hvalue, ?_⟩
  rw [hvalue]
  exact ⟨hrounds, hle,
    by rw [Double.toRat_finite_eq_zero_iff, Double.toRat_finite_eq_zero_iff, hzero], hresult'⟩

theorem toFloat_firstDigits_tenths :
    let sum : Double := .finite false ⟨4599075939470750516, by decide⟩
    let tenths : Double := .finite false ⟨4599075939470750515, by decide⟩
    (FloatWidth.eight = .four ∧ 15 = 8 ∨ FloatWidth.eight = .eight ∧ 15 = 15) ∧
    sum.text = "0.30000000000000004".toList ∧ tenths.text = "0.3".toList ∧
    ∃ (v : SignificantFloat) (digits : ℕ) (q : ℚ), sum.IsShortest digits q ∧
      (Numbers.toFloat .eight (.number sum)).result = .ok v ∧ v.value = tenths ∧
      Double.Rounds (firstDigits 15 q) tenths ∧
      (Numbers.toFloat .eight (.number tenths)).result = .ok v := by
  intro sum tenths
  have hwidth : FloatWidth.eight = .four ∧ 15 = 8 ∨ FloatWidth.eight = .eight ∧ 15 = 15 := by
    decide
  have hresult : (Numbers.toFloat .eight (.number sum)).result.map SignificantFloat.value =
      .ok tenths := by
    decide +kernel
  obtain ⟨v, rank', digits, q, hq, hv, -, -, hrounds, -, -, hagain⟩ :=
    toFloat_firstDigits hwidth false ⟨4599075939470750516, by decide⟩
  rw [hv] at hresult
  obtain hvalue : v.value = tenths := Ending.ok.inj hresult
  rw [hvalue] at hrounds hagain
  exact ⟨hwidth, by decide +kernel, by decide +kernel, v, digits, q, hq, hv, hvalue, hrounds,
    hagain⟩

example : SignificantFloat.cut 8 (Literal.toDouble ⟨false, "123456789".toList, "125".toList, 0⟩) =
    .ofInt 123456780 := by
  decide +kernel

end Coercion
