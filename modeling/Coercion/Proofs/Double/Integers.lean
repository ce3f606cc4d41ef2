import Coercion.Double.Basic
import Mathlib.Tactic.Linarith
import Mathlib.Tactic.Positivity
import Mathlib.Tactic.Ring

namespace Coercion

theorem roundHalfEven_mul (num : Nat) {den : Nat} (h : 0 < den) :
    roundHalfEven (num * den) den = num := by
  simp [roundHalfEven, Nat.mul_div_cancel _ h, h]

namespace Layout

/-- The magnitude of a rank past the first exponent, by exponent and fraction. -/
theorem units_normal (l : Layout) (shift fraction : Nat) (h : fraction < l.perExponent) :
    l.units (shift * l.perExponent + (l.perExponent + fraction)) =
      (l.perExponent + fraction) * 2 ^ shift := by
  have hrank : shift * l.perExponent + (l.perExponent + fraction) =
      l.perExponent * (shift + 1) + fraction := by ring
  have hpos : 0 < l.perExponent := Nat.zero_lt_of_lt h
  unfold units
  rw [hrank, if_neg (by nlinarith), Nat.mul_add_mod, Nat.mod_eq_of_lt h,
    Nat.mul_add_div hpos, Nat.div_eq_of_lt h, Nat.shiftLeft_eq]
  simp

/-- A natural number with no more bits than a fraction and its leading one has a magnitude of its
own. -/
theorem units_nearest (l : Layout) {n : Nat} (hn : n ≠ 0) (hbits : n.log2 ≤ l.fractionBits)
    (hunit : l.fractionBits ≤ l.unitBits) :
    l.nearest n 1 < (l.unitBits + 2) * l.perExponent ∧
      l.units (l.nearest n 1) = n * l.unitsInOne := by
  obtain ⟨k, hk⟩ : ∃ k, k = n.log2 := ⟨_, rfl⟩
  have hlow : 2 ^ k ≤ n := hk ▸ Nat.log2_self_le hn
  have hhigh : n < 2 ^ (k + 1) := hk ▸ Nat.lt_log2_self
  have hlog : (n * 2 ^ l.unitBits).log2 = k + l.unitBits := by
    rw [Nat.log2_eq_iff (by positivity)]
    constructor
    · rw [pow_add]
      exact Nat.mul_le_mul_right _ hlow
    · rw [show k + l.unitBits + 1 = k + 1 + l.unitBits by omega, pow_add]
      exact Nat.mul_lt_mul_of_pos_right hhigh (by positivity)
  obtain ⟨shift, hshift⟩ : ∃ shift, shift = k + l.unitBits - l.fractionBits := ⟨_, rfl⟩
  have hsplit : n * 2 ^ l.unitBits = n * 2 ^ (l.fractionBits - k) * 2 ^ shift := by
    rw [mul_assoc, ← pow_add]
    congr 2
    omega
  have hrank : l.nearest n 1 = shift * l.perExponent + n * 2 ^ (l.fractionBits - k) := by
    simp only [nearest, Nat.shiftLeft_eq, Nat.div_one, hlog, ← hshift, one_mul]
    rw [hsplit, roundHalfEven_mul _ (by positivity)]
  have hper : l.perExponent = 2 ^ (l.fractionBits - k) * 2 ^ k := by
    rw [perExponent, Nat.shiftLeft_eq, one_mul, ← pow_add]
    congr 1
    omega
  have hfirst : l.perExponent ≤ n * 2 ^ (l.fractionBits - k) := by
    rw [hper, mul_comm]
    exact Nat.mul_le_mul_right _ hlow
  have hlast : n * 2 ^ (l.fractionBits - k) < 2 * l.perExponent := by
    rw [hper, mul_comm n, mul_left_comm, ← pow_succ']
    exact Nat.mul_lt_mul_of_pos_left hhigh (by positivity)
  obtain ⟨fraction, hfraction⟩ := Nat.exists_eq_add_of_le hfirst
  have hfraction' : fraction < l.perExponent := by omega
  rw [hrank, hfraction]
  constructor
  · have : shift + 2 ≤ l.unitBits + 2 := by omega
    have := Nat.mul_le_mul_right l.perExponent this
    rw [Nat.add_mul] at this
    omega
  · rw [units_normal l shift fraction hfraction', ← hfraction, ← hsplit, unitsInOne,
      Nat.shiftLeft_eq, one_mul]

end Layout

namespace Double

theorem ofInt_eq_finite {n : Int} (h : n.natAbs < 9007199254740992) :
    ∃ rank, ofInt n = finite (n < 0) rank ∧ magnitude rank = n.natAbs * one := by
  have hrank : Layout.double.nearest n.natAbs 1 < Layout.double.count ∧
      Layout.double.units (Layout.double.nearest n.natAbs 1) = n.natAbs * one := by
    by_cases hn : n.natAbs = 0
    · rw [hn]
      exact ⟨by decide, by decide⟩
    · have hbits : n.natAbs.log2 ≤ 52 := Nat.lt_succ_iff.mp ((Nat.log2_lt hn).mpr h)
      obtain ⟨hlt, heq⟩ := Layout.double.units_nearest hn hbits (by decide)
      exact ⟨hlt.trans (by decide), heq⟩
  refine ⟨⟨_, hrank.1⟩, ?_, hrank.2⟩
  simp only [ofInt, ofRatio, ofRank, hrank.1, ↓reduceDIte]

theorem one_pos : 0 < one := by
  simp [one, Layout.unitsInOne, Nat.shiftLeft_eq]

theorem signed_natAbs (n : Int) (k : Nat) : signed (n < 0) (n.natAbs * k) = n * k := by
  unfold signed
  by_cases h : n < 0
  · simp only [h, decide_true, ↓reduceIte, Nat.cast_mul, Int.natCast_natAbs, abs_of_neg h]
    ring
  · simp only [h, decide_false, Bool.false_eq_true, ↓reduceIte, Nat.cast_mul,
      Int.natCast_natAbs, abs_of_nonneg (not_lt.mp h)]

section

variable {n m : Int} (h : n.natAbs < 9007199254740992)

include h

theorem isNaN_ofInt : (ofInt n).isNaN = false := by
  obtain ⟨rank, hn, -⟩ := ofInt_eq_finite h
  rw [hn]
  rfl

theorem isFinite_ofInt : (ofInt n).isFinite = true := by
  obtain ⟨rank, hn, -⟩ := ofInt_eq_finite h
  rw [hn]
  rfl

theorem integer?_ofInt : (ofInt n).integer? = some n := by
  obtain ⟨rank, hn, hrank⟩ := ofInt_eq_finite h
  have := signed_natAbs n 1
  rw [hn]
  simp only [integer?, hrank, Nat.mul_mod_left, ↓reduceIte, Nat.mul_div_cancel _ one_pos]
  simpa using this

theorem le_ofInt (h' : m.natAbs < 9007199254740992) : le (ofInt n) (ofInt m) = decide (n ≤ m) := by
  obtain ⟨rank, hn, hrank⟩ := ofInt_eq_finite h
  obtain ⟨rank', hm, hrank'⟩ := ofInt_eq_finite h'
  rw [hn, hm]
  simp only [le, hrank, hrank', signed_natAbs]
  exact decide_eq_decide.mpr (mul_le_mul_iff_of_pos_right (by exact_mod_cast one_pos))

theorem isPositive_ofInt : (ofInt n).isPositive = decide (0 < n) := by
  unfold isPositive zero
  rw [le_ofInt (by decide) h, le_ofInt h (by decide)]
  by_cases hn : 0 < n
  · simp [hn, hn.le]
  · simp [hn]
    omega

end

end Double

end Coercion
