import Coercion.Proofs.Double.Rounding
import Mathlib.Algebra.Order.Field.Power

namespace Coercion.Double

/-- The value of a finite number, and zero for the others. -/
def toRat : Double → ℚ
  | finite negative rank => (signed negative (magnitude rank) : ℚ) / one
  | _ => 0

/-- A number is rounded to the magnitude nearest to its own, infinity past the finite ones, with
the sign of the number unless that is zero. -/
def Rounds (x : ℚ) (f : Double) : Prop :=
  ∃ negative rank, f = ofRank negative rank ∧ Layout.double.IsNearest (|x| * one) rank ∧
    (x < 0 → negative = true) ∧ (0 < x → negative = false)

theorem one_eq : one = 2 ^ Layout.double.unitBits := by
  rw [one, Layout.unitsInOne, Nat.shiftLeft_eq, one_mul]

theorem one_cast_pos : (0 : ℚ) < one := by
  exact_mod_cast one_pos

def factor (negative : Bool) : ℚ := if negative then -1 else 1

@[simp] theorem factor_true : factor true = -1 := rfl

@[simp] theorem factor_false : factor false = 1 := rfl

theorem signed_cast (negative : Bool) (n : Nat) :
    (signed negative n : ℚ) = factor negative * n := by
  cases negative <;> simp [signed, factor]

theorem abs_factor_mul_eq (negative : Bool) (x : ℚ) : |factor negative * x| = |x| := by
  cases negative <;> simp

theorem abs_factor_mul (negative : Bool) {x : ℚ} (hx : 0 ≤ x) : |factor negative * x| = x := by
  rw [abs_factor_mul_eq, abs_of_nonneg hx]

theorem toRat_finite (negative : Bool) (rank : Fin Layout.double.count) :
    (finite negative rank).toRat = factor negative * (magnitude rank / one) := by
  rw [toRat, signed_cast, mul_div_assoc]

theorem abs_toRat_finite (negative : Bool) (rank : Fin Layout.double.count) :
    |(finite negative rank).toRat| = magnitude rank / one := by
  rw [toRat_finite, abs_factor_mul negative (by positivity)]

theorem ten_zpow (e : Int) : (10 : ℚ) ^ e = 10 ^ e.toNat / 10 ^ (-e).toNat := by
  obtain ⟨n, rfl | rfl⟩ := e.eq_nat_or_neg
  · simp
  · simp [zpow_neg]

theorem magnitude_le_iff {a b : Fin Layout.double.count} :
    magnitude a ≤ magnitude b ↔ a ≤ b :=
  Layout.double.units_strictMono.le_iff_le

theorem magnitude_eq_zero_iff {a : Fin Layout.double.count} : magnitude a = 0 ↔ a.val = 0 := by
  have hzero : Layout.double.units 0 = 0 := Layout.double.units_zero
  rw [← hzero]
  exact Layout.double.units_strictMono.injective.eq_iff

theorem le_finite_iff (negative negative' : Bool) (a b : Fin Layout.double.count) :
    le (finite negative a) (finite negative' b) = true ↔
      (finite negative a).toRat ≤ (finite negative' b).toRat := by
  rw [toRat, toRat, div_le_div_iff_of_pos_right one_cast_pos, Int.cast_le, le, decide_eq_true_eq]

theorem isZero_finite_iff (negative : Bool) (rank : Fin Layout.double.count) :
    (finite negative rank).isZero = true ↔ (finite negative rank).toRat = 0 := by
  obtain ⟨zeroRank, hzero, hmagnitude⟩ := ofInt_eq_finite (n := 0) (by decide)
  have hvalue : (finite (decide ((0 : Int) < 0)) zeroRank).toRat = 0 := by
    rw [toRat_finite, hmagnitude]
    simp
  rw [isZero, zero, hzero, Bool.and_eq_true, le_finite_iff, le_finite_iff, hvalue, and_comm]
  exact le_antisymm_iff.symm

theorem rounds_finite_iff {x : ℚ} {negative : Bool} {rank : Fin Layout.double.count} :
    Rounds x (finite negative rank) ↔ Layout.double.IsNearest (|x| * one) rank ∧
      (x < 0 → negative = true) ∧ (0 < x → negative = false) := by
  constructor
  · rintro ⟨negative', rank', heq, hnearest, hsign⟩
    unfold ofRank at heq
    split_ifs at heq with hlt
    obtain ⟨rfl, rfl⟩ := finite.inj heq
    exact ⟨hnearest, hsign⟩
  · rintro ⟨hnearest, hsign⟩
    exact ⟨negative, rank, by rw [ofRank, dif_pos rank.isLt], hnearest, hsign⟩

theorem isNearest_ratio (num : Nat) {den : Nat} (hden : 0 < den) :
    Layout.double.IsNearest (num / den * one) (Layout.double.nearest num den) := by
  have hunits : (num / den * one : ℚ) = num * 2 ^ Layout.double.unitBits / den := by
    rw [one_eq]
    push_cast
    ring
  rw [hunits]
  exact Layout.double.isNearest_nearest (by decide) num hden

theorem ofRatio_rounds (negative : Bool) (num : Nat) {den : Nat} (hden : 0 < den) :
    Rounds (factor negative * (num / den)) (ofRatio negative num den) := by
  refine ⟨negative, _, rfl, ?_, ?_, ?_⟩
  · rw [abs_factor_mul negative (by positivity)]
    exact isNearest_ratio num hden
  · cases negative
    · intro hlt
      have : (0 : ℚ) ≤ num / den := by positivity
      rw [factor_false, one_mul] at hlt
      linarith
    · exact fun _ => rfl
  · cases negative
    · exact fun _ => rfl
    · intro hlt
      have : (0 : ℚ) ≤ num / den := by positivity
      rw [factor_true] at hlt
      linarith

theorem rounds_zero (negative : Bool) : Rounds 0 (ofRank negative 0) := by
  refine ⟨negative, 0, rfl, ?_, fun h => absurd h (lt_irrefl 0), fun h => absurd h (lt_irrefl 0)⟩
  intro other
  simp [Layout.units_zero]

/-- A number has a double to which it is rounded, and only one if it is not zero. -/
theorem Rounds.unique {x : ℚ} (hx : x ≠ 0) {f g : Double} (hf : Rounds x f) (hg : Rounds x g) :
    f = g := by
  obtain ⟨negative, rank, rfl, hnearest, hneg, hpos⟩ := hf
  obtain ⟨negative', rank', rfl, hnearest', hneg', hpos'⟩ := hg
  obtain hlt | hlt := hx.lt_or_gt
  · rw [hneg hlt, hneg' hlt, hnearest.unique hnearest']
  · rw [hpos hlt, hpos' hlt, hnearest.unique hnearest']

theorem Rounds.eq_ofRank_zero {f : Double} (hf : Rounds 0 f) :
    ∃ negative, f = ofRank negative 0 := by
  obtain ⟨negative, rank, rfl, hnearest, -⟩ := hf
  have hunits := Layout.double.isNearest_units 0
  rw [abs_zero, zero_mul] at hnearest
  rw [Layout.units_zero, Nat.cast_zero] at hunits
  obtain rfl := hnearest.unique hunits
  exact ⟨negative, rfl⟩

/-- Zero is rounded to nothing but zero. -/
theorem Rounds.value_of_zero {f : Double} (hf : Rounds 0 f) :
    f.isFinite = true ∧ f.toRat = 0 := by
  obtain ⟨negative, rfl⟩ := hf.eq_ofRank_zero
  have hmagnitude : magnitude ⟨0, by decide⟩ = 0 := magnitude_eq_zero_iff.mpr rfl
  rw [ofRank, dif_pos (by decide), toRat_finite, hmagnitude]
  simp [isFinite]

theorem Rounds.same_value {x : ℚ} {f g : Double} (hf : Rounds x f) (hg : Rounds x g) :
    f.isFinite = g.isFinite ∧ f.toRat = g.toRat := by
  by_cases hx : x = 0
  · subst hx
    rw [hf.value_of_zero.1, hf.value_of_zero.2, hg.value_of_zero.1, hg.value_of_zero.2]
    exact ⟨rfl, rfl⟩
  · rw [hf.unique hx hg]
    exact ⟨rfl, rfl⟩

theorem exists_finite_of_isFinite {f : Double} (h : f.isFinite = true) :
    ∃ negative rank, f = finite negative rank := by
  cases f with
  | nan | infinite => cases h
  | finite negative rank => exact ⟨negative, rank, rfl⟩

end Coercion.Double
