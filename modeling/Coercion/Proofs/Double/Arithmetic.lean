import Coercion.Proofs.Number.Expansions

namespace Coercion.Double

theorem factor_xor (a b : Bool) : factor (a ^^ b) = factor a * factor b := by
  cases a <;> cases b <;> simp

theorem factor_mul_natAbs (n : ℤ) : factor (n < 0) * (n.natAbs : ℚ) = n := by
  have h := signed_natAbs n 1
  rw [mul_one, Nat.cast_one, mul_one] at h
  rw [← signed_cast, h]

theorem rounds_ofInt (n : ℤ) : Rounds n (ofInt n) := by
  have h := ofRatio_rounds (n < 0) n.natAbs Nat.one_pos
  rwa [Nat.cast_one, div_one, factor_mul_natAbs] at h

theorem toRat_ofInt {n : ℤ} (h : n.natAbs < 9007199254740992) : (ofInt n).toRat = n := by
  obtain ⟨rank, hn, hrank⟩ := ofInt_eq_finite h
  have hone := one_cast_pos.ne'
  rw [hn, toRat_finite, hrank, Nat.cast_mul, mul_div_cancel_right₀ _ hone, factor_mul_natAbs]

theorem Rounds.of_integer {f : Double} {n : ℤ} (hf : Rounds n f)
    (h : n.natAbs < 9007199254740992) : f.isFinite = true ∧ f.toRat = n := by
  obtain ⟨hfinite, hvalue⟩ := hf.same_value (rounds_ofInt n)
  rw [hfinite, hvalue, isFinite_ofInt h, toRat_ofInt h]
  exact ⟨rfl, rfl⟩

section

variable {x y : Double} (hx : x.isFinite = true) (hy : y.isFinite = true)

include hx

theorem toInt_eq : x.toInt = towardZero x.toRat := by
  obtain ⟨negative, a, rfl⟩ := exists_finite_of_isFinite hx
  rw [toRat_finite, towardZero_factor_mul negative (by positivity),
    Rat.natFloor_natCast_div_natCast, toInt]

theorem trunc_rounds : Rounds (towardZero x.toRat) x.trunc := by
  rw [← toInt_eq hx]
  obtain ⟨negative, a, rfl⟩ := exists_finite_of_isFinite hx
  have h := ofRatio_rounds negative (magnitude a / one) Nat.one_pos
  rwa [Nat.cast_one, div_one, ← signed_cast] at h

include hy

theorem le_iff : le x y = true ↔ x.toRat ≤ y.toRat := by
  obtain ⟨n, a, rfl⟩ := exists_finite_of_isFinite hx
  obtain ⟨m, b, rfl⟩ := exists_finite_of_isFinite hy
  exact le_finite_iff n m a b

theorem add_rounds : Rounds (x.toRat + y.toRat) (x.add y) := by
  obtain ⟨n, a, rfl⟩ := exists_finite_of_isFinite hx
  obtain ⟨m, b, rfl⟩ := exists_finite_of_isFinite hy
  obtain ⟨sum, hsum⟩ : ∃ sum, sum = signed n (magnitude a) + signed m (magnitude b) := ⟨_, rfl⟩
  have hvalue : (finite n a).toRat + (finite m b).toRat = sum / one := by
    rw [toRat, toRat, hsum, ← add_div]
    push_cast
    rfl
  rw [hvalue, add]
  simp only [← hsum]
  split_ifs with hzero
  · rw [hzero, Int.cast_zero, zero_div]
    exact rounds_zero (n && m)
  · have h := ofRatio_rounds (sum < 0) sum.natAbs one_pos
    rwa [← mul_div_assoc, factor_mul_natAbs] at h

theorem mul_rounds : Rounds (x.toRat * y.toRat) (x.mul y) := by
  obtain ⟨n, a, rfl⟩ := exists_finite_of_isFinite hx
  obtain ⟨m, b, rfl⟩ := exists_finite_of_isFinite hy
  have hvalue : (finite n a).toRat * (finite m b).toRat = factor (n ^^ m) *
      ((magnitude a * magnitude b : ℕ) / (one * one : ℕ)) := by
    rw [toRat_finite, toRat_finite, factor_xor]
    push_cast
    ring
  rw [hvalue]
  exact ofRatio_rounds (n ^^ m) _ (Nat.mul_pos one_pos one_pos)

theorem div_rounds (hne : y.toRat ≠ 0) : Rounds (x.toRat / y.toRat) (x.div y) := by
  obtain ⟨n, a, rfl⟩ := exists_finite_of_isFinite hx
  obtain ⟨m, b, rfl⟩ := exists_finite_of_isFinite hy
  have hone := one_cast_pos.ne'
  have hb : magnitude b ≠ 0 := by
    intro hb
    rw [toRat_finite, hb, Nat.cast_zero, zero_div, mul_zero] at hne
    exact hne rfl
  have hvalue : (finite n a).toRat / (finite m b).toRat =
      factor (n ^^ m) * (magnitude a / magnitude b) := by
    have hb' : (magnitude b : ℚ) ≠ 0 := by exact_mod_cast hb
    rw [toRat_finite, toRat_finite, factor_xor]
    cases m <;> simp <;> field_simp
  rw [hvalue, div, if_neg hb]
  exact ofRatio_rounds (n ^^ m) _ (Nat.pos_of_ne_zero hb)

end

theorem within_iff {x : Double} (hx : x.isFinite = true) {bound : ℤ}
    (h : bound.natAbs < 9007199254740992) : x.within bound = true ↔ |x.toRat| ≤ bound := by
  have hlow := isFinite_ofInt (n := -bound) (by omega)
  have hhigh := isFinite_ofInt h
  rw [within, Bool.and_eq_true, le_iff hlow hx, le_iff hx hhigh, toRat_ofInt h,
    toRat_ofInt (by omega), abs_le]
  push_cast
  rfl

/-- Within a bound that is exact, a number is cut to its integer part without rounding. -/
theorem trunc_of_abs_le {x : Double} (hx : x.isFinite = true) {bound : ℤ}
    (hbound : bound.natAbs < 9007199254740992) (h : |towardZero x.toRat| ≤ bound) :
    x.trunc.within bound = true ∧ x.trunc.toInt = towardZero x.toRat := by
  have hsmall : (towardZero x.toRat).natAbs < 9007199254740992 := by
    obtain ⟨hlow, hhigh⟩ := abs_le.mp h
    omega
  obtain ⟨hfinite, hvalue⟩ := (trunc_rounds hx).of_integer hsmall
  refine ⟨?_, by rw [toInt_eq hfinite, hvalue, towardZero_intCast]⟩
  rw [within_iff hfinite hbound, hvalue]
  exact_mod_cast h

theorem toRat_of_integer? {x : Double} {n : ℤ} (h : x.integer? = some n) :
    x.isFinite = true ∧ x.toRat = n := by
  cases x with
  | nan => cases h
  | infinite negative => cases h
  | finite negative rank =>
    unfold integer? at h
    dsimp only at h
    split_ifs at h with hwhole
    obtain rfl := Option.some.inj h
    obtain ⟨k, hk⟩ := Nat.dvd_of_mod_eq_zero hwhole
    refine ⟨rfl, ?_⟩
    rw [toRat_finite, signed_cast, hk, Nat.mul_div_cancel_left _ one_pos, Nat.cast_mul,
      mul_div_cancel_left₀ _ one_cast_pos.ne']

end Coercion.Double
