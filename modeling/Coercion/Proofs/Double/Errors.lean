import Coercion.Proofs.Double.Arithmetic
import Coercion.Proofs.Double.Shortest
import Mathlib.Algebra.Order.Archimedean.Basic

namespace Coercion

/-- Past the first exponent the nearest magnitude is at most half a step of the grid away. -/
theorem Layout.IsNearest.abs_sub_le {l : Layout} {y : ℚ} {rank : Nat} (h : l.IsNearest y rank)
    (hy : l.perExponent ≤ y) : |l.units rank - y| * (2 * l.perExponent) ≤ y := by
  have hper : (0 : ℚ) < l.perExponent := by exact_mod_cast l.perExponent_pos
  obtain ⟨shift, hlow, hhigh⟩ := exists_nat_pow_near ((one_le_div hper).mpr hy) one_lt_two
  have hstep : (0 : ℚ) < 2 ^ shift := by positivity
  rw [le_div_iff₀ hper] at hlow
  rw [div_lt_iff₀ hper, pow_succ] at hhigh
  obtain ⟨q, hq⟩ : ∃ q, q = y / 2 ^ shift := ⟨_, rfl⟩
  have hy' : y = q * 2 ^ shift := by rw [hq, div_mul_cancel₀ _ hstep.ne']
  have hlow' : l.perExponent ≤ q := by
    rw [hq, le_div_iff₀ hstep]
    linarith
  have hhigh' : q < 2 * l.perExponent := by
    rw [hq, div_lt_iff₀ hstep]
    linarith
  obtain ⟨k, hk⟩ : ∃ k, k = ⌊q + 1 / 2⌋₊ := ⟨_, rfl⟩
  obtain ⟨hkle, hklt⟩ := (Nat.floor_eq_iff (by linarith)).mp hk.symm
  have hkhigh : k ≤ 2 * l.perExponent := by
    have : (k : ℚ) < (2 * l.perExponent + 1 : ℕ) := by
      push_cast
      linarith
    exact Nat.lt_succ_iff.mp (by exact_mod_cast this)
  have hklow : l.perExponent ≤ k := by
    rw [hk]
    exact Nat.le_floor (by linarith)
  have hgrid := (h (shift * l.perExponent + k)).1
  rw [l.units_of_shift hkhigh (.inr hklow)] at hgrid
  have hclose : |((k * 2 ^ shift : ℕ) : ℚ) - y| ≤ 2 ^ shift / 2 := by
    rw [hy', abs_le]
    push_cast
    constructor <;> nlinarith
  calc |l.units rank - y| * (2 * l.perExponent) ≤ 2 ^ shift / 2 * (2 * l.perExponent) := by
        gcongr
        exact hgrid.trans hclose
    _ = 2 ^ shift * l.perExponent := by ring
    _ ≤ y := hlow

namespace Double

theorem rounds_toRat {f : Double} (hf : f.isFinite = true) : Rounds f.toRat f := by
  obtain ⟨negative, rank, rfl⟩ := exists_finite_of_isFinite hf
  rw [rounds_iff_readsAs, abs_toRat_finite, toRat_finite]
  exact ⟨Shortest.readsAs_rankValue rank, rfl⟩

namespace Rounds

variable {x y : ℚ} {f g : Double} (hf : Rounds x f)

include hf

theorem abs_sub_le (hfinite : f.isFinite = true) (hx : 1 / 2 ^ 1022 ≤ |x|) :
    |f.toRat - x| * 2 ^ 53 ≤ |x| := by
  obtain ⟨negative, rank, rfl⟩ := exists_finite_of_isFinite hfinite
  obtain ⟨hread, hsign⟩ := rounds_iff_readsAs.mp hf
  have hone : (one : ℚ) = 2 ^ 1022 * 2 ^ 52 := by
    rw [one_eq, ← pow_add]
    exact Nat.cast_pow 2 _
  have hper : (Layout.double.perExponent : ℚ) = 2 ^ 52 := by
    have : Layout.double.perExponent = 2 ^ 52 := by decide
    rw [this]
    norm_num
  have hnormal : (Layout.double.perExponent : ℚ) ≤ |x| * one := by
    rw [div_le_iff₀ (by positivity)] at hx
    rw [hper, hone, ← mul_assoc]
    exact le_mul_of_one_le_left (by positivity) hx
  have hunits := Layout.IsNearest.abs_sub_le hread hnormal
  have herror : |(finite negative rank).toRat - x| * one =
      |Layout.double.units rank - |x| * one| := by
    nth_rewrite 1 [hsign]
    rw [toRat_finite, ← mul_sub, abs_factor_mul_eq, ← abs_of_pos one_cast_pos, ← abs_mul,
      abs_of_pos one_cast_pos, sub_mul, div_mul_cancel₀ _ one_cast_pos.ne']
    rfl
  rw [← herror, hper] at hunits
  have hcancel : (|(finite negative rank).toRat - x| * 2 ^ 53) * one ≤ |x| * one := by
    linarith
  exact le_of_mul_le_mul_right hcancel one_cast_pos

theorem toRat_nonneg (hx : 0 ≤ x) : 0 ≤ f.toRat := by
  obtain rfl | hpos := hx.eq_or_lt
  · exact (hf.of_integer (n := 0) (by decide)).2.ge
  · cases f with
    | nan | infinite => exact le_rfl
    | finite negative rank =>
      rw [(rounds_finite_iff.mp hf).2.2 hpos, toRat_finite, factor_false, one_mul]
      positivity

theorem toRat_nonpos (hx : x ≤ 0) : f.toRat ≤ 0 := by
  obtain rfl | hneg := hx.eq_or_lt
  · exact (hf.of_integer (n := 0) (by decide)).2.le
  · cases f with
    | nan | infinite => exact le_rfl
    | finite negative rank =>
      rw [(rounds_finite_iff.mp hf).2.1 hneg, toRat_finite, factor_true, neg_one_mul, neg_nonpos]
      positivity

section

variable (hg : Rounds y g) (hg' : g.isFinite = true)

include hg hg'

theorem of_abs_le (h : |x| ≤ |y|) : f.isFinite = true ∧ |f.toRat| ≤ |g.toRat| := by
  obtain ⟨negative, rank, rfl, hnearest, -⟩ := hf
  obtain ⟨negative', rank', rfl⟩ := exists_finite_of_isFinite hg'
  have hle := hnearest.mono (rounds_finite_iff.mp hg).1
    (mul_le_mul_of_nonneg_right h one_cast_pos.le)
  have hlt : rank < Layout.double.count := hle.trans_lt rank'.isLt
  rw [ofRank, dif_pos hlt, abs_toRat_finite, abs_toRat_finite]
  refine ⟨rfl, div_le_div_of_nonneg_right ?_ one_cast_pos.le⟩
  exact_mod_cast magnitude_le_iff.mpr hle

theorem toRat_le (hf' : f.isFinite = true) (h : x ≤ y) : f.toRat ≤ g.toRat := by
  obtain hx | hx := le_total 0 x
  · have hmono := (hf.of_abs_le hg hg' (abs_le_abs_of_nonneg hx h)).2
    rwa [abs_of_nonneg (hf.toRat_nonneg hx), abs_of_nonneg (hg.toRat_nonneg (hx.trans h))] at hmono
  · obtain hy | hy := le_total y 0
    · have hmono := (hg.of_abs_le hf hf' (abs_le_abs_of_nonpos hy h)).2
      rw [abs_of_nonpos (hf.toRat_nonpos hx), abs_of_nonpos (hg.toRat_nonpos hy)] at hmono
      linarith
    · exact (hf.toRat_nonpos hx).trans (hg.toRat_nonneg hy)

end

theorem of_near_integer {n : ℤ} (hn : n.natAbs + 1 < 9007199254740992) (hx : |x - n| ≤ 1) :
    f.isFinite = true ∧ |f.toRat - n| ≤ 1 := by
  obtain ⟨hlow, hhigh⟩ := abs_le.mp hx
  have hbound : |x| ≤ |((n.natAbs + 1 : ℤ) : ℚ)| := by
    have hsplit := abs_sub_abs_le_abs_sub x n
    push_cast
    exact (by linarith : |x| ≤ |(n : ℚ)| + 1).trans (le_abs_self _)
  have hfinite := (hf.of_abs_le (rounds_ofInt _) (isFinite_ofInt (by omega)) hbound).1
  have hbelow := (rounds_ofInt (n - 1)).toRat_le hf hfinite (isFinite_ofInt (by omega))
    (by push_cast; linarith)
  have habove := hf.toRat_le (rounds_ofInt (n + 1)) (isFinite_ofInt (by omega)) hfinite
    (by push_cast; linarith)
  rw [toRat_ofInt (by omega)] at hbelow habove
  push_cast at hbelow habove
  exact ⟨hfinite, abs_le.mpr ⟨by linarith, by linarith⟩⟩

end Rounds

end Double

end Coercion
