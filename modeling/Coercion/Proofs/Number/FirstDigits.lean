import Coercion.Proofs.Double.FifteenDigits
import Coercion.Proofs.Number.Expansions
import Mathlib.Data.Int.Log

namespace Coercion

open Text

def lastPlace (count : ℕ) (q : ℚ) : ℤ := Int.log 10 |q| + 1 - count

/-- A number with its digits after the first significant ones replaced by zeros. -/
def firstDigits (count : ℕ) (q : ℚ) : ℚ :=
  towardZero (q / 10 ^ lastPlace count q) * 10 ^ lastPlace count q

section

variable (count : ℕ) {q : ℚ}

theorem firstDigits_eq {negative : Bool} (hq : q = Double.factor negative * |q|) :
    firstDigits count q = Double.factor negative *
      (⌊|q| / 10 ^ lastPlace count q⌋₊ * 10 ^ lastPlace count q) := by
  obtain ⟨p, hp⟩ : ∃ p, p = lastPlace count q := ⟨_, rfl⟩
  rw [firstDigits, ← hp]
  nth_rewrite 1 [hq]
  rw [mul_div_assoc, towardZero_factor_mul _ (by positivity), Double.signed_cast, mul_assoc]

theorem abs_firstDigits (q : ℚ) :
    |firstDigits count q| = ⌊|q| / 10 ^ lastPlace count q⌋₊ * 10 ^ lastPlace count q := by
  obtain ⟨negative, hq⟩ := exists_eq_factor_mul_abs q
  rw [firstDigits_eq count hq, Double.abs_factor_mul _ (by positivity)]

theorem firstDigits_abs (q : ℚ) : firstDigits count |q| = |firstDigits count q| := by
  have hplace : lastPlace count |q| = lastPlace count q := by
    rw [lastPlace, abs_abs]
    rfl
  have hpos : |q| = Double.factor false * |(|q|)| := by
    rw [abs_abs, Double.factor_false, one_mul]
  rw [firstDigits_eq count hpos, abs_firstDigits, hplace, abs_abs, Double.factor_false, one_mul]

theorem firstDigits_eq_factor_mul {negative : Bool} (hq : q = Double.factor negative * |q|) :
    firstDigits count q = Double.factor negative * firstDigits count |q| := by
  rw [firstDigits_abs, abs_firstDigits]
  exact firstDigits_eq count hq

theorem abs_firstDigits_le (q : ℚ) : |firstDigits count q| ≤ |q| := by
  rw [abs_firstDigits, ← le_div_iff₀ (by positivity)]
  exact Nat.floor_le (by positivity)

/-- The first digit of a number stands so many places above the last one. -/
theorem lastPlace_bounds (hq : q ≠ 0) :
    10 ^ (lastPlace count q + count - 1) ≤ |q| ∧ |q| < 10 ^ (lastPlace count q + count) := by
  have hlog : lastPlace count q + count = Int.log 10 |q| + 1 := by
    rw [lastPlace]
    omega
  rw [hlog, add_sub_cancel_right]
  exact ⟨by exact_mod_cast Int.zpow_log_le_self (by decide) (abs_pos.mpr hq),
    by exact_mod_cast Int.lt_zpow_succ_log_self (by decide) |q|⟩

variable {count}

theorem lastPlace_eq {e : ℤ} (hlow : 10 ^ (e + count - 1) ≤ |q|) (hhigh : |q| < 10 ^ (e + count)) :
    lastPlace count q = e := by
  have hpos : 0 < |q| := lt_of_lt_of_le (by positivity) hlow
  obtain ⟨hlow', hhigh'⟩ := lastPlace_bounds count (abs_pos.mp hpos)
  have hten : (1 : ℚ) < 10 := by norm_num
  have hle := (zpow_lt_zpow_iff_right₀ hten).mp (hlow.trans_lt hhigh')
  have hge := (zpow_lt_zpow_iff_right₀ hten).mp (hlow'.trans_lt hhigh)
  omega

theorem isDecimal_firstDigits (q : ℚ) : IsDecimal count (firstDigits count q) := by
  refine ⟨_, _, ?_, abs_firstDigits count q⟩
  obtain rfl | hq := eq_or_ne q 0
  · rw [abs_zero, zero_div, Nat.floor_zero]
    positivity
  · rw [Nat.floor_lt (by positivity), div_lt_iff₀ (by positivity)]
    push_cast
    rw [← zpow_natCast, ← zpow_add₀ (by norm_num), add_comm]
    exact (lastPlace_bounds count hq).2

theorem firstDigits_of_isDecimal (h : IsDecimal count q) : firstDigits count q = q := by
  obtain rfl | hq := eq_or_ne q 0
  · rw [firstDigits, zero_div, ← Int.cast_zero, towardZero_intCast]
    simp
  · obtain ⟨negative, hsign⟩ := exists_eq_factor_mul_abs q
    have hlow := (lastPlace_bounds count hq).1
    obtain hlt | ⟨n, hn⟩ := (isDecimal_abs_iff.mpr h).lt_or_multiple (abs_nonneg q)
      (lastPlace count q)
    · exact absurd hlt hlow.not_gt
    · have hstep : (0 : ℚ) < 10 ^ lastPlace count q := by positivity
      have hfloor : ⌊|q| / 10 ^ lastPlace count q⌋₊ = n := by
        rw [(div_eq_iff hstep.ne').mpr hn, Nat.floor_natCast]
      rw [firstDigits_eq count hsign, hfloor, ← hn]
      exact hsign.symm

theorem abs_lt_two_mul_firstDigits (hcount : 0 < count) (hq : q ≠ 0) :
    |q| < 2 * |firstDigits count q| := by
  obtain ⟨p, hp⟩ : ∃ p, p = lastPlace count q := ⟨_, rfl⟩
  have hstep : (0 : ℚ) < 10 ^ p := by positivity
  have hone : 1 ≤ ⌊|q| / 10 ^ p⌋₊ := by
    refine Nat.le_floor ?_
    rw [Nat.cast_one, le_div_iff₀ hstep, one_mul]
    refine le_trans (zpow_le_zpow_right₀ (by norm_num) ?_) (hp ▸ (lastPlace_bounds count hq).1)
    omega
  have hlt := Nat.lt_floor_add_one (|q| / 10 ^ p)
  rw [div_lt_iff₀ hstep] at hlt
  have hone' : (1 : ℚ) ≤ ⌊|q| / 10 ^ p⌋₊ := by exact_mod_cast hone
  rw [abs_firstDigits, ← hp]
  nlinarith

end

/-- The number of the first digits of a row is what is left of its number without the others. -/
theorem Text.toNat_take {t : Text} (ht : IsNumber t) {count rest : ℕ}
    (h : t.length = count + rest) : toNat t / 10 ^ rest = toNat (t.take count) := by
  have hdrop : (t.drop count).length = rest := by
    rw [List.length_drop, h, Nat.add_sub_cancel_left]
  have happend := toNat_append (t.take count) (t.drop count)
  have hlt := toNat_lt fun c hc => ht c (List.mem_of_mem_drop (i := count) hc)
  rw [List.take_append_drop, hdrop] at happend
  rw [hdrop] at hlt
  rw [happend, mul_comm, Nat.mul_add_div (by positivity), Nat.div_eq_of_lt hlt, add_zero]

theorem Text.lastPlace_toNat {t : Text} (ht : IsNumber t) (hne : t ≠ [])
    (hhead : t.head? ≠ some '0') {count rest : ℕ} (h : t.length = count + rest) (e : ℤ) :
    lastPlace count (toNat t * 10 ^ e : ℚ) = e + rest := by
  have hlow := le_toNat ht hne hhead
  have hhigh := toNat_lt ht
  have hpos := List.length_pos_of_ne_nil hne
  have hfirst : e + rest + count - 1 = (t.length - 1 : ℕ) + e := by omega
  have hend : e + rest + count = (t.length : ℕ) + e := by omega
  have habs : |(toNat t * 10 ^ e : ℚ)| = toNat t * 10 ^ e := abs_of_nonneg (by positivity)
  apply lastPlace_eq
  · rw [habs, hfirst, zpow_add₀ (by norm_num), zpow_natCast]
    gcongr
    exact_mod_cast hlow
  · rw [habs, hend, zpow_add₀ (by norm_num), zpow_natCast]
    gcongr
    exact_mod_cast hhigh

theorem Text.firstDigits_toNat {t : Text} (ht : IsNumber t) (hhead : t.head? ≠ some '0') (count : ℕ)
    (e : ℤ) : firstDigits count (toNat t * 10 ^ e) =
      toNat (t.take count ++ List.replicate (t.length - count) '0') * 10 ^ e := by
  have habs : |(toNat t * 10 ^ e : ℚ)| = toNat t * 10 ^ e := abs_of_nonneg (by positivity)
  obtain hle | hlt := le_or_gt t.length count
  · have hdecimal : IsDecimal count (toNat t * 10 ^ e : ℚ) :=
      ⟨toNat t, e, (toNat_lt ht).trans_le (Nat.pow_le_pow_right (by decide) hle), habs⟩
    rw [firstDigits_of_isDecimal hdecimal, List.take_of_length_le hle, Nat.sub_eq_zero_of_le hle,
      List.replicate_zero, List.append_nil]
  · obtain ⟨rest, hrest⟩ := Nat.exists_eq_add_of_le hlt.le
    have hplace := lastPlace_toNat ht (List.ne_nil_of_length_pos (by omega)) hhead hrest e
    have hratio : (toNat t * 10 ^ e : ℚ) / 10 ^ (e + rest) = toNat t / (10 ^ rest : ℕ) := by
      rw [zpow_add₀ (by norm_num), zpow_natCast]
      push_cast
      field_simp
    have hvalue := firstDigits_abs count (toNat t * 10 ^ e)
    rw [habs, abs_firstDigits, habs, hplace, hratio, Nat.floor_div_eq_div,
      toNat_take ht hrest] at hvalue
    rw [hvalue, toNat_append, List.length_replicate, toNat_replicate_zero, hrest,
      Nat.add_sub_cancel_left, zpow_add₀ (by norm_num), zpow_natCast]
    push_cast
    ring

end Coercion
