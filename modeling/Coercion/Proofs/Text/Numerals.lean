import Coercion.Proofs.Text.Splitting
import Mathlib.Tactic.Linarith
import Mathlib.Tactic.Ring

namespace Coercion.Text

theorem isNumeral_iff (t : Text) : isNumeral t = true ↔ t ≠ [] ∧ IsNumber t := by
  simp [isNumeral, IsNumber]

theorem isNumber_of_isNumeral {t : Text} (h : isNumeral t = true) : IsNumber t :=
  ((isNumeral_iff t).mp h).2

theorem toNat_lt {t : Text} (h : IsNumber t) : toNat t < 10 ^ t.length := by
  induction t with
  | nil => simp [toNat]
  | cons c t ih =>
    have hc := (isDigit_iff c).mp (h c (by simp))
    have ht := ih fun d hd => h d (by simp [hd])
    unfold toNat at ht ⊢
    rw [Nat.ofDigitChars_cons, Nat.ofDigitChars_eq_ofDigitChars_zero, List.length_cons, pow_succ]
    have : c.toNat - '0'.toNat ≤ 9 := by
      change c.toNat - 48 ≤ 9
      omega
    nlinarith

theorem isNumber_ofNat (n : Nat) : IsNumber (ofNat n) :=
  fun _ hc => Nat.isDigit_of_mem_toDigits (by decide) (by decide) hc

theorem isNumber_ofNatPadded (width n : Nat) : IsNumber (ofNatPadded width n) := by
  intro c hc
  obtain hc | hc := List.mem_append.mp hc
  · rw [List.eq_of_mem_replicate hc]
    rfl
  · exact isNumber_ofNat n c hc

@[simp] theorem toNat_ofNatPadded (width n : Nat) : toNat (ofNatPadded width n) = n := by
  simp [toNat, ofNatPadded, ofNat, List.leftpad, Nat.ofDigitChars_append]

theorem length_ofNatPadded {k n : Nat} (hk : 0 < k) (h : n < 10 ^ k) :
    (ofNatPadded k n).length = k := by
  have := (Nat.length_toDigits_le_iff (b := 10) (by decide) hk).mpr h
  simp only [ofNatPadded, ofNat, List.length_leftpad]
  omega

theorem length_ofNatPadded_le {k n : Nat} (hk : 4 ≤ k) (h : n < 10 ^ k) :
    4 ≤ (ofNatPadded 4 n).length ∧ (ofNatPadded 4 n).length ≤ k := by
  have hlen := (Nat.length_toDigits_le_iff (b := 10) (by decide) (by omega)).mpr h
  simp only [ofNatPadded, ofNat, List.length_leftpad]
  omega

/-- A year of our era with at least four digits. -/
theorem ofIntPadded_of_nonneg {year : Int} (h : 0 ≤ year) :
    ofIntPadded 4 year = ofNatPadded 4 year.natAbs := by
  simp [ofIntPadded, sign, not_lt.mpr h]

theorem isDigits_ofNatPadded {k n : Nat} (hk : 0 < k) (h : n < 10 ^ k) :
    IsDigits k (ofNatPadded k n) :=
  ⟨isNumber_ofNatPadded k n, length_ofNatPadded hk h⟩

theorem startsWithDigit_ofNatPadded {k : Nat} (hk : 0 < k) (n : Nat) :
    StartsWithDigit (ofNatPadded k n) := by
  refine (isNumber_ofNatPadded k n).startsWithDigit fun h => ?_
  have hlen := congrArg List.length h
  simp only [ofNatPadded, List.length_leftpad, List.length_nil] at hlen
  omega

theorem ofNatPadded_century : ∀ yy < 100,
    '2' :: '0' :: ofNatPadded 2 yy = ofNatPadded 4 (2000 + yy) := by
  decide

@[simp] theorem toNat_ofNat (n : Nat) : toNat (ofNat n) = n :=
  Nat.ofDigitChars_toDigits (by decide) le_rfl

theorem ofInt_natCast (n : Nat) : ofInt n = ofNat n := by
  simp [ofInt, sign]

theorem lt_pow_length_ofNat (n : Nat) : n < 10 ^ (ofNat n).length :=
  (Nat.length_toDigits_le_iff (by decide) Nat.length_toDigits_pos).mp le_rfl

/-- A number with as many digits as the width needs no zeros in front. -/
theorem ofNatPadded_of_pow_le {k n : Nat} (h : 10 ^ k ≤ n) : ofNatPadded (k + 1) n = ofNat n := by
  have hlen : k < (ofNat n).length :=
    (Nat.pow_lt_pow_iff_right (by decide)).mp (h.trans_lt (lt_pow_length_ofNat n))
  rw [ofNatPadded, List.leftpad, Nat.sub_eq_zero_of_le hlen]
  rfl

theorem pow_length_ofNat_le {n : Nat} (hn : n ≠ 0) : 10 ^ ((ofNat n).length - 1) ≤ n := by
  obtain hle | hlt := Nat.lt_or_ge 1 (ofNat n).length |>.symm
  · rw [Nat.sub_eq_zero_of_le hle]
    exact Nat.one_le_iff_ne_zero.mpr hn
  · by_contra hlow
    have hlen := (Nat.length_toDigits_le_iff (b := 10) (by decide) (by omega)).mpr (not_le.mp hlow)
    change (ofNat n).length ≤ _ at hlen
    omega

@[simp] theorem toNat_nil : toNat [] = 0 := rfl

theorem toNat_append (a t : Text) : toNat (a ++ t) = toNat a * 10 ^ t.length + toNat t := by
  rw [toNat, Nat.ofDigitChars_append, Nat.ofDigitChars_eq_ofDigitChars_zero, mul_comm]
  rfl

theorem toNat_cons (c : Char) (t : Text) :
    toNat (c :: t) = (c.toNat - '0'.toNat) * 10 ^ t.length + toNat t := by
  have hdigit : toNat [c] = c.toNat - '0'.toNat := by
    rw [toNat, Nat.ofDigitChars_cons, mul_zero, zero_add, Nat.ofDigitChars_nil]
  rw [← hdigit, ← toNat_append]
  rfl

@[simp] theorem toNat_replicate_zero (k : Nat) : toNat (List.replicate k '0') = 0 := by
  rw [toNat, Nat.ofDigitChars_replicate_zero, mul_zero]

theorem toNat_dropWhile_zero (t : Text) : toNat (t.dropWhile (· == '0')) = toNat t := by
  induction t with
  | nil => rfl
  | cons c t ih =>
    by_cases hc : c = '0'
    · subst hc
      rw [List.dropWhile_cons_of_pos rfl, ih, toNat_cons]
      simp
    · rw [List.dropWhile_cons_of_neg (by simpa using hc)]

theorem isNumber_append {a t : Text} : IsNumber (a ++ t) ↔ IsNumber a ∧ IsNumber t := by
  simp only [IsNumber, List.mem_append, or_imp, forall_and]

theorem isNumber_replicate_zero (k : Nat) : IsNumber (List.replicate k '0') := by
  intro c hc
  rw [List.eq_of_mem_replicate hc]
  rfl

/-- A row of digits is as long as its number needs if no zero stands in front. -/
theorem le_toNat {t : Text} (h : IsNumber t) (hne : t ≠ []) (hhead : t.head? ≠ some '0') :
    10 ^ (t.length - 1) ≤ toNat t := by
  obtain ⟨c, t, rfl⟩ := List.exists_cons_of_ne_nil hne
  have hc := (isDigit_iff c).mp (h c (by simp))
  have hzero : c.toNat ≠ 48 := fun heq => hhead (congrArg some (Char.toNat_inj.mp heq))
  have hpos : 1 ≤ c.toNat - '0'.toNat := by
    change 1 ≤ c.toNat - 48
    omega
  rw [toNat_cons, List.length_cons, Nat.add_sub_cancel]
  exact (Nat.le_mul_of_pos_left _ hpos).trans (Nat.le_add_right _ _)

end Coercion.Text
