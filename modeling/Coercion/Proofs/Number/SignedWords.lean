import Coercion.Number.Bits
import Mathlib.Algebra.Order.Ring.Nat
import Mathlib.Data.Int.Bitwise
import Mathlib.Data.Nat.Bitwise

namespace Coercion

theorem eq_of_testBit {m n : ℤ} (h : ∀ i, m.testBit i = n.testBit i) : m = n := by
  -- A natural number has no bit as far to the left as its own value.
  have hfar (k l : ℕ) (hle : k ≤ l) : k.testBit l = false :=
    Nat.testBit_lt_two_pow (Nat.lt_two_pow_self.trans_le (Nat.pow_le_pow_right two_pos hle))
  cases m with
  | ofNat m =>
    cases n with
    | ofNat n => exact congrArg Int.ofNat (Nat.eq_of_testBit_eq h)
    | negSucc n =>
      have hsign := h (m + n)
      simp [Int.testBit, hfar] at hsign
  | negSucc m =>
    cases n with
    | ofNat n =>
      have hsign := h (m + n)
      simp [Int.testBit, hfar] at hsign
    | negSucc n => exact congrArg Int.negSucc (Nat.eq_of_testBit_eq fun i => Bool.not_inj (h i))

namespace SignedWord

variable (w u : BitVec 32)

theorem toInt_cases : (w.msb = false ∧ w.toInt = Int.ofNat w.toNat) ∨
    (w.msb = true ∧ w.toInt = Int.negSucc (~~~w).toNat) := by
  have hlt := w.isLt
  cases hsign : w.msb with
  | false => exact .inl ⟨rfl, BitVec.toInt_eq_toNat_of_msb hsign⟩
  | true =>
    refine .inr ⟨rfl, ?_⟩
    rw [BitVec.toInt_eq_msb_cond, if_pos hsign, BitVec.toNat_not, Int.negSucc_eq]
    omega

/-- The bits of a number are those of its word, and past them its sign. -/
theorem testBit_toInt (i : ℕ) : w.toInt.testBit i = w.getLsbD (min i 31) := by
  have hpast (u : BitVec 32) (hi : ¬i < 32) : u.toNat.testBit i = false :=
    BitVec.getLsbD_of_ge u i (not_lt.mp hi)
  obtain ⟨hsign, hvalue⟩ | ⟨hsign, hvalue⟩ := toInt_cases w
  · rw [hvalue]
    change w.toNat.testBit i = _
    by_cases hi : i < 32
    · rw [min_eq_left (by omega)]
      rfl
    · rw [min_eq_right (by omega), hpast w hi]
      exact hsign.symm
  · rw [hvalue]
    change (!(~~~w).toNat.testBit i) = _
    by_cases hi : i < 32
    · rw [min_eq_left (by omega), BitVec.testBit_toNat, BitVec.getLsbD_not]
      simp [hi]
    · rw [min_eq_right (by omega), hpast _ hi]
      exact hsign.symm

theorem toInt_and : (w &&& u).toInt = Int.land w.toInt u.toInt := by
  apply eq_of_testBit
  intro i
  rw [Int.testBit_land, testBit_toInt, testBit_toInt, testBit_toInt, BitVec.getLsbD_and]

theorem toInt_or : (w ||| u).toInt = Int.lor w.toInt u.toInt := by
  apply eq_of_testBit
  intro i
  rw [Int.testBit_lor, testBit_toInt, testBit_toInt, testBit_toInt, BitVec.getLsbD_or]

theorem toInt_xor : (w ^^^ u).toInt = Int.xor w.toInt u.toInt := by
  apply eq_of_testBit
  intro i
  rw [Int.testBit_lxor, testBit_toInt, testBit_toInt, testBit_toInt, BitVec.getLsbD_xor]

theorem getLsbD_not (i : ℕ) : (~~~w).getLsbD (min i 31) = !w.getLsbD (min i 31) := by
  have hi : min i 31 < 32 := by omega
  rw [BitVec.getLsbD_not, decide_eq_true hi, Bool.true_and]

theorem toInt_not : (~~~w).toInt = Int.lnot w.toInt := by
  apply eq_of_testBit
  intro i
  rw [Int.testBit_lnot, testBit_toInt, testBit_toInt, getLsbD_not]

theorem toInt_andNot : (w &&& ~~~u).toInt = Int.ldiff w.toInt u.toInt := by
  apply eq_of_testBit
  intro i
  rw [Int.testBit_ldiff, testBit_toInt, testBit_toInt, testBit_toInt, BitVec.getLsbD_and,
    getLsbD_not]

theorem toInt_shiftLeft (k : ℕ) : (w <<< k).toInt = (w.toInt * 2 ^ k).bmod (2 ^ 32) := by
  rw [BitVec.toInt_shiftLeft, BitVec.toInt_eq_toNat_bmod, Int.bmod_mul_bmod, Nat.shiftLeft_eq]
  push_cast
  rfl

theorem toInt_shiftRight (k : ℕ) : (w.sshiftRight k).toInt = w.toInt / 2 ^ k := by
  rw [BitVec.toInt_sshiftRight, Int.shiftRight_eq_div_pow]
  push_cast
  rfl

end SignedWord

/-- The signed number of 32 bits that is congruent to an integer modulo two to the power of 32. -/
def signedWord (n : ℤ) : ℤ := n.bmod (2 ^ 32)

namespace BitOperation

open SignedWord

/-- What an operation makes of a signed number of 32 bits. Numbers are combined bit by bit, and a
shift multiplies or divides. -/
def ofSigned (b : ℤ) : BitOperation → ℤ
  | and other => Int.land b (signedWord other)
  | andNot other => Int.ldiff b (signedWord other)
  | or other => Int.lor b (signedWord other)
  | xor other => Int.xor b (signedWord other)
  | not => Int.lnot b
  | clear position => Int.ldiff b (signedWord (2 ^ (position % 32)))
  | flip position => Int.xor b (signedWord (2 ^ (position % 32)))
  | set position => Int.lor b (signedWord (2 ^ (position % 32)))
  | test position => if b.testBit (position % 32) then 1 else 0
  | shift count =>
    if count < 0 then signedWord (b * 2 ^ (count.natAbs % 32)) else b / 2 ^ (count.natAbs % 32)

theorem toInt_bit (position : ℕ) : (bit position).toInt = signedWord (2 ^ (position % 32)) := by
  have hone : (1#32).toInt = 1 := by decide
  rw [bit, toInt_shiftLeft, hone, one_mul, signedWord]

theorem getLsbD_bit (position i : ℕ) : (bit position).getLsbD i = decide (i = position % 32) := by
  have hlt := Nat.mod_lt position (by decide : 32 > 0)
  rw [bit, ← BitVec.twoPow_eq, BitVec.getLsbD_twoPow, decide_eq_true hlt, Bool.true_and]
  exact decide_eq_decide.mpr eq_comm

theorem and_bit_eq_zero_iff (w : BitVec 32) (position : ℕ) :
    w &&& bit position = 0#32 ↔ w.getLsbD (position % 32) = false := by
  constructor
  · intro h
    have hbit := congrArg (·.getLsbD (position % 32)) h
    simpa [getLsbD_bit] using hbit
  · intro h
    apply BitVec.eq_of_getLsbD_eq
    intro i hi
    rw [BitVec.getLsbD_and, getLsbD_bit]
    by_cases heq : i = position % 32
    · simp [heq, h]
    · simp [heq]

theorem apply_test (w : BitVec 32) (position : ℕ) :
    apply w (test position) = if w.getLsbD (position % 32) then 1 else 0 := by
  rw [apply]
  by_cases h : w.getLsbD (position % 32) = true
  · rw [if_neg (by rw [and_bit_eq_zero_iff, h]; decide), if_pos h]
  · rw [if_pos ((and_bit_eq_zero_iff ..).mpr (Bool.not_eq_true _ ▸ h)), if_neg h]

theorem apply_eq (w : BitVec 32) (op : BitOperation) : op.apply w = op.ofSigned w.toInt := by
  have hother (other : ℤ) : (BitVec.ofInt 32 other).toInt = signedWord other := BitVec.toInt_ofInt _
  cases op with
  | and other => rw [apply, toInt_and, hother, ofSigned]
  | andNot other => rw [apply, toInt_andNot, hother, ofSigned]
  | or other => rw [apply, toInt_or, hother, ofSigned]
  | xor other => rw [apply, toInt_xor, hother, ofSigned]
  | not => rw [apply, toInt_not, ofSigned]
  | clear position => rw [apply, toInt_andNot, toInt_bit, ofSigned]
  | flip position => rw [apply, toInt_xor, toInt_bit, ofSigned]
  | set position => rw [apply, toInt_or, toInt_bit, ofSigned]
  | test position =>
    have hlt : position % 32 ≤ 31 := Nat.le_of_lt_succ (Nat.mod_lt position (by decide))
    rw [apply_test, ofSigned, testBit_toInt, min_eq_left hlt]
  | shift count =>
    rw [apply, ofSigned]
    by_cases hleft : count < 0
    · rw [if_pos hleft, if_pos hleft, toInt_shiftLeft, signedWord]
    · rw [if_neg hleft, if_neg hleft, toInt_shiftRight]

theorem apply_bounds (w : BitVec 32) (op : BitOperation) :
    -2 ^ 31 ≤ op.apply w ∧ op.apply w < 2 ^ 31 := by
  have hword (u : BitVec 32) : -2 ^ 31 ≤ u.toInt ∧ u.toInt < 2 ^ 31 :=
    ⟨u.le_toInt, u.toInt_lt⟩
  cases op with
  | test position =>
    rw [apply_test]
    by_cases h : w.getLsbD (position % 32) = true
    · rw [if_pos h]
      decide
    · rw [if_neg h]
      decide
  | shift count =>
    rw [apply]
    by_cases hleft : count < 0
    · rw [if_pos hleft]
      exact hword _
    · rw [if_neg hleft]
      exact hword _
  | _ => exact hword _

end BitOperation

end Coercion
