import Coercion.Proofs.Number.BoundedIntegers
import Coercion.Proofs.Number.SignedWords
import Coercion.Proofs.Reporting.Diagnostics

namespace Coercion

open BitOperation

namespace BoundedInteger

variable (v : BoundedInteger)

theorem toInt_word : v.word.toInt = signedWord v.value := BitVec.toInt_ofInt v.value

theorem word_eq {v : BoundedInteger} {w : BitVec 32} (h : v.value = w.toInt) : v.word = w := by
  rw [word, h, BitVec.ofInt_toInt]

theorem bitwise_eq (op : BitOperation) : v.bitwise op = op.ofSigned (signedWord v.value) := by
  rw [bitwise, apply_eq, toInt_word]

section

variable {v} {u : BoundedInteger} {p : ℕ} (q : ℕ)

theorem test_set (h : u.value = v.bitwise (.set p)) :
    u.bitwise (.test q) = if q % 32 = p % 32 then 1 else v.bitwise (.test q) := by
  rw [bitwise, word_eq h, apply_test, BitVec.getLsbD_or, getLsbD_bit, bitwise, apply_test]
  by_cases hq : q % 32 = p % 32
  · simp [hq]
  · simp [hq]

theorem test_clear (h : u.value = v.bitwise (.clear p)) :
    u.bitwise (.test q) = if q % 32 = p % 32 then 0 else v.bitwise (.test q) := by
  have hlt : q % 32 < 32 := Nat.mod_lt q (by decide)
  rw [bitwise, word_eq h, apply_test, BitVec.getLsbD_and, BitVec.getLsbD_not, getLsbD_bit, bitwise,
    apply_test]
  by_cases hq : q % 32 = p % 32
  · simp [hq]
  · simp [hq, hlt]

theorem test_flip (h : u.value = v.bitwise (.flip p)) : u.bitwise (.test q) =
    if q % 32 = p % 32 then 1 - v.bitwise (.test q) else v.bitwise (.test q) := by
  rw [bitwise, word_eq h, apply_test, BitVec.getLsbD_xor, getLsbD_bit, bitwise, apply_test]
  by_cases hq : q % 32 = p % 32
  · by_cases hbit : v.word.getLsbD (p % 32) = true
    · simp [hq, hbit]
    · simp [hq, hbit]
  · simp [hq]

end

/-- The integer with which a chain goes on after an operation: its result, unless the width does not
hold that. -/
def next (op : BitOperation) : BoundedInteger :=
  (ofInt? v.width (v.bitwise op)).getD v

/-- The integer after a chain of operations. -/
def after (ops : List BitOperation) : BoundedInteger :=
  ops.foldl next v

theorem width_next (op : BitOperation) : (v.next op).width = v.width := by
  rw [next]
  cases h : ofInt? v.width (v.bitwise op) with
  | none => rfl
  | some u => exact (ofInt?_eq_some_iff.mp h).1

theorem width_after (ops : List BitOperation) : (v.after ops).width = v.width := by
  induction ops generalizing v with
  | nil => rfl
  | cons op ops ih => exact (ih (v.next op)).trans (v.width_next op)

theorem after_take_succ {ops : List BitOperation} {i : ℕ} {op : BitOperation}
    (h : ops[i]? = some op) : v.after (ops.take (i + 1)) = (v.after (ops.take i)).next op := by
  rw [List.take_add_one, h, Option.toList_some, after, List.foldl_append]
  rfl

theorem bitwise_bounds (op : BitOperation) :
    -2147483648 ≤ v.bitwise op ∧ v.bitwise op ≤ 2147483647 := by
  obtain ⟨hlow, hhigh⟩ := apply_bounds v.word op
  rw [bitwise]
  omega

theorem holds_bitwise {width : IntegerWidth} (h : width = .four ∨ width = .eight)
    (op : BitOperation) : width.Holds (v.bitwise op) := by
  have hbounds := v.bitwise_bounds op
  obtain rfl | rfl := h
  · exact hbounds
  · change -9223372036854775808 ≤ _ ∧ _ ≤ 9223372036854775807
    omega

theorem abs_bitwise_le (op : BitOperation) : |v.bitwise op| ≤ 2 ^ 53 - 1 := by
  obtain ⟨hlow, hhigh⟩ := v.bitwise_bounds op
  rw [abs_le]
  omega

theorem ofInt?_bitwise_isSome_iff (width : IntegerWidth) (op : BitOperation) :
    (ofInt? width (v.bitwise op)).isSome ↔ width.Holds (v.bitwise op) := by
  rw [ofInt?_isSome_iff, and_iff_left (v.abs_bitwise_le op)]

theorem value_next (op : BitOperation) : (v.next op).value =
    if v.width.Holds (v.bitwise op) then v.bitwise op else v.value := by
  have hsome := v.ofInt?_bitwise_isSome_iff v.width op
  rw [next]
  cases h : ofInt? v.width (v.bitwise op) with
  | none =>
    rw [h] at hsome
    exact (if_neg (mt hsome.mpr Bool.false_ne_true)).symm
  | some u =>
    rw [h] at hsome
    rw [if_pos (hsome.mp rfl)]
    exact (ofInt?_eq_some_iff.mp h).2

end BoundedInteger

namespace Numbers

theorem result_toInteger_bitwise (width : IntegerWidth) (v : BoundedInteger) (op : BitOperation) :
    (toInteger width (.number (.ofInt (v.bitwise op)))).result =
      .ofExcept (BoundedInteger.orFault .integerOverflow width (v.bitwise op)) := by
  rw [result_toInteger]
  exact congrArg _
    (BoundedInteger.ofDouble_of_integer width (Double.rounds_ofInt _) (v.abs_bitwise_le op))

/-- What a chain answers to an operation. -/
def answer (v : BoundedInteger) (op : BitOperation) : BitResult :=
  ⟨v.bitwise op, if v.width.Holds (v.bitwise op) then none else some .integerOverflow⟩

theorem result_chainedBitResults_cons (v : BoundedInteger) (op : BitOperation)
    (ops : List BitOperation) : (chainedBitResults v (op :: ops)).result =
      (chainedBitResults (v.next op) ops).result.map (answer v op :: ·) := by
  have hsome := v.ofInt?_bitwise_isSome_iff v.width op
  rw [chainedBitResults, Report.bind_attempt (result_toInteger_bitwise v.width v op),
    BoundedInteger.orFault, BoundedInteger.next, answer]
  cases h : BoundedInteger.ofInt? v.width (v.bitwise op) with
  | none =>
    rw [h] at hsome
    rw [if_neg (mt hsome.mpr Bool.false_ne_true)]
    simp only [Report.bind_pure_eq, Option.getD_none]
  | some u =>
    rw [h] at hsome
    rw [if_pos (hsome.mp rfl)]
    simp only [Report.bind_pure_eq, Option.getD_some]

theorem result_chainedBitResults (v : BoundedInteger) (ops : List BitOperation) :
    ∃ results, (chainedBitResults v ops).result = .ok results ∧ results.length = ops.length ∧
      ∀ i op, ops[i]? = some op → results[i]? = some (answer (v.after (ops.take i)) op) := by
  induction ops generalizing v with
  | nil => exact ⟨[], rfl, rfl, fun i op h => by simp at h⟩
  | cons op ops ih =>
    obtain ⟨results, hresult, hlength, hanswers⟩ := ih (v.next op)
    refine ⟨answer v op :: results, ?_, congrArg (· + 1) hlength, ?_⟩
    · rw [result_chainedBitResults_cons, hresult]
      rfl
    · intro i other h
      cases i with
      | zero =>
        obtain rfl : op = other := by simpa using h
        rfl
      | succ i => exact hanswers i other h

end Numbers

/-- An operation makes of an integer what it makes of the signed number of its 32 low bits, and what
sets, clears or flips a bit is seen by testing that bit and no other. A chain answers each operation
with its result, which is then the integer that it goes on with. Only the two narrower widths may
not hold a result; that is answered as an overflow, and the chain goes on with the integer as it
was. -/
theorem bitwise_chains (v : BoundedInteger) :
    (∀ op, v.bitwise op = op.ofSigned (signedWord v.value)) ∧
    (∀ (u : BoundedInteger) (p q : ℕ),
      (u.value = v.bitwise (.set p) →
        u.bitwise (.test q) = if q % 32 = p % 32 then 1 else v.bitwise (.test q)) ∧
      (u.value = v.bitwise (.clear p) →
        u.bitwise (.test q) = if q % 32 = p % 32 then 0 else v.bitwise (.test q)) ∧
      (u.value = v.bitwise (.flip p) → u.bitwise (.test q) =
        if q % 32 = p % 32 then 1 - v.bitwise (.test q) else v.bitwise (.test q))) ∧
    ∀ ops, (v.after ops).width = v.width ∧
      ∃ results, (Numbers.chainedBitResults v ops).result = .ok results ∧
        results.length = ops.length ∧ ∀ i op, ops[i]? = some op →
          ∃ result, result = (v.after (ops.take i)).bitwise op ∧
            results[i]? =
              some ⟨result, if v.width.Holds result then none else some .integerOverflow⟩ ∧
            (v.after (ops.take (i + 1))).value =
              (if v.width.Holds result then result else (v.after (ops.take i)).value) ∧
            (v.width = .four ∨ v.width = .eight → v.width.Holds result) := by
  refine ⟨v.bitwise_eq, fun u p q => ⟨BoundedInteger.test_set q, BoundedInteger.test_clear q,
    BoundedInteger.test_flip q⟩, fun ops => ?_⟩
  obtain ⟨results, hresult, hlength, hanswers⟩ := Numbers.result_chainedBitResults v ops
  refine ⟨v.width_after ops, results, hresult, hlength,
    fun i op h => ⟨_, rfl, ?_, ?_, fun hwide => ?_⟩⟩
  · rw [hanswers i op h, Numbers.answer, v.width_after]
  · rw [v.after_take_succ h, BoundedInteger.value_next, v.width_after]
  · exact (v.after (ops.take i)).holds_bitwise hwide op

theorem bitwise_chains_byte :
    let v : BoundedInteger := ⟨.one, 100, by decide, by decide⟩
    let u : BoundedInteger := ⟨.two, 228, by decide, by decide⟩
    let wide : BoundedInteger := ⟨.four, 100, by decide, by decide⟩
    u.value = v.bitwise (.set 39) ∧ u.bitwise (.test 7) = 1 ∧
    (∃ results, (Numbers.chainedBitResults v [.set 39, .shift 1]).result = .ok results ∧
      results[0]? = some ⟨228, some .integerOverflow⟩ ∧ results[1]? = some ⟨50, none⟩) ∧
    IntegerWidth.four.Holds (wide.bitwise (.set 31)) := by
  intro v u wide
  have hset : u.value = v.bitwise (.set 39) := by decide
  obtain ⟨-, hbits, hchain⟩ := bitwise_chains v
  obtain ⟨-, -, hchain'⟩ := bitwise_chains wide
  obtain ⟨-, results, hresult, -, hanswers⟩ := hchain [.set 39, .shift 1]
  obtain ⟨first, hfirst, hoverflow, hsame, -⟩ := hanswers 0 (.set 39) rfl
  obtain ⟨second, hsecond, hshift, -⟩ := hanswers 1 (.shift 1) rfl
  obtain ⟨-, _, -, -, hanswers'⟩ := hchain' [.set 31]
  obtain ⟨result, hwide, -, -, hholds⟩ := hanswers' 0 (.set 31) rfl
  obtain rfl : first = 228 := hfirst.trans (by decide)
  obtain rfl : second = 50 := hsecond.trans (by decide)
  refine ⟨hset, (hbits _ 39 7).1 hset, ⟨results, hresult, hoverflow, hshift⟩, ?_⟩
  rw [hwide] at hholds
  exact hholds (.inl rfl)

end Coercion
