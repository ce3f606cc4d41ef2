import Coercion.Proofs.Double.Truncation
import Coercion.Proofs.Number.RawValues
import Coercion.Reporting.Numbers

namespace Coercion

open Text

namespace IntegerWidth

/-- The integers of a width. -/
def Holds : IntegerWidth → ℤ → Prop
  | one, n => -128 ≤ n ∧ n ≤ 127
  | two, n => -32768 ≤ n ∧ n ≤ 32767
  | four, n => -2147483648 ≤ n ∧ n ≤ 2147483647
  | eight, n => -9223372036854775808 ≤ n ∧ n ≤ 9223372036854775807

/-- The integers that pass the check of a width. The bounds of the greatest width are taken as
doubles, so that two to the power of 63 passes on both sides. -/
def Admits : IntegerWidth → ℤ → Prop
  | eight, n => |n| ≤ 2 ^ 63
  | width, n => width.Holds n

variable (width : IntegerWidth)

theorem holds_iff (n : ℤ) : width.Holds n ↔ width.least ≤ n ∧ n ≤ width.greatest := by
  cases width <;> exact Iff.rfl

instance (n : ℤ) : Decidable (width.Holds n) := decidable_of_iff _ (width.holds_iff n).symm

instance (n : ℤ) : Decidable (width.Admits n) := by
  cases width <;> unfold Admits <;> infer_instance

theorem admits_iff {n : ℤ} (hn : |n| ≤ 2 ^ 53 - 1) : width.Admits n ↔ width.Holds n := by
  cases width with
  | one | two | four => exact Iff.rfl
  | eight =>
    obtain ⟨hlow, hhigh⟩ := abs_le.mp hn
    change |n| ≤ 2 ^ 63 ↔ -9223372036854775808 ≤ n ∧ n ≤ 9223372036854775807
    rw [abs_le]
    omega

theorem holds_mono {width width' : IntegerWidth} (h : width.bytes ≤ width'.bytes) {n : ℤ}
    (hn : width.Holds n) : width'.Holds n := by
  cases width <;> cases width' <;> simp only [bytes, Holds] at h hn ⊢ <;> omega

theorem within_bounds_iff (width : IntegerWidth) {x : Double} {n : ℤ} (hx : x.isFinite = true)
    (hn : x.toRat = n) :
    (Double.le (.ofInt width.least) x && Double.le x (.ofInt width.greatest)) = true ↔
      width.Admits n := by
  have hbounds : ∃ low high : ℤ, (Double.ofInt width.least).integer? = some low ∧
      (Double.ofInt width.greatest).integer? = some high ∧
      (width.Admits n ↔ low ≤ n ∧ n ≤ high) := by
    cases width with
    | one => exact ⟨-128, 127, by decide +kernel, by decide +kernel, Iff.rfl⟩
    | two => exact ⟨-32768, 32767, by decide +kernel, by decide +kernel, Iff.rfl⟩
    | four => exact ⟨-2147483648, 2147483647, by decide +kernel, by decide +kernel, Iff.rfl⟩
    | eight => exact ⟨-2 ^ 63, 2 ^ 63, by decide +kernel, by decide +kernel, abs_le⟩
  obtain ⟨low, high, hlow, hhigh, hadmits⟩ := hbounds
  obtain ⟨hlow, hlow'⟩ := Double.toRat_of_integer? hlow
  obtain ⟨hhigh, hhigh'⟩ := Double.toRat_of_integer? hhigh
  rw [Bool.and_eq_true, Double.le_iff hlow hx, Double.le_iff hx hhigh, hlow', hhigh', hn, hadmits,
    Int.cast_le, Int.cast_le]

end IntegerWidth

namespace BoundedInteger

theorem ofInt?_isSome_iff {width : IntegerWidth} {n : ℤ} :
    (ofInt? width n).isSome ↔ width.Holds n ∧ |n| ≤ 2 ^ 53 - 1 := by
  have hsafe : |n| ≤ 2 ^ 53 - 1 ↔ -greatestSafe ≤ n ∧ n ≤ greatestSafe := abs_le
  rw [← Option.ne_none_iff_isSome, Ne, ofInt?_eq_none_iff, not_not, width.holds_iff, hsafe]

theorem exists_ofInt? {width : IntegerWidth} {n : ℤ} (hn : width.Holds n)
    (hsafe : |n| ≤ 2 ^ 53 - 1) : ∃ v, ofInt? width n = some v ∧ v.width = width ∧ v.value = n := by
  obtain ⟨v, hv⟩ := Option.isSome_iff_exists.mp (ofInt?_isSome_iff.mpr ⟨hn, hsafe⟩)
  exact ⟨v, hv, ofInt?_eq_some_iff.mp hv⟩

theorem holds_value (v : BoundedInteger) : v.width.Holds v.value ∧ |v.value| ≤ 2 ^ 53 - 1 := by
  have hself : ofInt? v.width v.value = some v := ofInt?_eq_some_iff.mpr ⟨rfl, rfl⟩
  rw [← ofInt?_isSome_iff, hself, Option.isSome_some]

/-- An integer of a width, or why there is none. -/
def orFault (fault : Fault) (width : IntegerWidth) (n : ℤ) : Except Fault BoundedInteger :=
  match ofInt? width n with
  | some v => .ok v
  | none => .error fault

/-- What a double is coerced to: its integer part, after the checks in their order. -/
def ofDouble (width : IntegerWidth) (f : Double) : Except Fault BoundedInteger :=
  if f.isNaN then .error .notANumber
  else if ¬f.isFinite then .error .infinite
  else if ¬width.Admits (towardZero f.toRat) then .error .integerOverflow
  else orFault .unsafeInteger width (towardZero f.toRat)

theorem coerce_eq (width : IntegerWidth) (r : Raw) :
    coerce width r = ofDouble width r.toDouble := by
  obtain ⟨f, hf⟩ : ∃ f, f = r.toDouble := ⟨_, rfl⟩
  rw [coerce, Raw.finite, ← hf]
  cases f with
  | nan | infinite => rfl
  | finite negative rank =>
    have hx : (Double.finite negative rank).isFinite = true := rfl
    obtain ⟨hfinite, hvalue⟩ := Double.toRat_trunc hx
    have hadmits := width.within_bounds_iff hfinite hvalue
    have hint := Double.toInt_eq hfinite
    rw [hvalue, towardZero_intCast] at hint
    have hnan : (Double.finite negative rank).isNaN = false := rfl
    rw [ofDouble, hnan, hx, if_neg Bool.false_ne_true, if_neg (not_not.mpr rfl), orFault]
    dsimp only
    rw [hint]
    by_cases hin : width.Admits (towardZero (Double.finite negative rank).toRat)
    · rw [hadmits.mpr hin, if_neg (not_not.mpr hin)]
      rfl
    · rw [Bool.eq_false_iff.mpr (mt hadmits.mp hin), if_pos hin]
      rfl

/-- Only the value of a double counts, not the sign of zero. -/
theorem ofDouble_congr (width : IntegerWidth) {f g : Double} (hnan : f.isNaN = g.isNaN)
    (hfinite : f.isFinite = g.isFinite) (hvalue : f.toRat = g.toRat) :
    ofDouble width f = ofDouble width g := by
  rw [ofDouble, hnan, hfinite, hvalue]
  rfl

theorem map_value_ofDouble (width : IntegerWidth) (f : Double) :
    (Ending.ofExcept (ofDouble width f)).map value =
      if f.isNaN then .error .notANumber
      else if ¬f.isFinite then .error .infinite
      else if ¬width.Admits (towardZero f.toRat) then .error .integerOverflow
      else if 2 ^ 53 - 1 < |towardZero f.toRat| then .error .unsafeInteger
      else .ok (towardZero f.toRat) := by
  unfold ofDouble
  split_ifs with hnan hfinite hadmits hsafe
  · rfl
  · have hnone : ofInt? width (towardZero f.toRat) = none := by
      rw [← Option.not_isSome_iff_eq_none, ofInt?_isSome_iff, not_and, not_le]
      exact fun _ => hsafe
    rw [orFault, hnone]
    rfl
  · have hle := not_lt.mp hsafe
    obtain ⟨v, hv, -, hvalue⟩ := exists_ofInt? ((width.admits_iff hle).mp hadmits) hle
    rw [orFault, hv]
    exact congrArg Ending.ok hvalue
  · rfl
  · rfl

theorem width_of_ofDouble {width : IntegerWidth} {f : Double} {v : BoundedInteger}
    (h : ofDouble width f = .ok v) : v.width = width := by
  unfold ofDouble at h
  split_ifs at h
  unfold orFault at h
  split at h
  · next hv => exact Except.ok.inj h ▸ (ofInt?_eq_some_iff.mp hv).1
  · cases h

/-- A safe integer is coerced to itself, or refused because the width does not hold it. -/
theorem ofDouble_of_integer (width : IntegerWidth) {n : ℤ} {f : Double} (hf : Double.Rounds n f)
    (hsafe : |n| ≤ 2 ^ 53 - 1) : ofDouble width f = orFault .integerOverflow width n := by
  have hsmall : n.natAbs < 9007199254740992 := by
    obtain ⟨hlow, hhigh⟩ := abs_le.mp hsafe
    omega
  obtain ⟨hfinite, hvalue⟩ := hf.of_integer hsmall
  rw [ofDouble, if_neg (by rw [hf.isNaN_eq]; decide), if_neg (by rw [hfinite]; decide), hvalue,
    towardZero_intCast]
  by_cases hholds : width.Holds n
  · obtain ⟨v, hv, -⟩ := exists_ofInt? hholds hsafe
    rw [if_neg (not_not.mpr ((width.admits_iff hsafe).mpr hholds)), orFault, orFault, hv]
  · have hnone : ofInt? width n = none := by
      rw [← Option.not_isSome_iff_eq_none, ofInt?_isSome_iff]
      exact fun h => hholds h.1
    rw [if_pos (mt (width.admits_iff hsafe).mp hholds), orFault, hnone]

end BoundedInteger

theorem isNumber_of_mem_none : ∀ digits ∈ (none : Option Text), IsNumber digits :=
  fun _ h => absurd h (Option.not_mem_none _)

/-- An integer as a number that a text writes. -/
def WrittenNumber.ofInt (n : ℤ) : WrittenNumber where
  sign := .ofNegative (n < 0)
  whole := ofNat n.natAbs
  pointed := none
  power := none
  whole_isNumber := isNumber_ofNat _
  pointed_isNumber := isNumber_of_mem_none
  digits_ne_nil := .inl (List.ne_nil_of_length_pos Nat.length_toDigits_pos)

theorem WrittenNumber.text_ofInt (n : ℤ) : (ofInt n).text = Text.ofInt n := by
  simp [ofInt, text, unsignedText, afterWhole, powerText, Text.ofInt]

theorem WrittenNumber.value_ofInt (n : ℤ) : (ofInt n).value = n := by
  have hvalue : (ofInt n).value = Double.factor (n < 0) * n.natAbs := by
    simp [value, ofInt, fraction, exponent]
  rw [hvalue, Double.factor_mul_natAbs]

namespace Numbers

theorem result_toInteger (width : IntegerWidth) (r : Raw) :
    (toInteger width r).result = .ofExcept (BoundedInteger.ofDouble width r.toDouble) := by
  rw [toInteger, Report.result_reported, Report.result_ofExcept, BoundedInteger.coerce_eq]

theorem result_toInteger_of_holds {width : IntegerWidth} {r : Raw} {n : ℤ}
    (hr : Double.Rounds n r.toDouble) (hn : width.Holds n) (hsafe : |n| ≤ 2 ^ 53 - 1) :
    ∃ v : BoundedInteger, v.width = width ∧ v.value = n ∧ (toInteger width r).result = .ok v := by
  obtain ⟨v, hv, hwidth, hvalue⟩ := BoundedInteger.exists_ofInt? hn hsafe
  refine ⟨v, hwidth, hvalue, ?_⟩
  rw [result_toInteger, BoundedInteger.ofDouble_of_integer width hr hsafe, BoundedInteger.orFault,
    hv]
  rfl

end Numbers

/-- A value is coerced to an integer in this order: whether it is a number and finite, whether its
integer part is in the range of the width, then whether that is safe. What it becomes is read back
from its double and from its text by every width that is not smaller. -/
theorem toInteger_exact (width : IntegerWidth) {r : Raw} {f : Double} (hf : r.StandsFor f) :
    (Numbers.toInteger width r).result.map BoundedInteger.value =
        (if f.isNaN then .error .notANumber
        else if ¬f.isFinite then .error .infinite
        else if ¬width.Admits (towardZero f.toRat) then .error .integerOverflow
        else if 2 ^ 53 - 1 < |towardZero f.toRat| then .error .unsafeInteger
        else .ok (towardZero f.toRat)) ∧
      ∀ v, (Numbers.toInteger width r).result = .ok v →
        v.width = width ∧ width.Holds v.value ∧ |v.value| ≤ 2 ^ 53 - 1 ∧
        ∀ width' : IntegerWidth, width.bytes ≤ width'.bytes →
          ∃ v' : BoundedInteger, v'.width = width' ∧ v'.value = v.value ∧
            (Numbers.toInteger width' (.number (.ofInt v.value))).result = .ok v' ∧
            (Numbers.toInteger width' (.text v.text)).result = .ok v' := by
  obtain ⟨hnan, hfinite, hvalue⟩ := hf.same
  rw [Numbers.result_toInteger, BoundedInteger.ofDouble_congr width hnan hfinite hvalue]
  refine ⟨BoundedInteger.map_value_ofDouble width f, fun v hv => ?_⟩
  obtain rfl := BoundedInteger.width_of_ofDouble (Ending.ofExcept_eq_ok.mp hv)
  obtain ⟨hholds, hsafe⟩ := v.holds_value
  refine ⟨rfl, hholds, hsafe, fun width' hle => ?_⟩
  have hholds' := IntegerWidth.holds_mono hle hholds
  have htext : trim v.text = (WrittenNumber.ofInt v.value).text := by
    rw [BoundedInteger.text, ← WrittenNumber.text_ofInt, WrittenNumber.trim_text]
  have hrounds := (WrittenNumber.ofInt v.value).rounds
  rw [WrittenNumber.value_ofInt, ← Text.toDouble_of_trim htext] at hrounds
  obtain ⟨u, hwidth, hvalue, hnumber⟩ :=
    Numbers.result_toInteger_of_holds (r := .number _) (Double.rounds_ofInt v.value) hholds' hsafe
  obtain ⟨u', hwidth', hvalue', htext⟩ :=
    Numbers.result_toInteger_of_holds (r := .text _) hrounds hholds' hsafe
  obtain rfl : u' = u :=
    BoundedInteger.ext (hwidth'.trans hwidth.symm) (hvalue'.trans hvalue.symm)
  exact ⟨u', hwidth, hvalue, hnumber, htext⟩

theorem toInteger_exact_fraction : ∃ f, (Raw.text " -128.9 ".toList).StandsFor f ∧
    (Numbers.toInteger .one (.text " -128.9 ".toList)).result =
      .ok ⟨.one, -128, by decide, by decide⟩ ∧
    towardZero f.toRat = -128 ∧ IntegerWidth.one.bytes ≤ IntegerWidth.two.bytes ∧
    (Numbers.toInteger .two (.text "-128".toList)).result =
      .ok ⟨.two, -128, by decide, by decide⟩ := by
  have hf := Raw.standsFor_toDouble (.text " -128.9 ".toList)
  have hresult : (Numbers.toInteger .one (.text " -128.9 ".toList)).result =
      .ok ⟨.one, -128, by decide, by decide⟩ := by
    decide +kernel
  have hbytes : IntegerWidth.one.bytes ≤ IntegerWidth.two.bytes := by decide
  obtain ⟨hexact, hagain⟩ := toInteger_exact .one hf
  rw [hresult, Ending.map_ok] at hexact
  split_ifs at hexact
  obtain ⟨-, -, -, hread⟩ := hagain _ hresult
  obtain ⟨v, hwidth, hvalue, -, htwice⟩ := hread .two hbytes
  obtain rfl : v = ⟨.two, -128, by decide, by decide⟩ := BoundedInteger.ext hwidth hvalue
  exact ⟨_, hf, hresult, (Ending.ok.inj hexact).symm, hbytes, htwice⟩

end Coercion
