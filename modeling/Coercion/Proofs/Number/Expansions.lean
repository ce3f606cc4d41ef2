import Coercion.Number.Expansion
import Coercion.Proofs.Number.LiteralValues
import Mathlib.Algebra.Order.Floor.Ring
import Mathlib.Algebra.Order.Floor.Semiring
import Mathlib.Data.Nat.Digits.Lemmas
import Mathlib.Data.Rat.Floor

namespace Coercion

open Text

/-- A number without its fraction. -/
def towardZero (y : ℚ) : ℤ := if y < 0 then ⌈y⌉ else ⌊y⌋

/-- The nearest integer, from the middle the one further from zero. -/
def halfAway (y : ℚ) : ℤ := if y < 0 then ⌈y - 1 / 2⌉ else ⌊y + 1 / 2⌋

theorem towardZero_intCast (n : ℤ) : towardZero n = n := by
  unfold towardZero
  split_ifs
  · exact Int.ceil_intCast n
  · exact Int.floor_intCast n

theorem halfAway_intCast (n : ℤ) : halfAway n = n := by
  unfold halfAway
  split_ifs
  · rw [Int.ceil_eq_iff]
    constructor <;> linarith
  · rw [Int.floor_eq_iff]
    constructor <;> linarith

theorem abs_towardZero_sub_le {y : ℚ} {n : ℤ} (h : |y - n| ≤ 1) : |towardZero y - n| ≤ 1 := by
  obtain ⟨hlow, hhigh⟩ := abs_le.mp h
  unfold towardZero
  split_ifs
  · have hle : ⌈y⌉ ≤ n + 1 := Int.ceil_le.mpr (by push_cast; linarith)
    have hge : n - 1 ≤ ⌈y⌉ := by
      have : ((n - 1 : ℤ) : ℚ) ≤ ⌈y⌉ := (by push_cast; linarith : _ ≤ y).trans (Int.le_ceil y)
      exact_mod_cast this
    exact abs_le.mpr ⟨by linarith, by linarith⟩
  · have hge : n - 1 ≤ ⌊y⌋ := Int.le_floor.mpr (by push_cast; linarith)
    have hle : ⌊y⌋ ≤ n + 1 := by
      have : (⌊y⌋ : ℚ) ≤ (n + 1 : ℤ) := (Int.floor_le y).trans (by push_cast; linarith)
      exact_mod_cast this
    exact abs_le.mpr ⟨by linarith, by linarith⟩

section

variable (negative : Bool) {y : ℚ} (hy : 0 ≤ y)

include hy

theorem towardZero_factor_mul :
    towardZero (Double.factor negative * y) = Double.signed negative ⌊y⌋₊ := by
  have hfloor : (⌊y⌋₊ : ℤ) = ⌊y⌋ := Int.natCast_floor_eq_floor hy
  cases negative with
  | false =>
    rw [Double.factor_false, one_mul, towardZero, if_neg (not_lt.mpr hy), ← hfloor]
    rfl
  | true =>
    rw [Double.factor_true, neg_one_mul, towardZero, Double.signed, if_pos rfl, hfloor]
    split_ifs with hneg
    · exact Int.ceil_neg
    · obtain rfl : y = 0 := by linarith
      simp

theorem halfAway_factor_mul :
    halfAway (Double.factor negative * y) = Double.signed negative ⌊y + 1 / 2⌋₊ := by
  have hfloor : (⌊y + 1 / 2⌋₊ : ℤ) = ⌊y + 1 / 2⌋ := Int.natCast_floor_eq_floor (by positivity)
  cases negative with
  | false =>
    rw [Double.factor_false, one_mul, halfAway, if_neg (not_lt.mpr hy), ← hfloor]
    rfl
  | true =>
    rw [Double.factor_true, neg_one_mul, halfAway, Double.signed, if_pos rfl, hfloor]
    split_ifs with hneg
    · rw [← Int.ceil_neg]
      congr 1
      ring
    · obtain rfl : y = 0 := by linarith
      norm_num

end

theorem exists_eq_factor_mul_abs (y : ℚ) : ∃ negative, y = Double.factor negative * |y| := by
  obtain hneg | hpos := lt_or_ge y 0
  · exact ⟨true, by rw [abs_of_neg hneg, Double.factor_true, neg_one_mul, neg_neg]⟩
  · exact ⟨false, by rw [abs_of_nonneg hpos, Double.factor_false, one_mul]⟩

theorem abs_halfAway (y : ℚ) : |halfAway y| = ⌊|y| + 1 / 2⌋₊ := by
  obtain ⟨negative, hy⟩ := exists_eq_factor_mul_abs y
  have hround := halfAway_factor_mul negative (abs_nonneg y)
  rw [← hy] at hround
  rw [hround]
  cases negative with
  | false => exact Nat.abs_cast _
  | true => exact (abs_neg _).trans (Nat.abs_cast _)

theorem Text.cast_toNat_div_lt_one {t : Text} (h : IsNumber t) :
    (toNat t : ℚ) / 10 ^ t.length < 1 := by
  rw [div_lt_one (by positivity)]
  exact_mod_cast toNat_lt h

theorem Text.half_le_iff {t : Text} (h : IsNumber t) :
    1 / 2 ≤ (toNat t : ℚ) / 10 ^ t.length ↔ t.head?.any ('5' ≤ ·) = true := by
  cases t with
  | nil => simp
  | cons c t =>
    have hc := (isDigit_iff c).mp (h c (by simp))
    have hlt := toNat_lt fun d hd => h d (List.mem_cons_of_mem c hd)
    have hfive : ('5' ≤ c) ↔ 53 ≤ c.toNat := by
      rw [Char.le_def, UInt32.le_iff_toNat_le]
      rfl
    obtain ⟨d, hd⟩ : ∃ d, d = c.toNat - '0'.toNat := ⟨_, rfl⟩
    have hd' : 5 ≤ d ↔ 53 ≤ c.toNat := by
      change d = c.toNat - 48 at hd
      omega
    rw [div_le_div_iff₀ (by positivity) (by positivity), toNat_cons, ← hd, List.length_cons]
    simp only [List.head?_cons, Option.any_some, decide_eq_true_eq]
    rw [hfive, ← hd']
    obtain ⟨unit, hunit⟩ : ∃ unit, unit = 10 ^ t.length := ⟨_, rfl⟩
    rw [← hunit] at hlt ⊢
    constructor
    · intro hle
      by_contra hlow
      have hle' : 1 * (10 ^ (t.length + 1)) ≤ (d * unit + toNat t) * 2 := by exact_mod_cast hle
      rw [pow_succ, ← hunit] at hle'
      nlinarith
    · intro hle
      have hle' : 1 * (10 ^ (t.length + 1)) ≤ (d * unit + toNat t) * 2 := by
        rw [pow_succ, ← hunit]
        nlinarith
      exact_mod_cast hle'

namespace Text

variable (digits : Text) {point : Int}

theorem toNat_mul_zpow_of_nonpos (h : point ≤ 0) :
    (toNat digits * 10 ^ (point - digits.length) : ℚ) =
      toNat (List.replicate (-point).toNat '0' ++ digits) /
        10 ^ (List.replicate (-point).toNat '0' ++ digits).length := by
  have hexponent : point - digits.length = -((-point).toNat + digits.length : ℕ) := by
    push_cast
    omega
  rw [hexponent, zpow_neg, zpow_natCast, ← div_eq_mul_inv, toNat_append, toNat_replicate_zero,
    zero_mul, zero_add, List.length_append, List.length_replicate]

theorem toNat_mul_zpow_of_length_le (h : digits.length ≤ point) :
    (toNat digits * 10 ^ (point - digits.length) : ℚ) =
      toNat (digits ++ List.replicate (point.toNat - digits.length) '0') := by
  have hexponent : point - digits.length = (point.toNat - digits.length : ℕ) := by
    omega
  rw [hexponent, zpow_natCast, toNat_append, toNat_replicate_zero, List.length_replicate]
  simp

theorem toNat_mul_zpow_of_le_length {k : Nat} (h : k ≤ digits.length) (point : Int) :
    (toNat digits * 10 ^ (point - digits.length) : ℚ) =
      (toNat (digits.take k) + toNat (digits.drop k) / 10 ^ (digits.drop k).length) *
        10 ^ (point - k) := by
  have hexponent : point - digits.length = point - k + -((digits.drop k).length : ℕ) := by
    rw [List.length_drop]
    omega
  have happend := toNat_append (digits.take k) (digits.drop k)
  rw [List.take_append_drop] at happend
  rw [hexponent, zpow_add₀ (by norm_num), zpow_neg, zpow_natCast, happend]
  push_cast
  field_simp

end Text

def Literal.clamped (l : Literal) : Literal :=
  { l with exponent := max (-Expansion.maxExponent) (min Expansion.maxExponent l.exponent) }

namespace Expansion

/-- The number of an expansion. -/
def value (e : Expansion) : ℚ :=
  Double.factor e.negative * (toNat e.whole + toNat e.fraction / 10 ^ e.fraction.length)

def digitsTo (k : Nat) (e : Expansion) : Text :=
  e.whole ++ (e.fraction.take k ++ List.replicate (k - e.fraction.length) '0')

/-- An expansion is one of a number. -/
structure Expands (e : Expansion) (x : ℚ) : Prop where
  whole_isNumber : IsNumber e.whole
  whole_head_ne : e.whole.head? ≠ some '0'
  fraction_isNumber : IsNumber e.fraction
  value_eq : x = e.value

namespace Expands

variable {e : Expansion} {x : ℚ} (h : e.Expands x)

include h

theorem abs_eq : |x| = toNat e.whole + toNat e.fraction / 10 ^ e.fraction.length := by
  rw [h.value_eq, value, Double.abs_factor_mul _ (by positivity)]

theorem eq_factor_mul : x = Double.factor e.negative * |x| := by
  rw [h.abs_eq]
  exact h.value_eq

theorem drop_isNumber (k : Nat) : IsNumber (e.fraction.drop k) :=
  fun c hc => h.fraction_isNumber c (List.mem_of_mem_drop hc)

theorem floor_abs : ⌊|x|⌋₊ = toNat e.whole := by
  have hlt := cast_toNat_div_lt_one h.fraction_isNumber
  rw [Nat.floor_eq_iff (abs_nonneg x), h.abs_eq]
  exact ⟨le_add_of_nonneg_right (by positivity), by linarith⟩

theorem length_whole : e.whole.length = (Nat.digits 10 ⌊|x|⌋₊).length := by
  rw [h.floor_abs]
  apply le_antisymm
  · by_cases hne : e.whole = []
    · rw [hne]
      exact Nat.zero_le _
    · have hlow := le_toNat h.whole_isNumber hne h.whole_head_ne
      have := (Nat.lt_digits_length_iff (b := 10) (by decide) _).mpr hlow
      have := List.length_pos_of_ne_nil hne
      omega
  · exact (Nat.digits_length_le_iff (by decide) _).mpr (toNat_lt h.whole_isNumber)

theorem abs_mul_pow (k : Nat) : |x| * 10 ^ k = toNat (e.digitsTo k) +
    (toNat (e.fraction.drop k) : ℚ) / 10 ^ (e.fraction.drop k).length := by
  have hlen : e.fraction.length =
      (e.fraction.take k).length + (e.fraction.drop k).length := by
    rw [← List.length_append, List.take_append_drop]
  have hk : k = (e.fraction.take k).length + (k - e.fraction.length) := by
    rw [List.length_take]
    omega
  have hdigits : toNat (e.digitsTo k) = toNat e.whole * 10 ^ k +
      toNat (e.fraction.take k) * 10 ^ (k - e.fraction.length) := by
    rw [digitsTo, toNat_append, List.length_append, List.length_replicate, ← hk, toNat_append,
      List.length_replicate, toNat_replicate_zero, add_zero]
  have hfraction : (toNat e.fraction : ℚ) / 10 ^ e.fraction.length * 10 ^ k =
      toNat (e.fraction.take k) * 10 ^ (k - e.fraction.length) +
        toNat (e.fraction.drop k) / 10 ^ (e.fraction.drop k).length := by
    have happend := toNat_append (e.fraction.take k) (e.fraction.drop k)
    rw [List.take_append_drop] at happend
    obtain hle | hlt := le_or_gt k e.fraction.length
    · have htake : (e.fraction.take k).length = k := List.length_take_of_le hle
      rw [happend, hlen, htake, pow_add, Nat.sub_eq_zero_of_le (by omega)]
      push_cast
      field_simp
    · have hpow : (10 : ℚ) ^ k = 10 ^ (k - e.fraction.length) * 10 ^ e.fraction.length := by
        rw [← pow_add, Nat.sub_add_cancel hlt.le]
      rw [List.take_of_length_le hlt.le, List.drop_eq_nil_of_le hlt.le, hpow]
      field_simp
      simp
  rw [h.abs_eq, add_mul, hfraction, hdigits]
  push_cast
  ring

theorem floor_abs_mul_pow (k : Nat) : ⌊|x| * 10 ^ k⌋₊ = toNat (e.digitsTo k) := by
  have hlt := cast_toNat_div_lt_one (h.drop_isNumber k)
  rw [Nat.floor_eq_iff (by positivity), h.abs_mul_pow k]
  exact ⟨le_add_of_nonneg_right (by positivity), by linarith⟩

theorem floor_abs_mul_pow_add_half (k : Nat) : ⌊|x| * 10 ^ k + 1 / 2⌋₊ =
    toNat (e.digitsTo k) + (if e.fraction[k]?.any ('5' ≤ ·) then 1 else 0) := by
  have hlt := cast_toNat_div_lt_one (h.drop_isNumber k)
  have hhalf := half_le_iff (h.drop_isNumber k)
  rw [List.head?_drop] at hhalf
  rw [Nat.floor_eq_iff (by positivity), h.abs_mul_pow k]
  split_ifs with hdigit
  · have hle := hhalf.mpr hdigit
    push_cast
    exact ⟨by linarith, by linarith⟩
  · have hgt := not_le.mp (mt hhalf.mp hdigit)
    have : (0 : ℚ) ≤ toNat (e.fraction.drop k) / 10 ^ (e.fraction.drop k).length := by positivity
    push_cast
    exact ⟨by linarith, by linarith⟩

end Expands

/-- Zeros in front of the whole digits and the sign of zero do not count. -/
theorem expands_of_digits (negative : Bool) {whole fraction : Text} (hwhole : IsNumber whole)
    (hfraction : IsNumber fraction) :
    Expands ⟨negative && (!(whole.dropWhile (· == '0')).isEmpty || fraction.any (· != '0')),
      whole.dropWhile (· == '0'), fraction⟩
      (Double.factor negative * (toNat whole + toNat fraction / 10 ^ fraction.length)) where
  whole_isNumber := fun c hc => hwhole c (List.dropWhile_subset _ hc)
  whole_head_ne := by
    intro hhead
    have := List.head?_dropWhile_not (· == '0') whole
    simp [hhead] at this
  fraction_isNumber := hfraction
  value_eq := by
    rw [value]
    dsimp only
    rw [toNat_dropWhile_zero]
    cases negative with
    | false => rfl
    | true =>
      rw [Bool.true_and]
      cases hsign : !(whole.dropWhile (· == '0')).isEmpty || fraction.any (· != '0') with
      | true => rfl
      | false =>
        obtain ⟨hempty, hzeros⟩ := Bool.or_eq_false_iff.mp hsign
        have hwhole0 : toNat whole = 0 := by
          have hnil := List.isEmpty_iff.mp ((Bool.not_eq_false' _).mp hempty)
          rw [← toNat_dropWhile_zero, hnil]
          rfl
        have hfraction0 : toNat fraction = 0 := by
          have hall : ∀ c ∈ fraction, c = '0' := by simpa using hzeros
          rw [List.eq_replicate_of_mem hall, toNat_replicate_zero]
        rw [hwhole0, hfraction0]
        simp

theorem place_expands (negative : Bool) {digits : Text} (h : IsNumber digits) (point : Int) :
    (place negative digits point).Expands
      (Double.factor negative * (toNat digits * 10 ^ (point - digits.length))) := by
  unfold place
  dsimp only
  split_ifs with hpoint hplaces
  · have hvalue : (toNat digits * 10 ^ (point - digits.length) : ℚ) = toNat [] +
        toNat (List.replicate (-point).toNat '0' ++ digits) /
          10 ^ (List.replicate (-point).toNat '0' ++ digits).length := by
      rw [toNat_mul_zpow_of_nonpos digits hpoint]
      simp
    rw [hvalue]
    exact expands_of_digits negative (fun c hc => absurd hc List.not_mem_nil)
      (isNumber_append.mpr ⟨isNumber_replicate_zero _, h⟩)
  · have hvalue : (toNat digits * 10 ^ (point - digits.length) : ℚ) =
        toNat (digits ++ List.replicate (point.toNat - digits.length) '0') +
          toNat [] / 10 ^ ([] : Text).length := by
      rw [toNat_mul_zpow_of_length_le digits (by omega)]
      simp
    rw [hvalue]
    exact expands_of_digits negative (isNumber_append.mpr ⟨h, isNumber_replicate_zero _⟩)
      (fun c hc => absurd hc List.not_mem_nil)
  · have hvalue := toNat_mul_zpow_of_le_length digits (k := point.toNat) (by omega) point
    rw [Int.toNat_of_nonneg (by omega), sub_self, zpow_zero, mul_one] at hvalue
    rw [hvalue]
    exact expands_of_digits negative (fun c hc => h c (List.mem_of_mem_take hc))
      (fun c hc => h c (List.mem_of_mem_drop hc))

theorem ofLiteral_expands {l : Literal} (hwhole : IsNumber l.whole)
    (hfraction : IsNumber l.fraction) : (ofLiteral l).Expands l.clamped.value := by
  have hplace := place_expands l.negative (isNumber_append.mpr ⟨hwhole, hfraction⟩)
    (l.whole.length + l.clamped.exponent)
  have hscale : l.whole.length + l.clamped.exponent - ((l.whole ++ l.fraction).length : Int) =
      l.clamped.scale := by
    rw [List.length_append, Literal.scale]
    push_cast
    change _ = _ - (l.fraction.length : Int)
    ring
  rw [hscale] at hplace
  exact hplace

theorem ofRaw_text_expands_clamped {t : Text} {w : WrittenNumber} (ht : trim t = w.text)
    (x : Double) : (ofRaw (.text t) x).Expands w.literal.clamped.value := by
  have hread : ofRaw (.text t) x = ofLiteral w.literal := by
    rw [ofRaw, ht, Literal.read?_text]
    rfl
  rw [hread]
  exact ofLiteral_expands w.whole_isNumber w.fraction_isNumber

theorem ofRaw_text_expands {t : Text} {w : WrittenNumber} (ht : trim t = w.text)
    (hexponent : |w.exponent| ≤ 400) (x : Double) : (ofRaw (.text t) x).Expands w.value := by
  have hclamped : w.literal.clamped = w.literal := by
    obtain ⟨hlow, hhigh⟩ := abs_le.mp hexponent
    have hexponent' : max (-maxExponent) (min maxExponent w.exponent) = w.exponent := by
      unfold maxExponent
      omega
    exact congrArg (Literal.mk _ _ _) hexponent'
  have hexpands := ofRaw_text_expands_clamped ht x
  rwa [hclamped, w.value_literal] at hexpands

end Expansion

end Coercion
