import Coercion.Double.Shortest
import Coercion.Proofs.Double.Values
import Coercion.Proofs.Text.Numerals
import Mathlib.Algebra.Order.Floor.Semifield
import Mathlib.Data.Rat.Floor

namespace Coercion

open Text

/-- A decimal of at most so many significant digits. -/
def IsDecimal (count : Nat) (x : ℚ) : Prop :=
  ∃ (m : Nat) (e : Int), m < 10 ^ count ∧ |x| = m * 10 ^ e

theorem isDecimal_abs_iff {count : Nat} {x : ℚ} : IsDecimal count |x| ↔ IsDecimal count x := by
  rw [IsDecimal, abs_abs]
  rfl

theorem isDecimal_zero_iff {x : ℚ} : IsDecimal 0 x ↔ x = 0 := by
  constructor
  · rintro ⟨m, e, hm, hvalue⟩
    obtain rfl : m = 0 := by simpa using hm
    simpa using hvalue
  · rintro rfl
    exact ⟨0, 0, Nat.one_pos, by simp⟩

/-- A decimal has few digits only if it is small against a power of ten or a multiple of it. -/
theorem IsDecimal.lt_or_multiple {count : Nat} {a : ℚ} (ha : 0 ≤ a) (h : IsDecimal count a)
    (e : Int) : a < 10 ^ (e + count - 1) ∨ ∃ n : Nat, a = n * 10 ^ e := by
  obtain ⟨m, e', hm, hvalue⟩ := h
  rw [abs_of_nonneg ha] at hvalue
  obtain hlt | hle := lt_or_ge e' e
  · left
    calc a = m * 10 ^ e' := hvalue
      _ < 10 ^ count * 10 ^ e' := by
        have : (m : ℚ) < 10 ^ count := by exact_mod_cast hm
        gcongr
      _ = 10 ^ (e' + count) := by rw [zpow_add₀ (by norm_num), zpow_natCast, mul_comm]
      _ ≤ 10 ^ (e + count - 1) := zpow_le_zpow_right₀ (by norm_num) (by omega)
  · right
    refine ⟨m * 10 ^ (e' - e).toNat, ?_⟩
    have hsplit : e' = (e' - e).toNat + e := by omega
    rw [hvalue]
    nth_rewrite 1 [hsplit]
    rw [zpow_add₀ (by norm_num), zpow_natCast]
    push_cast
    ring

namespace Shortest

open Double

def rankValue (rank : Nat) : ℚ := Layout.double.units rank / one

def ReadsAs (rank : Nat) (a : ℚ) : Prop := Layout.double.IsNearest (a * one) rank

theorem readsAs_rankValue (rank : Nat) : ReadsAs rank (rankValue rank) := by
  rw [ReadsAs, rankValue, div_mul_cancel₀ _ one_cast_pos.ne']
  exact Layout.isNearest_units rank

theorem ReadsAs.of_between {rank : Nat} {a b c : ℚ} (ha : ReadsAs rank a) (hc : ReadsAs rank c)
    (hpos : 0 ≤ a) (hab : a ≤ b) (hbc : b ≤ c) : ReadsAs rank b :=
  Layout.IsNearest.of_between ha hc (mul_nonneg hpos one_cast_pos.le)
    (mul_le_mul_of_nonneg_right hab one_cast_pos.le)
    (mul_le_mul_of_nonneg_right hbc one_cast_pos.le)

theorem readsBack_iff (rank m : Nat) (e : Int) :
    readsBack rank m e = true ↔ ReadsAs rank (m * 10 ^ e) := by
  have hden : 0 < 10 ^ (-e).toNat := by positivity
  have hratio : (m * 10 ^ e * one : ℚ) =
      (m * 10 ^ e.toNat * one : ℕ) / (10 ^ (-e).toNat : ℕ) := by
    rw [ten_zpow]
    push_cast
    ring
  have hhalves : m * 10 ^ e.toNat * halves = 2 * (m * 10 ^ e.toNat * one) := by
    rw [halves]
    ring
  have hnonneg : (0 : ℚ) ≤ (m * 10 ^ e.toNat * one : ℕ) / (10 ^ (-e).toNat : ℕ) :=
    div_nonneg (Nat.cast_nonneg _) (Nat.cast_nonneg _)
  rw [ReadsAs, hratio, Layout.isNearest_iff_isBetween hnonneg, Layout.isBetween_div_iff hden]
  unfold readsBack
  simp only [Nat.pow_eq, hhalves, lower, upper, Bool.or_eq_true, Bool.and_eq_true,
    decide_eq_true_eq, beq_iff_eq, ← Nat.even_iff]
  by_cases heven : Even rank
  · simp only [heven, true_and, not_true_eq_false, IsEmpty.forall_iff, and_true]
    exact ⟨fun h => h.elim (fun h => ⟨h.1.le, h.2.le⟩) id, .inr⟩
  · simp only [heven, false_and, or_false, not_false_eq_true, forall_const]
    exact ⟨fun h => ⟨h.1.le, h.2.le, h⟩, fun h => h.2.2⟩

theorem not_readsAs_zero {rank : Nat} (h : 0 < rank) : ¬ReadsAs rank 0 := by
  intro hread
  have hzero := Layout.double.isNearest_units 0
  rw [Layout.units_zero, Nat.cast_zero] at hzero
  rw [ReadsAs, zero_mul] at hread
  exact h.ne (hzero.unique hread)

theorem rankValue_pos {rank : Nat} (h : 0 < rank) : 0 < rankValue rank := by
  have hunits := Layout.double.units_strictMono h
  rw [Layout.units_zero] at hunits
  exact div_pos (by exact_mod_cast hunits) one_cast_pos

theorem readsAs_of_close {rank : Nat} (h : 0 < rank) {a : ℚ} (ha : 0 ≤ a)
    (hclose : |a - rankValue rank| * 2 ^ 54 < rankValue rank) : ReadsAs rank a := by
  have hper : 2 * Layout.double.perExponent = 2 ^ 53 := by decide
  have hcast {a b : Nat} (hab : a < b) : ((b - a : ℕ) : ℚ) = b - a := Nat.cast_sub hab.le
  have hmono := Layout.double.units_strictMono
  have hbelow : (Layout.double.units rank : ℚ) ≤
      2 ^ 53 * (Layout.double.units rank - Layout.double.units (rank - 1)) := by
    have hstep := (Layout.double.units_le_mul_step (rank - 1)).2
    rw [Nat.sub_add_cancel h, hper] at hstep
    rw [← hcast (hmono (Nat.sub_lt h Nat.one_pos))]
    exact_mod_cast hstep
  have habove : (Layout.double.units rank : ℚ) ≤
      2 ^ 53 * (Layout.double.units (rank + 1) - Layout.double.units rank) := by
    have hstep := (Layout.double.units_le_mul_step rank).1
    rw [hper] at hstep
    rw [← hcast (hmono rank.lt_succ_self)]
    exact_mod_cast hstep
  have hunits : |a * one - Layout.double.units rank| * 2 ^ 54 < Layout.double.units rank := by
    have hvalue : (Layout.double.units rank : ℚ) = rankValue rank * one := by
      rw [rankValue, div_mul_cancel₀ _ one_cast_pos.ne']
    rw [hvalue, ← sub_mul, abs_mul, abs_of_pos one_cast_pos, mul_right_comm]
    exact mul_lt_mul_of_pos_right hclose one_cast_pos
  have hlow := neg_abs_le (a * one - Layout.double.units rank)
  have hhigh := le_abs_self (a * one - Layout.double.units rank)
  rw [ReadsAs, Layout.isNearest_iff_isBetween (mul_nonneg ha one_cast_pos.le)]
  have hstrict : (Layout.double.units (rank - 1) + Layout.double.units rank : ℚ) < 2 * (a * one) ∧
      2 * (a * one) < (Layout.double.units rank + Layout.double.units (rank + 1) : ℚ) :=
    ⟨by linarith, by linarith⟩
  exact ⟨hstrict.1.le, hstrict.2.le, fun _ => hstrict⟩

theorem pointOf_bounds {rank : Nat} (h : 0 < rank) :
    (10 : ℚ) ^ (pointOf rank - 1) ≤ rankValue rank ∧ rankValue rank < 10 ^ pointOf rank := by
  obtain ⟨places, hplaces⟩ : ∃ places : Nat, places = 400 := ⟨_, rfl⟩
  have hone : one ≤ 10 ^ places := by
    subst hplaces
    decide +kernel
  obtain ⟨n, hn⟩ : ∃ n, n = Layout.double.units rank * Nat.pow 10 places / one := ⟨_, rfl⟩
  have hpoint : pointOf rank = (ofNat n).length - (places : Int) := by
    have hcast : (places : Int) = 400 := by omega
    unfold pointOf
    rw [hn, ← hcast, ← hplaces]
  rw [Nat.pow_eq] at hn
  have hvalue := rankValue_pos h
  have hpos : n ≠ 0 := by
    have hunits := Layout.double.units_strictMono h
    rw [Layout.units_zero] at hunits
    have hle : one ≤ Layout.double.units rank * 10 ^ places :=
      hone.trans (Nat.le_mul_of_pos_left _ hunits)
    rw [hn]
    exact (Nat.div_pos hle Double.one_pos).ne'
  have hfloor : n = ⌊rankValue rank * 10 ^ places⌋₊ := by
    rw [hn, ← Nat.floor_div_eq_div (K := ℚ), rankValue, div_mul_eq_mul_div]
    push_cast
    rfl
  have hlow : (10 : ℚ) ^ ((ofNat n).length - 1) ≤ rankValue rank * 10 ^ places := by
    refine le_trans ?_ (Nat.floor_le (by positivity))
    rw [← hfloor]
    exact_mod_cast pow_length_ofNat_le hpos
  have hhigh : rankValue rank * 10 ^ places < 10 ^ (ofNat n).length := by
    refine (Nat.lt_floor_add_one _).trans_le ?_
    rw [← hfloor]
    exact_mod_cast Nat.succ_le_of_lt (lt_pow_length_ofNat n)
  have hlen : 0 < (ofNat n).length := Nat.length_toDigits_pos
  have hten : (0 : ℚ) < 10 ^ places := by positivity
  rw [hpoint]
  constructor
  · rw [← mul_le_mul_iff_of_pos_right hten, ← zpow_natCast, ← zpow_add₀ (by norm_num)]
    rw [← zpow_natCast] at hlow
    rwa [sub_right_comm, sub_add_cancel, ← Nat.cast_pred hlen]
  · rw [← mul_lt_mul_iff_of_pos_right hten, ← zpow_natCast, ← zpow_add₀ (by norm_num),
      sub_add_cancel, zpow_natCast, zpow_natCast]
    exact hhigh

def steps (rank : Nat) (e : Int) : Nat := ⌊rankValue rank / 10 ^ e⌋₊

section

variable (rank : Nat) (e : Int)

theorem rankValue_nonneg : 0 ≤ rankValue rank :=
  div_nonneg (Nat.cast_nonneg _) one_cast_pos.le

theorem steps_mul_le : steps rank e * 10 ^ e ≤ rankValue rank := by
  have hstep : (0 : ℚ) < 10 ^ e := by positivity
  rw [← le_div_iff₀ hstep]
  exact Nat.floor_le (div_nonneg (rankValue_nonneg rank) hstep.le)

theorem lt_steps_succ_mul : rankValue rank < (steps rank e + 1 : ℕ) * 10 ^ e := by
  have hstep : (0 : ℚ) < 10 ^ e := by positivity
  rw [← div_lt_iff₀ hstep]
  push_cast
  exact Nat.lt_floor_add_one _

theorem rankValue_div_zpow : rankValue rank / 10 ^ e =
    (Layout.double.units rank * 10 ^ (-e).toNat : ℕ) / (one * 10 ^ e.toNat : ℕ) := by
  rw [rankValue, ten_zpow]
  push_cast
  field_simp

theorem div_eq_steps : Layout.double.units rank * 10 ^ (-e).toNat / (one * 10 ^ e.toNat) =
    steps rank e := by
  rw [steps, rankValue_div_zpow, Nat.floor_div_eq_div]

def nearestSteps : Nat :=
  roundHalfEven (Layout.double.units rank * 10 ^ (-e).toNat) (one * 10 ^ e.toNat)

theorem nearestSteps_eq : nearestSteps rank e = steps rank e ∨
    nearestSteps rank e = steps rank e + 1 := by
  rw [nearestSteps, roundHalfEven, div_eq_steps]
  split_ifs
  · exact .inl rfl
  · exact .inr rfl

theorem nearestSteps_close : |nearestSteps rank e * 10 ^ e - rankValue rank| ≤ 1 / 2 * 10 ^ e ∧
    (|nearestSteps rank e * 10 ^ e - rankValue rank| = 1 / 2 * 10 ^ e →
      Even (nearestSteps rank e)) := by
  have hden : 0 < one * 10 ^ e.toNat := Nat.mul_pos Double.one_pos (by positivity)
  have hstep : (0 : ℚ) < 10 ^ e := by positivity
  obtain ⟨hle, heven⟩ := abs_roundHalfEven_sub (Layout.double.units rank * 10 ^ (-e).toNat) hden
  have hscaled : |nearestSteps rank e * 10 ^ e - rankValue rank| =
      |(nearestSteps rank e : ℚ) - rankValue rank / 10 ^ e| * 10 ^ e := by
    rw [← abs_of_pos hstep, ← abs_mul, abs_of_pos hstep, sub_mul, div_mul_cancel₀ _ hstep.ne']
  rw [← rankValue_div_zpow] at hle heven
  rw [hscaled]
  exact ⟨mul_le_mul_of_nonneg_right hle hstep.le,
    fun heq => heven (mul_right_cancel₀ hstep.ne' heq)⟩

end

def Neighbours (rank : Nat) (e : Int) (n other : Nat) : Prop :=
  (n = steps rank e ∧ other = n + 1) ∨ (other = steps rank e ∧ n = other + 1)

namespace Neighbours

variable {rank : Nat} {e : Int} {n other : Nat} (h : Neighbours rank e n other)

include h

theorem symm : Neighbours rank e other n := Or.symm h

theorem eq_or_eq {m m' : Nat} (hm : Neighbours rank e m m') : m = n ∨ m = other := by
  unfold Neighbours at h hm
  omega

theorem add_abs_sub :
    |n * 10 ^ e - rankValue rank| + |other * 10 ^ e - rankValue rank| = (10 : ℚ) ^ e := by
  have hlow := steps_mul_le rank e
  have hhigh := (lt_steps_succ_mul rank e).le
  have hsteps : |steps rank e * 10 ^ e - rankValue rank| +
      |(steps rank e + 1 : ℕ) * 10 ^ e - rankValue rank| = (10 : ℚ) ^ e := by
    rw [abs_of_nonpos (by linarith), abs_of_nonneg (by linarith)]
    push_cast
    ring
  obtain ⟨rfl, rfl⟩ | ⟨rfl, rfl⟩ := h
  · exact hsteps
  · rw [add_comm]
    exact hsteps

theorem abs_sub : |(n * 10 ^ e - other * 10 ^ e : ℚ)| = 10 ^ e := by
  have hone : |(n - other : ℚ)| = 1 := by
    obtain ⟨-, rfl⟩ | ⟨-, rfl⟩ := h
    · simp
    · simp
  have hstep : (0 : ℚ) < 10 ^ e := by positivity
  rw [← sub_mul, abs_mul, hone, one_mul, abs_of_pos hstep]

end Neighbours

/-- A multiple of a power of ten that the search takes: it is rounded to the magnitude, and it is
no further from it than its neighbour, or the even one of both, unless that one is rounded to
another magnitude. -/
structure IsHit (rank : Nat) (e : Int) (n other : Nat) : Prop where
  neighbours : Neighbours rank e n other
  reads : ReadsAs rank (n * 10 ^ e)
  preferred : ReadsAs rank (other * 10 ^ e) →
    |n * 10 ^ e - rankValue rank| ≤ |other * 10 ^ e - rankValue rank| ∧
      (|n * 10 ^ e - rankValue rank| = |other * 10 ^ e - rankValue rank| → Even n)

/-- On a grid the search finds one of the neighbours, unless neither is rounded to the magnitude. -/
theorem onGrid?_cases (rank : Nat) (e : Int) :
    (onGrid? .even rank e = none ∧
      ∀ n other, Neighbours rank e n other → ¬ReadsAs rank (n * 10 ^ e)) ∨
    ∃ n other, onGrid? .even rank e = some (ofSignificand n e) ∧ IsHit rank e n other := by
  obtain ⟨other, hother, hneighbours⟩ : ∃ other,
      (if nearestSteps rank e = steps rank e then steps rank e + 1 else steps rank e) = other ∧
        Neighbours rank e (nearestSteps rank e) other := by
    obtain h | h := nearestSteps_eq rank e
    · exact ⟨_, rfl, .inl ⟨h, by rw [if_pos h, h]⟩⟩
    · exact ⟨_, rfl, .inr ⟨by rw [if_neg (by omega)], by rw [h, if_neg (by omega)]⟩⟩
  have hgrid : onGrid? .even rank e =
      if readsBack rank (nearestSteps rank e) e then some (ofSignificand (nearestSteps rank e) e)
      else if readsBack rank other e then some (ofSignificand other e) else none := by
    rw [← hother, ← div_eq_steps]
    rfl
  rw [hgrid]
  split_ifs with hnearest hsecond
  · right
    refine ⟨nearestSteps rank e, other, rfl, hneighbours, (readsBack_iff ..).mp hnearest,
      fun _ => ?_⟩
    obtain ⟨hle, heven⟩ := nearestSteps_close rank e
    have hsum := hneighbours.add_abs_sub
    exact ⟨by linarith, fun heq => heven (by linarith)⟩
  · right
    exact ⟨other, nearestSteps rank e, rfl, hneighbours.symm, (readsBack_iff ..).mp hsecond,
      fun h => absurd ((readsBack_iff ..).mpr h) hnearest⟩
  · left
    refine ⟨rfl, fun n m hn h => ?_⟩
    obtain rfl | rfl := hneighbours.eq_or_eq hn
    · exact hnearest ((readsBack_iff ..).mpr h)
    · exact hsecond ((readsBack_iff ..).mpr h)

section

variable {rank : Nat} (h : 0 < rank) {count : Nat} (hcount : 0 < count)

include h

/-- On the grid of seventeen digits a neighbour of a magnitude is rounded to it. -/
theorem exists_neighbour_of_seventeen : ∃ n other,
    Neighbours rank (pointOf rank - 17) n other ∧
      ReadsAs rank (n * 10 ^ (pointOf rank - 17)) := by
  obtain ⟨e, he⟩ : ∃ e, e = pointOf rank - 17 := ⟨_, rfl⟩
  rw [← he]
  have hstep : (0 : ℚ) < 10 ^ e := by positivity
  have hfine : (10 : ℚ) ^ e * 10 ^ 16 ≤ rankValue rank := by
    have hsplit : pointOf rank - 1 = e + (16 : ℕ) := by omega
    have hlow := (pointOf_bounds h).1
    rwa [hsplit, zpow_add₀ (by norm_num), zpow_natCast] at hlow
  have hclose {n : Nat} (hn : |n * 10 ^ e - rankValue rank| ≤ 10 ^ e / 2) :
      ReadsAs rank (n * 10 ^ e) := by
    refine readsAs_of_close h (by positivity) ?_
    have : (2 : ℚ) ^ 53 < 10 ^ 16 := by norm_num
    nlinarith
  have hneighbours : Neighbours rank e (steps rank e) (steps rank e + 1) := .inl ⟨rfl, rfl⟩
  have hsum := hneighbours.add_abs_sub
  obtain hle | hlt := le_or_gt |steps rank e * 10 ^ e - rankValue rank| ((10 : ℚ) ^ e / 2)
  · exact ⟨_, _, hneighbours, hclose hle⟩
  · exact ⟨_, _, hneighbours.symm, hclose (by linarith)⟩

include hcount

theorem pow_le_steps_mul : (10 : ℚ) ^ (pointOf rank - 1) ≤
    steps rank (pointOf rank - count) * 10 ^ (pointOf rank - count) := by
  obtain ⟨e, he⟩ : ∃ e, e = pointOf rank - count := ⟨_, rfl⟩
  have hstep : (0 : ℚ) < 10 ^ e := by positivity
  have hpow : (10 : ℚ) ^ (pointOf rank - 1) = (10 ^ (count - 1) : ℕ) * 10 ^ e := by
    have hsplit : pointOf rank - 1 = (count - 1 : ℕ) + e := by omega
    rw [hsplit, zpow_add₀ (by norm_num), zpow_natCast]
    push_cast
    rfl
  have hfirst : 10 ^ (count - 1) ≤ steps rank e := by
    refine Nat.le_floor ?_
    rw [le_div_iff₀ hstep, ← hpow]
    exact (pointOf_bounds h).1
  rw [← he, hpow]
  gcongr

/-- A decimal that is rounded to a magnitude has one of its neighbours on the grid of as many digits
between the magnitude and itself. -/
theorem exists_neighbour {a : ℚ} (ha : 0 ≤ a) (hread : ReadsAs rank a)
    (hdecimal : IsDecimal count a) : ∃ n other,
      Neighbours rank (pointOf rank - count) n other ∧
      ReadsAs rank (n * 10 ^ (pointOf rank - count)) ∧
      |n * 10 ^ (pointOf rank - count) - rankValue rank| ≤ |a - rankValue rank| ∧
      (|n * 10 ^ (pointOf rank - count) - rankValue rank| = |a - rankValue rank| →
        a = n * 10 ^ (pointOf rank - count)) := by
  have hfirst := pow_le_steps_mul h hcount
  obtain ⟨e, he⟩ : ∃ e, e = pointOf rank - count := ⟨_, rfl⟩
  rw [← he] at hfirst ⊢
  have hvalue := readsAs_rankValue rank
  have hlow := steps_mul_le rank e
  have hhigh := (lt_steps_succ_mul rank e).le
  have hside : a ≤ steps rank e * 10 ^ e ∨ (steps rank e + 1 : ℕ) * 10 ^ e ≤ a := by
    obtain hlt | ⟨m, rfl⟩ := hdecimal.lt_or_multiple ha e
    · left
      rw [he, sub_add_cancel] at hlt
      exact hlt.le.trans hfirst
    · obtain hle | hlt := le_or_gt m (steps rank e)
      · left
        gcongr
      · right
        gcongr
        exact hlt
  obtain hle | hle := hside
  · refine ⟨_, _, .inl ⟨rfl, rfl⟩, hread.of_between hvalue ha hle hlow, ?_⟩
    rw [abs_of_nonpos (by linarith), abs_of_nonpos (by linarith)]
    exact ⟨by linarith, fun heq => by linarith⟩
  · refine ⟨_, _, .inr ⟨rfl, rfl⟩, hvalue.of_between hread (rankValue_nonneg rank) hhigh hle, ?_⟩
    rw [abs_of_nonneg (by linarith), abs_of_nonneg (by linarith)]
    exact ⟨by linarith, fun heq => by linarith⟩

theorem isDecimal_of_neighbours {n other : Nat}
    (hn : Neighbours rank (pointOf rank - count) n other) :
    IsDecimal count (n * 10 ^ (pointOf rank - count)) := by
  obtain ⟨e, he⟩ : ∃ e, e = pointOf rank - count := ⟨_, rfl⟩
  rw [← he] at hn ⊢
  have hlt : steps rank e < 10 ^ count := by
    refine (Nat.floor_lt (div_nonneg (rankValue_nonneg rank) (by positivity))).mpr ?_
    have hsplit : pointOf rank = count + e := by omega
    have hhigh := (pointOf_bounds h).2
    rw [hsplit, zpow_add₀ (by norm_num), zpow_natCast] at hhigh
    rw [div_lt_iff₀ (by positivity)]
    exact_mod_cast hhigh
  have hle : n ≤ 10 ^ count := by
    unfold Neighbours at hn
    omega
  obtain hlt | rfl := hle.lt_or_eq
  · exact ⟨n, e, hlt, abs_of_nonneg (by positivity)⟩
  · refine ⟨1, count + e, Nat.one_lt_pow hcount.ne' (by decide), ?_⟩
    rw [abs_of_nonneg (by positivity), zpow_add₀ (by norm_num), zpow_natCast]
    push_cast
    ring

end

end Shortest

end Coercion
