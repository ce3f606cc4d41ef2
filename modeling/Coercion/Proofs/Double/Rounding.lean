import Coercion.Proofs.Double.Integers
import Mathlib.Algebra.Order.Field.Basic
import Mathlib.Data.Rat.Cast.Order
import Mathlib.Order.Monotone.Basic
import Mathlib.Tactic.FieldSimp

namespace Coercion

/-- The quotient is at most a half away from what it is rounded to, and a half only from an even
number. -/
theorem roundHalfEven_bounds (num : Nat) {den : Nat} (h : 0 < den) :
    2 * num ≤ (2 * roundHalfEven num den + 1) * den ∧
      2 * roundHalfEven num den * den ≤ 2 * num + den ∧
      (roundHalfEven num den % 2 = 1 → 2 * num < (2 * roundHalfEven num den + 1) * den ∧
        2 * roundHalfEven num den * den < 2 * num + den) := by
  obtain ⟨q, hq⟩ : ∃ q, q = num / den := ⟨_, rfl⟩
  obtain ⟨rest, hrest⟩ : ∃ rest, rest = num % den := ⟨_, rfl⟩
  have hlt : rest < den := hrest ▸ Nat.mod_lt num h
  have hnum : num = den * q + rest := hq ▸ hrest ▸ (Nat.div_add_mod num den).symm
  unfold roundHalfEven
  rw [← hq, ← hrest, hnum]
  dsimp only
  split_ifs with hdown
  · have hhalf : 2 * rest ≤ den ∧ (q % 2 = 1 → 2 * rest < den) := by omega
    refine ⟨by nlinarith, by nlinarith, fun hodd => ?_⟩
    have := hhalf.2 hodd
    exact ⟨by nlinarith, by nlinarith⟩
  · have hhalf : den ≤ 2 * rest ∧ ((q + 1) % 2 = 1 → den < 2 * rest) := by omega
    refine ⟨by nlinarith, by nlinarith, fun hodd => ?_⟩
    have := hhalf.2 hodd
    exact ⟨by nlinarith, by nlinarith⟩

theorem abs_roundHalfEven_sub (num : Nat) {den : Nat} (h : 0 < den) :
    |(roundHalfEven num den : ℚ) - num / den| ≤ 1 / 2 ∧
      (|(roundHalfEven num den : ℚ) - num / den| = 1 / 2 → Even (roundHalfEven num den)) := by
  obtain ⟨hhigh, hlow, hodd⟩ := roundHalfEven_bounds num h
  obtain ⟨n, hn⟩ : ∃ n, n = roundHalfEven num den := ⟨_, rfl⟩
  rw [← hn] at hhigh hlow hodd ⊢
  have hden : (0 : ℚ) < den := by exact_mod_cast h
  obtain ⟨q, hq⟩ : ∃ q : ℚ, q = num / den := ⟨_, rfl⟩
  have hnum : (num : ℚ) = q * den := by rw [hq, div_mul_cancel₀ _ hden.ne']
  have hcancel {a b : ℚ} : a * den ≤ b * den ↔ a ≤ b := mul_le_mul_iff_of_pos_right hden
  have hcancel' {a b : ℚ} : a * den < b * den ↔ a < b := mul_lt_mul_iff_of_pos_right hden
  rw [← hq]
  have hhigh' : 2 * q ≤ 2 * n + 1 := by
    rw [← hcancel, mul_assoc, ← hnum]
    exact_mod_cast hhigh
  have hlow' : 2 * n ≤ 2 * q + 1 := by
    rw [← hcancel, add_mul, one_mul, mul_assoc 2 q, ← hnum]
    exact_mod_cast hlow
  refine ⟨abs_le.mpr ⟨by linarith, by linarith⟩, fun heq => not_not.mp fun hne => ?_⟩
  obtain ⟨hlt, hlt'⟩ := hodd (Nat.not_even_iff.mp hne)
  have hhigh'' : 2 * q < 2 * n + 1 := by
    rw [← hcancel', mul_assoc, ← hnum]
    exact_mod_cast hlt
  have hlow'' : 2 * n < 2 * q + 1 := by
    rw [← hcancel', add_mul, one_mul, mul_assoc 2 q, ← hnum]
    exact_mod_cast hlt'
  exact (abs_lt.mpr ⟨by linarith, by linarith⟩).ne heq

theorem abs_sub_le_abs_sub_iff_of_lt {a b y : ℚ} (h : a < b) :
    |b - y| ≤ |a - y| ↔ a + b ≤ 2 * y := by
  rw [← sq_le_sq]
  constructor
  · intro hle
    nlinarith
  · intro hle
    nlinarith

theorem abs_sub_le_abs_sub_iff_of_lt' {a b y : ℚ} (h : a < b) :
    |a - y| ≤ |b - y| ↔ 2 * y ≤ a + b := by
  rw [← sq_le_sq]
  constructor
  · intro hle
    nlinarith
  · intro hle
    nlinarith

namespace Layout

variable (l : Layout)

theorem perExponent_pos : 0 < l.perExponent := by
  simp [perExponent, Nat.shiftLeft_eq]

theorem units_of_shift {shift k : Nat} (hk : k ≤ 2 * l.perExponent)
    (hshift : shift = 0 ∨ l.perExponent ≤ k) :
    l.units (shift * l.perExponent + k) = k * 2 ^ shift := by
  have hpos := l.perExponent_pos
  obtain hlt | hge := lt_or_ge k l.perExponent
  · obtain rfl : shift = 0 := by omega
    simp [units, hlt]
  · obtain ⟨fraction, rfl⟩ := Nat.exists_eq_add_of_le hge
    obtain hlt | heq : fraction < l.perExponent ∨ fraction = l.perExponent := by omega
    · exact l.units_normal shift fraction hlt
    · have hnext := l.units_normal (shift + 1) 0 hpos
      rw [heq, show shift * l.perExponent + (l.perExponent + l.perExponent) =
        (shift + 1) * l.perExponent + (l.perExponent + 0) by ring, hnext, pow_succ]
      ring

theorem units_succ_of_shift {shift k : Nat} (hk : k < 2 * l.perExponent)
    (hshift : shift = 0 ∨ l.perExponent ≤ k) :
    l.units (shift * l.perExponent + k + 1) = (k + 1) * 2 ^ shift := by
  rw [add_assoc, l.units_of_shift hk (hshift.imp_right (by omega))]

theorem units_pred_of_shift {shift k : Nat} (hk : k ≤ 2 * l.perExponent)
    (hshift : shift = 0 ∨ l.perExponent < k) :
    l.units (shift * l.perExponent + k - 1) = (k - 1) * 2 ^ shift := by
  have hrank : shift * l.perExponent + k - 1 = shift * l.perExponent + (k - 1) := by
    obtain rfl | hlt := hshift
    · rw [zero_mul, zero_add, zero_add]
    · omega
  rw [hrank, l.units_of_shift (by omega) (hshift.imp_right (by omega))]

theorem exists_shift (rank : Nat) : ∃ shift k, rank = shift * l.perExponent + k ∧
    k < 2 * l.perExponent ∧ (shift = 0 ∨ l.perExponent ≤ k) ∧
    l.units rank = k * 2 ^ shift ∧ l.units (rank + 1) = (k + 1) * 2 ^ shift := by
  have hpos := l.perExponent_pos
  obtain ⟨shift, k, hrank, hk, hshift⟩ : ∃ shift k, rank = shift * l.perExponent + k ∧
      k < 2 * l.perExponent ∧ (shift = 0 ∨ l.perExponent ≤ k) := by
    obtain hlt | hge := lt_or_ge rank l.perExponent
    · exact ⟨0, rank, by ring, by omega, .inl rfl⟩
    · obtain ⟨rest, rfl⟩ := Nat.exists_eq_add_of_le hge
      have hmod := Nat.mod_lt rest hpos
      refine ⟨rest / l.perExponent, l.perExponent + rest % l.perExponent, ?_, by omega,
        .inr (Nat.le_add_right _ _)⟩
      have := Nat.div_add_mod' rest l.perExponent
      omega
  refine ⟨shift, k, hrank, hk, hshift, ?_, ?_⟩
  · rw [hrank, l.units_of_shift hk.le hshift]
  · rw [hrank, l.units_succ_of_shift hk hshift]

theorem units_strictMono : StrictMono l.units := by
  apply strictMono_nat_of_lt_succ
  intro rank
  obtain ⟨shift, k, -, -, -, hunits, hnext⟩ := l.exists_shift rank
  rw [hunits, hnext]
  have : 0 < 2 ^ shift := by positivity
  nlinarith

theorem units_le_mul_step (rank : Nat) :
    l.units rank ≤ 2 * l.perExponent * (l.units (rank + 1) - l.units rank) ∧
      l.units (rank + 1) ≤ 2 * l.perExponent * (l.units (rank + 1) - l.units rank) := by
  obtain ⟨shift, k, -, hk, -, hunits, hnext⟩ := l.exists_shift rank
  have hstep : (k + 1) * 2 ^ shift - k * 2 ^ shift = 2 ^ shift := by
    rw [add_mul, one_mul, Nat.add_sub_cancel_left]
  rw [hunits, hnext, hstep]
  exact ⟨Nat.mul_le_mul_right _ hk.le, Nat.mul_le_mul_right _ hk⟩

theorem units_zero : l.units 0 = 0 := by
  simp [units, l.perExponent_pos]

def IsNearest (y : ℚ) (rank : Nat) : Prop :=
  ∀ other : Nat, |(l.units rank : ℚ) - y| ≤ |(l.units other : ℚ) - y| ∧
    (|(l.units rank : ℚ) - y| = |(l.units other : ℚ) - y| → other = rank ∨ Even rank)

def IsBetween (y : ℚ) (rank : Nat) : Prop :=
  (l.units (rank - 1) + l.units rank : ℚ) ≤ 2 * y ∧
    2 * y ≤ (l.units rank + l.units (rank + 1) : ℚ) ∧
    (¬Even rank → (l.units (rank - 1) + l.units rank : ℚ) < 2 * y ∧
      2 * y < (l.units rank + l.units (rank + 1) : ℚ))

variable {l}

theorem isNearest_units (rank : Nat) : l.IsNearest (l.units rank) rank := by
  intro other
  rw [sub_self, abs_zero]
  refine ⟨abs_nonneg _, fun h => .inl ?_⟩
  have hzero := sub_eq_zero.mp (abs_eq_zero.mp h.symm)
  exact l.units_strictMono.injective (by exact_mod_cast hzero)

theorem isNearest_iff (y : ℚ) (rank : Nat) : l.IsNearest y rank ↔
    (∀ other < rank, (l.units other + l.units rank : ℚ) ≤ 2 * y ∧
      (l.units other + l.units rank = 2 * y → Even rank)) ∧
    ∀ other > rank, 2 * y ≤ (l.units rank + l.units other : ℚ) ∧
      (2 * y = l.units rank + l.units other → Even rank) := by
  have hmono {a b : Nat} (h : a < b) : (l.units a : ℚ) < l.units b := by
    exact_mod_cast l.units_strictMono h
  constructor
  · intro h
    constructor
    · intro other hlt
      obtain ⟨hle, heven⟩ := h other
      have hiff := abs_sub_le_abs_sub_iff_of_lt (y := y) (hmono hlt)
      have hiff' := abs_sub_le_abs_sub_iff_of_lt' (y := y) (hmono hlt)
      refine ⟨hiff.mp hle, fun heq => ?_⟩
      exact (heven (hle.antisymm (hiff'.mpr heq.ge))).resolve_left hlt.ne
    · intro other hlt
      obtain ⟨hle, heven⟩ := h other
      have hiff := abs_sub_le_abs_sub_iff_of_lt (y := y) (hmono hlt)
      have hiff' := abs_sub_le_abs_sub_iff_of_lt' (y := y) (hmono hlt)
      refine ⟨hiff'.mp hle, fun heq => ?_⟩
      exact (heven (hle.antisymm (hiff.mpr heq.ge))).resolve_left hlt.ne'
  · rintro ⟨hlow, hhigh⟩ other
    obtain hlt | rfl | hlt := lt_trichotomy other rank
    · obtain ⟨hle, heven⟩ := hlow other hlt
      have hiff := abs_sub_le_abs_sub_iff_of_lt (y := y) (hmono hlt)
      have hiff' := abs_sub_le_abs_sub_iff_of_lt' (y := y) (hmono hlt)
      exact ⟨hiff.mpr hle, fun heq => .inr (heven (hle.antisymm (hiff'.mp heq.ge)))⟩
    · exact ⟨le_rfl, fun _ => .inl rfl⟩
    · obtain ⟨hle, heven⟩ := hhigh other hlt
      have hiff := abs_sub_le_abs_sub_iff_of_lt (y := y) (hmono hlt)
      have hiff' := abs_sub_le_abs_sub_iff_of_lt' (y := y) (hmono hlt)
      exact ⟨hiff'.mpr hle, fun heq => .inr (heven (hle.antisymm (hiff.mp heq.ge)))⟩

theorem isNearest_iff_isBetween {y : ℚ} (hy : 0 ≤ y) (rank : Nat) :
    l.IsNearest y rank ↔ l.IsBetween y rank := by
  rw [isNearest_iff]
  constructor
  · rintro ⟨hlow, hhigh⟩
    obtain ⟨hnext, heven⟩ := hhigh (rank + 1) (Nat.lt_succ_self rank)
    obtain rfl | hpos := Nat.eq_zero_or_pos rank
    · refine ⟨?_, hnext, fun hodd => absurd ⟨0, rfl⟩ hodd⟩
      simpa [l.units_zero] using hy
    · obtain ⟨hbefore, heven'⟩ := hlow (rank - 1) (Nat.sub_lt hpos one_pos)
      exact ⟨hbefore, hnext, fun hodd => ⟨hbefore.lt_of_ne (mt heven' hodd),
        hnext.lt_of_ne (mt heven hodd)⟩⟩
  · rintro ⟨hbefore, hnext, hodd⟩
    have hmono {a b : Nat} (h : a ≤ b) : (l.units a : ℚ) ≤ l.units b := by
      exact_mod_cast l.units_strictMono.monotone h
    constructor
    · intro other hlt
      have hother := hmono (Nat.le_sub_one_of_lt hlt)
      refine ⟨by linarith, fun heq => not_not.mp fun h => ?_⟩
      have := (hodd h).1
      linarith
    · intro other hlt
      have hother := hmono (Nat.succ_le_of_lt hlt)
      refine ⟨by linarith, fun heq => not_not.mp fun h => ?_⟩
      have := (hodd h).2
      linarith

theorem IsNearest.unique {y : ℚ} {rank rank' : Nat} (h : l.IsNearest y rank)
    (h' : l.IsNearest y rank') : rank = rank' := by
  wlog hlt : rank < rank' generalizing rank rank'
  · obtain rfl | hgt := (not_lt.mp hlt).eq_or_lt
    · rfl
    · exact (this h' h hgt).symm
  have hmono {a b : Nat} (h : a < b) : (l.units a : ℚ) < l.units b := by
    exact_mod_cast l.units_strictMono h
  rw [isNearest_iff] at h h'
  obtain ⟨hhigh, heven⟩ := h.2 rank' hlt
  obtain ⟨hlow, heven'⟩ := h'.1 rank hlt
  have htie := hhigh.antisymm hlow
  obtain ⟨a, ha⟩ := heven htie
  obtain ⟨b, hb⟩ := heven' htie.symm
  -- Both are even, so that there is a rank between them, and its magnitude is closer.
  have hbetween := (h.2 (rank + 1) (Nat.lt_succ_self rank)).1
  have := hmono (by omega : rank + 1 < rank')
  linarith

theorem IsNearest.mono {y y' : ℚ} {rank rank' : Nat} (h : l.IsNearest y rank)
    (h' : l.IsNearest y' rank') (hle : y ≤ y') : rank ≤ rank' := by
  by_contra hlt
  rw [not_le] at hlt
  have hlow := ((isNearest_iff y rank).mp h).1 rank' hlt
  have hhigh := ((isNearest_iff y' rank').mp h').2 rank hlt
  obtain rfl : y = y' := by linarith
  exact hlt.ne (h'.unique h)

theorem IsNearest.of_between {x y z : ℚ} {rank : Nat} (hx : l.IsNearest x rank)
    (hz : l.IsNearest z rank) (hpos : 0 ≤ x) (hxy : x ≤ y) (hyz : y ≤ z) : l.IsNearest y rank := by
  rw [isNearest_iff_isBetween hpos] at hx
  rw [isNearest_iff_isBetween (hpos.trans (hxy.trans hyz))] at hz
  rw [isNearest_iff_isBetween (hpos.trans hxy)]
  refine ⟨by linarith [hx.1], by linarith [hz.2.1], fun hodd => ⟨?_, ?_⟩⟩
  · linarith [(hx.2.2 hodd).1]
  · linarith [(hz.2.2 hodd).2]

theorem isBetween_div_iff {num den : Nat} (hden : 0 < den) (rank : Nat) :
    l.IsBetween (num / den) rank ↔
      (l.units (rank - 1) + l.units rank) * den ≤ 2 * num ∧
        2 * num ≤ (l.units rank + l.units (rank + 1)) * den ∧
        (¬Even rank → (l.units (rank - 1) + l.units rank) * den < 2 * num ∧
          2 * num < (l.units rank + l.units (rank + 1)) * den) := by
  have hpos : (0 : ℚ) < den := by exact_mod_cast hden
  unfold IsBetween
  rw [← mul_div_assoc, le_div_iff₀ hpos, div_le_iff₀ hpos, lt_div_iff₀ hpos, div_lt_iff₀ hpos]
  norm_cast

/-- The grid on which a quotient is rounded reaches from the first magnitude of an exponent to
that of the next, and for the first exponent from zero. -/
theorem nearest_grid (l : Layout) (num : Nat) {den : Nat} (hden : 0 < den) : ∃ shift,
    l.nearest num den = shift * l.perExponent +
      roundHalfEven (num * 2 ^ l.unitBits) (den * 2 ^ shift) ∧
    num * 2 ^ l.unitBits < 2 * l.perExponent * (den * 2 ^ shift) ∧
    (shift = 0 ∨ l.perExponent * (den * 2 ^ shift) ≤ num * 2 ^ l.unitBits) := by
  obtain ⟨scaled, hscaled⟩ : ∃ scaled, scaled = num * 2 ^ l.unitBits := ⟨_, rfl⟩
  obtain ⟨log, hlog⟩ : ∃ log, log = (scaled / den).log2 := ⟨_, rfl⟩
  have hper : l.perExponent = 2 ^ l.fractionBits := by
    rw [perExponent, Nat.shiftLeft_eq, one_mul]
  refine ⟨log - l.fractionBits, ?_, ?_, ?_⟩
  · simp only [nearest, Nat.shiftLeft_eq, ← hscaled, ← hlog]
  · have hlt : scaled < 2 ^ (log + 1) * den := by
      rw [← Nat.div_lt_iff_lt_mul hden, hlog]
      exact Nat.lt_log2_self
    have hpow : 2 ^ (log + 1) ≤ 2 * l.perExponent * 2 ^ (log - l.fractionBits) := by
      rw [hper, ← pow_succ', ← pow_add]
      exact Nat.pow_le_pow_right two_pos (by omega)
    rw [← hscaled]
    nlinarith
  · obtain hle | hlt := le_or_gt log l.fractionBits
    · exact .inl (Nat.sub_eq_zero_of_le hle)
    · right
      have hne : scaled / den ≠ 0 := by
        intro hzero
        rw [hzero, Nat.log2_zero] at hlog
        omega
      have hle : 2 ^ log * den ≤ scaled := by
        rw [← Nat.le_div_iff_mul_le hden, hlog]
        exact Nat.log2_self_le hne
      have hpow : 2 ^ log = l.perExponent * 2 ^ (log - l.fractionBits) := by
        rw [hper, ← pow_add]
        congr 1
        omega
      rw [← hscaled]
      nlinarith

section

variable (l : Layout) {scaled den shift k : Nat} (hk : k ≤ 2 * l.perExponent)
  (hshift : shift = 0 ∨ l.perExponent ≤ k)

include hk hshift

/-- A quotient at most half a step below a multiple of the step is not below the midpoint before
it. At the start of an exponent that midpoint is closer, but there the quotient is not below the
multiple. -/
theorem midpoint_before_le (hden : 0 < den)
    (hfirst : shift = 0 ∨ l.perExponent * (den * 2 ^ shift) ≤ scaled)
    (hlow : 2 * k * (den * 2 ^ shift) ≤ 2 * scaled + den * 2 ^ shift) :
    (l.units (shift * l.perExponent + k - 1) + k * 2 ^ shift) * den ≤ 2 * scaled ∧
      (0 < k → 2 * k * (den * 2 ^ shift) < 2 * scaled + den * 2 ^ shift →
        (l.units (shift * l.perExponent + k - 1) + k * 2 ^ shift) * den < 2 * scaled) := by
  obtain ⟨step, hstep⟩ : ∃ step, step = den * 2 ^ shift := ⟨_, rfl⟩
  have hscale (j : Nat) : j * 2 ^ shift * den = j * step := by
    rw [hstep]
    ring
  rw [← hstep] at hfirst hlow ⊢
  by_cases hexact : shift = 0 ∨ l.perExponent < k
  · rw [l.units_pred_of_shift hk hexact, Nat.add_mul, hscale, hscale]
    obtain rfl | hpos := Nat.eq_zero_or_pos k
    · simp
    · obtain ⟨j, rfl⟩ := Nat.exists_eq_add_one.mpr hpos
      have hsum : 2 * (j + 1) * step = j * step + (j + 1) * step + step := by ring
      rw [Nat.add_sub_cancel]
      omega
  · obtain rfl : k = l.perExponent := by omega
    have hpos := l.perExponent_pos
    have hle := hfirst.resolve_left (by omega)
    have hprevious := l.units_strictMono
      (by omega : shift * l.perExponent + l.perExponent - 1 < shift * l.perExponent + l.perExponent)
    have hlt := Nat.mul_lt_mul_of_pos_right hprevious hden
    rw [l.units_of_shift hk hshift, hscale] at hlt
    rw [Nat.add_mul, hscale]
    omega

/-- A quotient at most half a step above a multiple of the step is not above the midpoint after it,
where the next magnitude is a step or two away. -/
theorem le_midpoint_after (hhigh : 2 * scaled ≤ (2 * k + 1) * (den * 2 ^ shift)) :
    2 * scaled ≤ (k * 2 ^ shift + l.units (shift * l.perExponent + k + 1)) * den ∧
      (2 * scaled < (2 * k + 1) * (den * 2 ^ shift) →
        2 * scaled < (k * 2 ^ shift + l.units (shift * l.perExponent + k + 1)) * den) := by
  have hnext : (k + 1) * 2 ^ shift ≤ l.units (shift * l.perExponent + k + 1) := by
    obtain hlt | rfl := hk.lt_or_eq
    · rw [l.units_succ_of_shift hlt hshift]
    · have hpos := l.perExponent_pos
      have hrank : shift * l.perExponent + 2 * l.perExponent =
          (shift + 1) * l.perExponent + l.perExponent := by ring
      rw [hrank, l.units_succ_of_shift (by omega) (.inr le_rfl), pow_succ', ← mul_assoc]
      exact Nat.mul_le_mul_right _ (by omega)
  have hsum : (2 * k + 1) * (den * 2 ^ shift) ≤
      (k * 2 ^ shift + l.units (shift * l.perExponent + k + 1)) * den := by
    calc (2 * k + 1) * (den * 2 ^ shift) = (k * 2 ^ shift + (k + 1) * 2 ^ shift) * den := by ring
      _ ≤ _ := Nat.mul_le_mul_right den (Nat.add_le_add_left hnext _)
  exact ⟨hhigh.trans hsum, fun hlt => hlt.trans_le hsum⟩

end

theorem isNearest_nearest (l : Layout) (hbits : 0 < l.fractionBits) (num : Nat) {den : Nat}
    (hden : 0 < den) : l.IsNearest (num * 2 ^ l.unitBits / den) (l.nearest num den) := by
  obtain ⟨shift, hrank, hlast, hfirst⟩ := l.nearest_grid num hden
  obtain ⟨scaled, hscaled⟩ : ∃ scaled, scaled = num * 2 ^ l.unitBits := ⟨_, rfl⟩
  have hpos : 0 < den * 2 ^ shift := by positivity
  rw [← hscaled] at hrank hlast hfirst
  obtain ⟨hhigh, hlow, hodd⟩ := roundHalfEven_bounds scaled hpos
  obtain ⟨k, hk⟩ : ∃ k, k = roundHalfEven scaled (den * 2 ^ shift) := ⟨_, rfl⟩
  rw [← hk] at hrank hhigh hlow hodd
  have hkhigh : k ≤ 2 * l.perExponent := by
    by_contra hlt
    nlinarith
  have hkshift : shift = 0 ∨ l.perExponent ≤ k := by
    refine hfirst.imp_right fun hle => ?_
    by_contra hlt
    nlinarith
  obtain ⟨hbefore, hbefore'⟩ := l.midpoint_before_le hkhigh hkshift hden hfirst hlow
  obtain ⟨hafter, hafter'⟩ := l.le_midpoint_after hkhigh hkshift hhigh
  have heven : Even (l.nearest num den) ↔ Even k := by
    have hper : Even l.perExponent := by
      rw [perExponent, Nat.shiftLeft_eq, one_mul]
      exact even_two.pow_of_ne_zero hbits.ne'
    rw [hrank, Nat.even_add]
    simp [hper]
  have hcast : (num * 2 ^ l.unitBits : ℚ) = (scaled : ℕ) := by
    rw [hscaled]
    push_cast
    rfl
  rw [isNearest_iff_isBetween (by positivity), hcast, isBetween_div_iff hden, heven,
    Nat.not_even_iff, hrank, l.units_of_shift hkhigh hkshift]
  refine ⟨hbefore, hafter, fun hk1 => ?_⟩
  obtain ⟨hhigh', hlow'⟩ := hodd hk1
  exact ⟨hbefore' (by omega) hlow', hafter' hhigh'⟩

end Layout

end Coercion
