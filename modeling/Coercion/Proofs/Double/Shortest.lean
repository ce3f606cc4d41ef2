import Coercion.Proofs.Double.DecimalGrid

namespace Coercion

open Text

theorem mem_of_range_eq {before after : List Nat} {bound k i : Nat}
    (h : List.range bound = before ++ k :: after) (hlt : i < k) : i ∈ before := by
  have hsorted := List.pairwise_lt_range (n := bound)
  have hk : k < bound := List.mem_range.mp (by rw [h]; simp)
  have hmem : i ∈ List.range bound := List.mem_range.mpr (hlt.trans hk)
  rw [h] at hmem hsorted
  obtain hmem | hmem := List.mem_append.mp hmem
  · exact hmem
  · have hafter := (List.pairwise_cons.mp (List.pairwise_append.mp hsorted).2.1).1
    obtain rfl | hmem := List.mem_cons.mp hmem
    · exact absurd hlt (lt_irrefl i)
    · exact absurd (hafter i hmem) hlt.le.not_gt

namespace Double

/-- A number is the shortest decimal of a double: it is rounded to the double, no decimal of fewer
digits is, and of those with as many digits none is nearer. If another one is as near, this is the
one whose last digit is even. -/
structure IsShortest (f : Double) (count : Nat) (x : ℚ) : Prop where
  rounds : Rounds x f
  isDecimal : IsDecimal count x
  fewest : ∀ {y : ℚ} {other : Nat}, Rounds y f → IsDecimal other y → count ≤ other
  nearest : ∀ {y : ℚ}, Rounds y f → IsDecimal count y → |x - f.toRat| ≤ |y - f.toRat|
  even : ∀ {y : ℚ}, Rounds y f → IsDecimal count y → |x - f.toRat| = |y - f.toRat| → y = x ∨
    ∃ (m : Nat) (e : Int), Even m ∧ |x| = m * 10 ^ e ∧ |x - y| = 10 ^ e

end Double

namespace Shortest

open Double

/-- The number that a decimal stands for. -/
def value (s : Shortest) : ℚ := toNat s.digits * 10 ^ (s.point - s.digits.length)

theorem ofSignificand_isNumber (n : Nat) (e : Int) : IsNumber (ofSignificand n e).digits := by
  intro c hc
  have hmem := List.dropWhile_subset _ (List.mem_reverse.mp hc)
  exact isNumber_ofNat n c (List.mem_reverse.mp hmem)

theorem value_ofSignificand (n : Nat) (e : Int) : (ofSignificand n e).value = n * 10 ^ e := by
  obtain ⟨zeros, hdigits, hzeros⟩ := exists_dropped_end (· == '0') (ofNat n)
  obtain ⟨digits, hkept⟩ : ∃ digits, digits = ((ofNat n).reverse.dropWhile (· == '0')).reverse :=
    ⟨_, rfl⟩
  rw [← hkept] at hdigits
  have hzeros' : zeros = List.replicate zeros.length '0' :=
    List.eq_replicate_of_mem fun c hc => by simpa using hzeros c hc
  have hn : (n : ℚ) = toNat digits * 10 ^ zeros.length := by
    have hvalue := toNat_append digits zeros
    rw [← hdigits, toNat_ofNat, hzeros', toNat_replicate_zero, List.length_replicate] at hvalue
    exact_mod_cast hvalue
  have hpoint : (ofNat n).length + e - digits.length = zeros.length + e := by
    rw [hdigits, List.length_append]
    push_cast
    ring
  rw [value, ofSignificand]
  dsimp only
  rw [← hkept, hpoint, zpow_add₀ (by norm_num), zpow_natCast, hn, mul_assoc]

/-- The hit on the first grid that has one, with so many digits. -/
structure FirstHit (rank count n other : Nat) : Prop extends
    IsHit rank (pointOf rank - count) n other where
  count_pos : 0 < count
  result_eq : ofRank .even rank = ofSignificand n (pointOf rank - count)
  missed : ∀ {fewer m m' : Nat}, 0 < fewer → fewer < count →
    Neighbours rank (pointOf rank - fewer) m m' → ¬ReadsAs rank (m * 10 ^ (pointOf rank - fewer))

theorem exists_firstHit {rank : Nat} (h : 0 < rank) :
    ∃ count n other, FirstHit rank count n other := by
  have hcast (k : Nat) : pointOf rank - (k + 1) = pointOf rank - (k + 1 : ℕ) := by
    push_cast
    rfl
  cases hfound : (List.range 17).findSome? fun k : Nat =>
      onGrid? .even rank (pointOf rank - (k + 1)) with
  | none =>
    exfalso
    have hnone := List.findSome?_eq_none_iff.mp hfound 16 (by decide)
    obtain ⟨n, other, hneighbours, hread⟩ := exists_neighbour_of_seventeen h
    rw [hcast] at hnone
    obtain ⟨-, hmiss⟩ | ⟨m, m', hsome, -⟩ := onGrid?_cases rank (pointOf rank - (16 + 1 : ℕ))
    · exact hmiss n other hneighbours hread
    · rw [hnone] at hsome
      cases hsome
  | some s =>
    obtain ⟨before, k, after, hrange, hk, hbefore⟩ := List.findSome?_eq_some_iff.mp hfound
    have hresult : ofRank .even rank = s := by
      rw [ofRank, hfound]
      rfl
    rw [hcast] at hk
    obtain ⟨hnone, -⟩ | ⟨n, other, hsome, hhit⟩ := onGrid?_cases rank (pointOf rank - (k + 1 : ℕ))
    · rw [hk] at hnone
      cases hnone
    refine ⟨k + 1, n, other, hhit, k.succ_pos, ?_, fun {fewer m m'} hpos hlt hm hread => ?_⟩
    · exact hresult.trans (Option.some.inj (hk.symm.trans hsome))
    · obtain ⟨i, rfl⟩ := Nat.exists_eq_add_one.mpr hpos
      have hnone := hbefore i (mem_of_range_eq hrange (by omega))
      rw [hcast] at hnone
      obtain ⟨-, hmiss⟩ | ⟨_, _, hsome, -⟩ := onGrid?_cases rank (pointOf rank - (i + 1 : ℕ))
      · exact hmiss m m' hm hread
      · rw [hnone] at hsome
        cases hsome

namespace FirstHit

variable {rank count n other : Nat} (hit : FirstHit rank count n other)

include hit

theorem value_ofRank : (ofRank .even rank).value = n * 10 ^ (pointOf rank - count) := by
  rw [hit.result_eq, value_ofSignificand]

theorem ofRank_isNumber : IsNumber (ofRank .even rank).digits := by
  rw [hit.result_eq]
  exact ofSignificand_isNumber n _

variable {b : ℚ} (hb : 0 ≤ b) (hread : ReadsAs rank b) (h : 0 < rank)

include hb hread h

theorem fewest {fewer : Nat} (hdecimal : IsDecimal fewer b) : count ≤ fewer := by
  by_contra hlt
  obtain rfl | hpos := Nat.eq_zero_or_pos fewer
  · rw [isDecimal_zero_iff.mp hdecimal] at hread
    exact not_readsAs_zero h hread
  · obtain ⟨m, m', hm, hreadm, -⟩ := exists_neighbour h hpos hb hread hdecimal
    exact hit.missed hpos (not_le.mp hlt) hm hreadm

theorem nearest (hdecimal : IsDecimal count b) :
    |n * 10 ^ (pointOf rank - count) - rankValue rank| ≤ |b - rankValue rank| ∧
    (|n * 10 ^ (pointOf rank - count) - rankValue rank| = |b - rankValue rank| →
      b = n * 10 ^ (pointOf rank - count) ∨
        Even n ∧ |n * 10 ^ (pointOf rank - count) - b| = 10 ^ (pointOf rank - count)) := by
  obtain ⟨m, m', hm, hreadm, hcloser, heq⟩ := exists_neighbour h hit.count_pos hb hread hdecimal
  obtain rfl | rfl := hit.neighbours.eq_or_eq hm
  · exact ⟨hcloser, fun htie => .inl (heq htie)⟩
  · obtain ⟨hle, heven⟩ := hit.preferred hreadm
    refine ⟨hle.trans hcloser, fun htie => .inr ⟨heven (hle.antisymm (htie ▸ hcloser)), ?_⟩⟩
    rw [heq (hcloser.antisymm (htie ▸ hle)), hit.neighbours.abs_sub]

end FirstHit

end Shortest

namespace Double

open Shortest (rankValue ReadsAs)

theorem rounds_iff_readsAs {negative : Bool} {rank : Fin Layout.double.count} {y : ℚ} :
    Rounds y (finite negative rank) ↔ ReadsAs rank |y| ∧ y = factor negative * |y| := by
  rw [rounds_finite_iff]
  constructor
  · rintro ⟨hread, hneg, hpos⟩
    refine ⟨hread, ?_⟩
    obtain hlt | rfl | hlt := lt_trichotomy y 0
    · rw [hneg hlt, abs_of_neg hlt, factor_true, neg_one_mul, neg_neg]
    · rw [abs_zero, mul_zero]
    · rw [hpos hlt, abs_of_pos hlt, factor_false, one_mul]
  · rintro ⟨hread, hy⟩
    refine ⟨hread, fun hlt => ?_, fun hlt => ?_⟩
    · cases negative with
      | true => rfl
      | false =>
        rw [factor_false, one_mul] at hy
        exact absurd (hy ▸ abs_nonneg y) (not_le.mpr hlt)
    · cases negative with
      | false => rfl
      | true =>
        rw [factor_true, neg_one_mul] at hy
        linarith [abs_nonneg y]

theorem isShortest_ofRank (negative : Bool) {rank : Fin Layout.double.count} (h : 0 < rank.val) :
    ∃ count, IsShortest (finite negative rank) count
      (factor negative * (Shortest.ofRank .even rank).value) := by
  obtain ⟨count, n, other, hit⟩ := Shortest.exists_firstHit h
  have hpos : (0 : ℚ) ≤ n * 10 ^ (Shortest.pointOf rank - count) := by positivity
  have habs := abs_factor_mul negative hpos
  have hsub (b c : ℚ) : |factor negative * b - factor negative * c| = |b - c| := by
    rw [← mul_sub, abs_factor_mul_eq]
  have hfinite : (finite negative rank).toRat = factor negative * rankValue rank :=
    toRat_finite negative rank
  have hdecimal := Shortest.isDecimal_of_neighbours h hit.count_pos hit.neighbours
  rw [hit.value_ofRank]
  refine ⟨count, rounds_iff_readsAs.mpr ?_, ?_, fun hy hdecimal' => ?_,
    fun {y} hy hdecimal' => ?_, fun {y} hy hdecimal' => ?_⟩
  · rw [habs]
    exact ⟨hit.reads, rfl⟩
  · rwa [← isDecimal_abs_iff, habs]
  · obtain ⟨hread, -⟩ := rounds_iff_readsAs.mp hy
    exact hit.fewest (abs_nonneg _) hread h (isDecimal_abs_iff.mpr hdecimal')
  · obtain ⟨hread, hsign⟩ := rounds_iff_readsAs.mp hy
    rw [hfinite, hsign, hsub, hsub]
    exact (hit.nearest (abs_nonneg y) hread h (isDecimal_abs_iff.mpr hdecimal')).1
  · obtain ⟨hread, hsign⟩ := rounds_iff_readsAs.mp hy
    obtain ⟨-, htie⟩ := hit.nearest (abs_nonneg y) hread h (isDecimal_abs_iff.mpr hdecimal')
    rw [hfinite, hsign, hsub, hsub, hsub, habs]
    exact fun heq => (htie heq).imp (congrArg (factor negative * ·))
      fun ⟨heven, hstep⟩ => ⟨n, _, heven, rfl, hstep⟩

theorem isShortest_zero (negative : Bool) : IsShortest (ofRank negative 0) 0 0 where
  rounds := rounds_zero negative
  isDecimal := isDecimal_zero_iff.mpr rfl
  fewest := fun _ _ => Nat.zero_le _
  nearest := fun _ hdecimal => by rw [isDecimal_zero_iff.mp hdecimal]
  even := fun _ hdecimal _ => .inl (isDecimal_zero_iff.mp hdecimal)

theorem exists_rank_of_isFinite {f : Double} (h : f.isFinite = true) :
    ∃ negative, f = ofRank negative 0 ∨
      ∃ rank : Fin Layout.double.count, 0 < rank.val ∧ f = finite negative rank := by
  obtain ⟨negative, rank, rfl⟩ := exists_finite_of_isFinite h
  refine ⟨negative, ?_⟩
  obtain hzero | hpos := Nat.eq_zero_or_pos rank.val
  · left
    rw [ofRank, dif_pos (by decide)]
    exact congrArg _ (Fin.ext hzero)
  · exact .inr ⟨rank, hpos, rfl⟩

theorem exists_isShortest {f : Double} (h : f.isFinite = true) :
    ∃ count x, IsShortest f count x := by
  obtain ⟨negative, rfl | ⟨rank, hpos, rfl⟩⟩ := exists_rank_of_isFinite h
  · exact ⟨0, 0, isShortest_zero negative⟩
  · obtain ⟨count, hshortest⟩ := isShortest_ofRank negative hpos
    exact ⟨count, _, hshortest⟩

theorem IsShortest.unique {f : Double} {count count' : Nat} {x x' : ℚ} (h : IsShortest f count x)
    (h' : IsShortest f count' x') : x = x' := by
  obtain rfl : count = count' :=
    (h.fewest h'.rounds h'.isDecimal).antisymm (h'.fewest h.rounds h.isDecimal)
  have hdistance : |x - f.toRat| = |x' - f.toRat| :=
    (h.nearest h'.rounds h'.isDecimal).antisymm (h'.nearest h.rounds h.isDecimal)
  by_contra hne
  obtain ⟨m, e, hm, hx, hstep⟩ :=
    (h.even h'.rounds h'.isDecimal hdistance).resolve_left (Ne.symm hne)
  obtain ⟨m', e', hm', hx', hstep'⟩ :=
    (h'.even h.rounds h.isDecimal hdistance.symm).resolve_left hne
  rw [abs_sub_comm, hstep] at hstep'
  obtain rfl : e = e' := zpow_right_injective₀ (by norm_num : (0 : ℚ) < 10) (by norm_num) hstep'
  -- Two even multiples of a power of ten are not one power of ten apart.
  have hmultiple {y : ℚ} {k : Nat} (hk : Even k) (hy : |y| = k * 10 ^ e) :
      ∃ a : Int, Even a ∧ y = a * 10 ^ e := by
    obtain hy | hy := eq_or_eq_neg_of_abs_eq hy
    · exact ⟨k, by exact_mod_cast hk, hy⟩
    · refine ⟨-k, (by exact_mod_cast hk : Even (k : Int)).neg, ?_⟩
      rw [hy]
      push_cast
      ring
  obtain ⟨a, ha, rfl⟩ := hmultiple hm hx
  obtain ⟨b, hb, rfl⟩ := hmultiple hm' hx'
  have hpow : (0 : ℚ) < 10 ^ e := by positivity
  have hone : |a - b| = 1 := by
    rw [← sub_mul, abs_mul, abs_of_pos hpow, mul_eq_right₀ hpow.ne'] at hstep
    exact_mod_cast hstep
  have heven := ha.sub hb
  rw [← even_abs, hone] at heven
  exact absurd heven (by decide)

end Double

end Coercion
