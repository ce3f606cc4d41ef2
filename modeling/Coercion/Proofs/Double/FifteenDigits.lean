import Coercion.Proofs.Double.Errors

namespace Coercion

namespace IsDecimal

theorem mono {count count' : Nat} {x : ℚ} (h : IsDecimal count x) (hle : count ≤ count') :
    IsDecimal count' x := by
  obtain ⟨m, e, hm, hvalue⟩ := h
  exact ⟨m, e, hm.trans_le (Nat.pow_le_pow_right (by decide) hle), hvalue⟩

theorem lt_sub_mul {count : Nat} {a b : ℚ} (ha : IsDecimal count a) (hb : IsDecimal count b)
    (hpos : 0 < a) (hlt : a < b) : a < (b - a) * 10 ^ count := by
  obtain ⟨n, hlow, hhigh⟩ := exists_mem_Ico_zpow hpos (by norm_num : (1 : ℚ) < 10)
  obtain ⟨e, he⟩ : ∃ e : ℤ, e = n + 1 - count := ⟨_, rfl⟩
  have hfirst : e + count - 1 = n := by omega
  have hmultiple {c : ℚ} (hc : IsDecimal count c) (hac : a ≤ c) : ∃ m : Nat, c = m * 10 ^ e := by
    refine (hc.lt_or_multiple (hpos.le.trans hac) e).resolve_left (not_lt.mpr ?_)
    rw [hfirst]
    exact hlow.trans hac
  obtain ⟨m, hm⟩ := hmultiple ha le_rfl
  obtain ⟨m', hm'⟩ := hmultiple hb hlt.le
  have hstep : (0 : ℚ) < 10 ^ e := by positivity
  have hlt' : (m : ℚ) + 1 ≤ m' := by
    rw [hm, hm', mul_lt_mul_iff_of_pos_right hstep] at hlt
    exact_mod_cast hlt
  have hgap : 10 ^ e ≤ b - a := by
    rw [hm, hm', ← sub_mul]
    exact le_mul_of_one_le_left hstep.le (by linarith)
  calc a < 10 ^ (n + 1) := hhigh
    _ = 10 ^ e * 10 ^ count := by rw [← zpow_natCast, ← zpow_add₀ (by norm_num), he, sub_add_cancel]
    _ ≤ (b - a) * 10 ^ count := by gcongr

end IsDecimal

namespace Double

/-- Decimals of at most fifteen digits that are rounded to the same double are equal, unless they
are below the least normal double. -/
theorem Rounds.eq_of_isDecimal {x y : ℚ} {f : Double} (hx : Rounds x f) (hy : Rounds y f)
    (hfinite : f.isFinite = true) (hdecimal : IsDecimal 15 x) (hdecimal' : IsDecimal 15 y)
    (hnormal : 1 / 2 ^ 1022 ≤ |x|) (hnormal' : 1 / 2 ^ 1022 ≤ |y|) : x = y := by
  wlog hle : |x| ≤ |y| generalizing x y
  · exact (this hy hx hdecimal' hdecimal hnormal' hnormal (not_le.mp hle).le).symm
  have habs : |x| = |y| := by
    by_contra hne
    have hgap := (isDecimal_abs_iff.mpr hdecimal).lt_sub_mul (isDecimal_abs_iff.mpr hdecimal')
      (lt_of_lt_of_le (by positivity) hnormal) (hle.lt_of_ne hne)
    have herror := hx.abs_sub_le hfinite hnormal
    have herror' := hy.abs_sub_le hfinite hnormal'
    have hclose : |y| - |x| ≤ |f.toRat - x| + |f.toRat - y| := by
      calc |y| - |x| ≤ |y - x| := abs_sub_abs_le_abs_sub y x
        _ = |f.toRat - x + (y - f.toRat)| := by rw [sub_add_sub_cancel']
        _ ≤ |f.toRat - x| + |f.toRat - y| := by
          rw [abs_sub_comm f.toRat y]
          exact abs_add_le _ _
    linarith
  obtain ⟨negative, rank, rfl⟩ := exists_finite_of_isFinite hfinite
  rw [(rounds_iff_readsAs.mp hx).2, (rounds_iff_readsAs.mp hy).2, habs]

theorem Rounds.isFinite_of_abs_le {x : ℚ} {f : Double} (hf : Rounds x f) (hhigh : |x| ≤ 10 ^ 300) :
    f.isFinite = true := by
  have hg := ofRatio_rounds false (10 ^ 300) Nat.one_pos
  have hbound : |x| ≤ |factor false * ((10 ^ 300 : ℕ) / (1 : ℕ))| := by
    rw [abs_factor_mul false (by positivity), Nat.cast_one, div_one, Nat.cast_pow]
    exact hhigh
  exact (hf.of_abs_le hg (by decide +kernel) hbound).1

theorem Rounds.normal_of_le_abs {x y : ℚ} {f : Double} (hx : Rounds x f) (hy : Rounds y f)
    (hfinite : f.isFinite = true) (hlow : 1 / 10 ^ 300 ≤ |x|) : 1 / 2 ^ 1022 ≤ |y| := by
  obtain ⟨least, hleast⟩ : ∃ least : ℚ, least = 1 / 2 ^ 1022 := ⟨_, rfl⟩
  have hpos : 0 < least := by
    rw [hleast]
    positivity
  have hfar : 4 * least ≤ |x| := by
    have hpowers : (4 * 10 ^ 300 : ℚ) ≤ 2 ^ 1022 := by
      calc (4 * 10 ^ 300 : ℚ) = 4 * (10 ^ 3) ^ 100 := by rw [← pow_mul]
        _ ≤ 2 ^ 22 * (2 ^ 10) ^ 100 := by gcongr <;> norm_num
        _ = 2 ^ 1022 := by rw [← pow_mul, ← pow_add]
    refine le_trans ?_ hlow
    rwa [hleast, mul_one_div, div_le_div_iff₀ (by positivity) (by positivity), one_mul]
  by_contra hlt
  rw [not_le, ← hleast] at hlt
  obtain ⟨g, hg, hfinite'⟩ : ∃ g, Rounds least g ∧ g.isFinite = true := by
    refine ⟨ofRatio false 1 (2 ^ 1022), ?_, by decide +kernel⟩
    have hvalue : factor false * ((1 : ℕ) / (2 ^ 1022 : ℕ)) = least := by
      rw [factor_false, one_mul, Nat.cast_one, Nat.cast_pow, hleast]
      rfl
    rw [← hvalue]
    exact ofRatio_rounds false 1 (by positivity)
  have herror := hx.abs_sub_le hfinite (by rw [← hleast]; linarith)
  have herror' := hg.abs_sub_le hfinite' (by rw [hleast]; exact le_abs_self _)
  have hle := (hy.of_abs_le hg hfinite' (by rw [abs_of_pos hpos]; exact hlt.le)).2
  have hclose := abs_sub_abs_le_abs_sub x f.toRat
  have hclose' := abs_sub_abs_le_abs_sub g.toRat least
  rw [abs_sub_comm] at hclose
  rw [abs_of_pos hpos] at hclose' herror'
  linarith

theorem Rounds.isShortest {x : ℚ} {f : Double} (hf : Rounds x f) (hdecimal : IsDecimal 15 x)
    (hrange : x = 0 ∨ 1 / 10 ^ 300 ≤ |x| ∧ |x| ≤ 10 ^ 300) :
    f.isFinite = true ∧ ∃ count, f.IsShortest count x := by
  obtain rfl | ⟨hlow, hhigh⟩ := hrange
  · obtain ⟨negative, rfl⟩ := hf.eq_ofRank_zero
    refine ⟨?_, 0, isShortest_zero negative⟩
    rw [ofRank, dif_pos (by decide)]
    rfl
  · have hfinite := hf.isFinite_of_abs_le hhigh
    obtain ⟨count, y, hshortest⟩ := exists_isShortest hfinite
    have hdecimal' := hshortest.isDecimal.mono (hshortest.fewest hf hdecimal)
    obtain rfl := hf.eq_of_isDecimal hshortest.rounds hfinite hdecimal hdecimal'
      (hf.normal_of_le_abs hf hfinite hlow) (hf.normal_of_le_abs hshortest.rounds hfinite hlow)
    exact ⟨hfinite, count, hshortest⟩

end Double

end Coercion
