import Coercion.Proofs.Double.Errors
import Mathlib.Data.Nat.Cast.Field

namespace Coercion

/-- A magnitude of so many steps lies on a grid of such steps. -/
theorem Layout.two_pow_dvd_units {l : Layout} {rank k : Nat}
    (h : 2 * l.perExponent * 2 ^ k ≤ l.units rank) : 2 ^ k ∣ l.units rank := by
  obtain ⟨shift, m, -, hm, -, hunits, -⟩ := l.exists_shift rank
  rw [hunits] at h ⊢
  have hlt : 2 ^ k < 2 ^ shift := by
    have hmul : m * 2 ^ shift < 2 * l.perExponent * 2 ^ shift :=
      Nat.mul_lt_mul_of_pos_right hm (by positivity)
    exact lt_of_mul_lt_mul_left (h.trans_lt hmul) (Nat.zero_le _)
  have hle : k ≤ shift := ((Nat.pow_lt_pow_iff_right (by decide)).mp hlt).le
  exact Dvd.dvd.mul_left (pow_dvd_pow 2 hle) m

namespace Double

theorem natAbs_signed (negative : Bool) (n : Nat) : (signed negative n).natAbs = n := by
  cases negative
  · exact Int.natAbs_natCast n
  · exact (Int.natAbs_neg n).trans (Int.natAbs_natCast n)

theorem toRat_trunc {x : Double} (hx : x.isFinite = true) :
    x.trunc.isFinite = true ∧ x.trunc.toRat = towardZero x.toRat := by
  have hrounds := trunc_rounds hx
  have hint := toInt_eq hx
  obtain ⟨negative, rank, rfl⟩ := exists_finite_of_isFinite hx
  obtain hlt | hge := Nat.lt_or_ge (magnitude rank / one) 9007199254740992
  · have hnat : (towardZero (finite negative rank).toRat).natAbs = magnitude rank / one := by
      rw [← hint, toInt, natAbs_signed]
    exact hrounds.of_integer (hnat ▸ hlt)
  · have hwhole : one ∣ magnitude rank := by
      have hper : 2 * Layout.double.perExponent = 9007199254740992 := by decide
      have hsteps : 2 * Layout.double.perExponent * 2 ^ Layout.double.unitBits ≤
          Layout.double.units rank := by
        rw [hper, ← one_eq]
        exact (Nat.le_div_iff_mul_le one_pos).mp hge
      rw [one_eq]
      exact Layout.two_pow_dvd_units hsteps
    have hvalue : (finite negative rank).toRat = towardZero (finite negative rank).toRat := by
      rw [← hint, toInt, signed_cast, toRat_finite, Nat.cast_div hwhole one_cast_pos.ne']
    rw [← hvalue] at hrounds ⊢
    exact hrounds.same_value (rounds_toRat hx)

end Double

end Coercion
