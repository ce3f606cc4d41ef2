import Coercion.Proofs.Double.Errors
import Coercion.Proofs.Number.DoubleTexts
import Coercion.Proofs.Reading.IntervalTexts
import Coercion.Time.Duration

namespace Coercion

open Calendar Text IntervalText

namespace Double

variable {n length : ℤ} {q p : Double} (hq : Rounds (n / length) q)
  (hp : Rounds (q.toRat * length) p)

include hq

theorem quantity_isFinite (hn : |n| ≤ maxInstant) (hlow : 1000 ≤ length) : q.isFinite = true := by
  have hmax : maxInstant = 8640000000000000 := rfl
  obtain ⟨hneg, hpos⟩ := abs_le.mp hn
  refine (hq.of_abs_le (rounds_ofInt n) (isFinite_ofInt (by omega)) ?_).1
  have hone : (1 : ℚ) ≤ length := by exact_mod_cast (by omega : 1 ≤ length)
  rw [abs_div, abs_of_pos (by linarith : (0 : ℚ) < length)]
  exact div_le_self (abs_nonneg _) hone

include hp

theorem quantity_of_dvd (hn : |n| ≤ maxInstant) (hlow : 1000 ≤ length) (hdvd : length ∣ n) :
    p.isFinite = true ∧ p.toRat = n := by
  have hmax : maxInstant = 8640000000000000 := rfl
  obtain ⟨hneg, hpos⟩ := abs_le.mp hn
  obtain ⟨k, rfl⟩ := hdvd
  have hlength : (length : ℚ) ≠ 0 := by exact_mod_cast (by omega : length ≠ 0)
  have hk : k.natAbs ≤ (length * k).natAbs := by
    rw [Int.natAbs_mul]
    exact Nat.le_mul_of_pos_left _ (by omega)
  rw [Int.cast_mul, mul_div_cancel_left₀ _ hlength] at hq
  rw [(hq.of_integer (by omega)).2, ← Int.cast_mul, mul_comm] at hp
  exact hp.of_integer (by omega)

theorem quantity_near (hn : |n| ≤ maxInstant) (hlow : 1000 ≤ length)
    (hhigh : length ≤ 31556952000) : p.isFinite = true ∧ |p.toRat - n| ≤ 1 := by
  have hmax : maxInstant = 8640000000000000 := rfl
  obtain ⟨hneg, hpos⟩ := abs_le.mp hn
  by_cases hzero : n = 0
  · obtain ⟨hfinite, hvalue⟩ := quantity_of_dvd hq hp hn hlow (hzero ▸ dvd_zero length)
    rw [hvalue, sub_self, abs_zero]
    exact ⟨hfinite, zero_le_one⟩
  have hlength : (0 : ℚ) < length := by exact_mod_cast (by omega : 0 < length)
  have hnormal : 1 / 2 ^ 1022 ≤ |(n / length : ℚ)| := by
    have hone : (1 : ℚ) ≤ |(n : ℚ)| := by exact_mod_cast Int.one_le_abs hzero
    have hlength' : (length : ℚ) ≤ 2 ^ 1022 := by
      calc (length : ℚ) ≤ 2 ^ 35 := by exact_mod_cast hhigh.trans (by norm_num)
        _ ≤ 2 ^ 1022 := pow_le_pow_right₀ one_le_two (by decide)
    rw [abs_div, abs_of_pos hlength]
    exact div_le_div₀ (abs_nonneg _) hone hlength hlength'
  have herror := hq.abs_sub_le (quantity_isFinite hq hn hlow) hnormal
  have hscaled : |q.toRat * length - n| * 2 ^ 53 ≤ |(n : ℚ)| := by
    have hproduct : |q.toRat * length - n| = |q.toRat - n / length| * length := by
      rw [← abs_of_pos hlength, ← abs_mul, abs_of_pos hlength, sub_mul,
        div_mul_cancel₀ _ hlength.ne']
    have hquotient : |(n / length : ℚ)| * length = |(n : ℚ)| := by
      rw [abs_div, abs_of_pos hlength, div_mul_cancel₀ _ hlength.ne']
    rw [hproduct, ← hquotient]
    linarith [mul_le_mul_of_nonneg_right herror hlength.le]
  have hbound : |(n : ℚ)| ≤ 2 ^ 53 := by
    exact_mod_cast hn.trans (by rw [hmax]; norm_num)
  exact hp.of_near_integer (by omega) (by linarith)

end Double

namespace TimeUnit

/-- The milliseconds of the longest durations do not leave the range when they are read back. -/
theorem quantity_maxInstant : ∀ u ∈ all, ∀ length ∈ u.millis?, ∀ n ∈ [maxInstant, -maxInstant],
    (((Double.ofInt n).div (.ofInt length)).mul (.ofInt length)).toInt.natAbs ≤
      maxInstant.natAbs := by
  decide +kernel

theorem quantity_inRange {u : TimeUnit} {length n : ℤ} (hlength : u.millis? = some length)
    (hn : |n| ≤ maxInstant) {p : Double}
    (hp : p = ((Double.ofInt n).div (.ofInt length)).mul (.ofInt length))
    (hfinite : p.isFinite = true) (hcut : |towardZero p.toRat - n| ≤ 1) :
    |towardZero p.toRat| ≤ maxInstant := by
  have hmax : maxInstant = 8640000000000000 := rfl
  obtain hlt | heq := hn.lt_or_eq
  · have hsplit := abs_sub_abs_le_abs_sub (towardZero p.toRat) n
    omega
  · -- One millisecond more would be too much here.
    have hextreme := quantity_maxInstant u (by cases u <;> decide) length hlength n
      (by simpa using eq_or_eq_neg_of_abs_eq heq)
    rw [← hp, Double.toInt_eq hfinite] at hextreme
    rw [hmax, abs_le]
    omega

end TimeUnit

theorem IntervalText.exists_total {u : TimeUnit} {name quantity : Text} {length : ℤ}
    (hname : u.Spells name) (hu : u.measuresIntervals = true) (hlength : u.millis? = some length)
    (hcolon : ':' ∉ quantity) (hfinite : (numberOf quantity).isFinite = true) {p : Double}
    (hp : Double.Rounds ((numberOf quantity).toRat * length) p) (hp' : p.isFinite = true) :
    ∃ total : Double, [(quantity, name)].foldlM Total.add ⟨.zero, .year⟩ = .ok ⟨total, u⟩ ∧
      total.isFinite = true ∧ total.toRat = p.toRat := by
  obtain ⟨length', hlength', hlow, hhigh⟩ := TimeUnit.exists_millis hu
  obtain rfl : length = length' := Option.some.inj (hlength.symm.trans hlength')
  have hmul := Double.mul_rounds hfinite (Double.isFinite_ofInt (n := length) (by omega))
  rw [Double.toRat_ofInt (by omega)] at hmul
  obtain ⟨hsame, hsame'⟩ := hmul.same_value hp
  have hproduct := hsame.trans hp'
  have hzero := (Double.rounds_ofInt 0).of_integer (by decide)
  have hadd := Double.add_rounds hzero.1 hproduct
  rw [hzero.2, Int.cast_zero, zero_add] at hadd
  obtain ⟨hsum, hsum'⟩ := hadd.same_value (Double.rounds_toRat hproduct)
  refine ⟨_, ?_, hsum.trans hproduct, hsum'.trans hsame'⟩
  rw [List.foldlM_cons, Total.add_of_isFinite hname hu hlength hcolon hfinite, TimeUnit.finer_year]
  rfl

namespace Duration

variable {d : Duration}

theorem text_eq {x : Double} (h : d.inUnit? d.unit = some x) :
    d.text = List.intercalate [' '] (tokensOf [(x.text, d.unit.plural.toList)]) := by
  rw [text, h]
  simp [tokensOf, List.intercalate]

theorem result_toDate_text (c : Context) (hu : d.unit.measuresIntervals = true) {length : ℤ}
    (hlength : d.unit.millis? = some length) {q p : Double} (hq : d.inUnit? d.unit = some q)
    (hfinite : q.isFinite = true) (hp : Double.Rounds (q.toRat * length) p)
    (hp' : p.isFinite = true) (hrange : |towardZero p.toRat| ≤ maxInstant) :
    (Dates.toDate c (.text d.text)).result = .ok (.interval ⟨towardZero p.toRat, d.unit⟩) := by
  obtain ⟨w, hw, hwrounds⟩ := Double.exists_text hfinite
  obtain ⟨hread, hvalue⟩ : (numberOf w.text).isFinite = true ∧
      (numberOf w.text).toRat = q.toRat := by
    obtain ⟨hsame, hsame'⟩ := w.rounds.same_value hwrounds
    rw [w.numberOf_text]
    exact ⟨hsame.trans hfinite, hsame'⟩
  have hspells := TimeUnit.spells_plural hu
  rw [← hvalue] at hp
  obtain ⟨total, htotal, htotal', hvalue'⟩ :=
    exists_total hspells hu hlength w.colon_not_mem_text hread hp hp'
  have hsolid : ∀ p ∈ [(w.text, d.unit.plural.toList)], IsSolid p.1 ∧ IsSolid p.2 := by
    simpa using ⟨w.isSolid_text, hspells.isSolid hu⟩
  have hunit : ∀ p ∈ [(w.text, d.unit.plural.toList)], (unit? p.2).isSome = true := by
    simp [unit?_of_spells hspells hu]
  rw [text_eq hq, ← hw, result_toDate_tokensOf c (List.cons_ne_nil _ _) hsolid hunit,
    read_of_total htotal' htotal (by rwa [hvalue']), hvalue', Ending.ofExcept_ok]

end Duration

/-- The text of a duration is read as a duration of the same unit that may be a millisecond longer
or shorter: its length is divided by that of the unit, multiplied back and cut, and each of the two
operations rounds. Whole numbers of a unit are kept. -/
theorem toDate_durationText (c : Context) {d : Duration} (hu : d.unit.measuresIntervals = true)
    (h : |d.millis| ≤ maxInstant) : ∃ (length : ℤ) (q p : Double),
      d.unit.millis? = some length ∧ Double.Rounds (d.millis / length) q ∧
      Double.Rounds (q.toRat * length) p ∧
      (Dates.toDate c (.text d.text)).result = .ok (.interval ⟨towardZero p.toRat, d.unit⟩) ∧
      |towardZero p.toRat - d.millis| ≤ 1 ∧
      (length ∣ d.millis → towardZero p.toRat = d.millis) := by
  have hmax : maxInstant = 8640000000000000 := rfl
  obtain ⟨hneg, hpos⟩ := abs_le.mp h
  obtain ⟨length, hlength, hlow, hhigh⟩ := TimeUnit.exists_millis hu
  have hfinite := Double.isFinite_ofInt (n := length) (by omega)
  have hvalue := Double.toRat_ofInt (n := length) (by omega)
  obtain ⟨q, hq⟩ : ∃ q, q = (Double.ofInt d.millis).div (.ofInt length) := ⟨_, rfl⟩
  obtain ⟨p, hp⟩ : ∃ p, p = q.mul (.ofInt length) := ⟨_, rfl⟩
  have hqrounds : Double.Rounds (d.millis / length) q := by
    have hdiv := Double.div_rounds (x := .ofInt d.millis) (Double.isFinite_ofInt (by omega)) hfinite
      (by rw [hvalue]; exact_mod_cast (by omega : length ≠ 0))
    rwa [hvalue, Double.toRat_ofInt (by omega), ← hq] at hdiv
  have hqfinite := Double.quantity_isFinite hqrounds h hlow
  have hprounds : Double.Rounds (q.toRat * length) p := by
    have hmul := Double.mul_rounds hqfinite hfinite
    rwa [hvalue, ← hp] at hmul
  obtain ⟨hpfinite, hnear⟩ := Double.quantity_near hqrounds hprounds h hlow hhigh
  have hcut := abs_towardZero_sub_le hnear
  have hrange := TimeUnit.quantity_inRange hlength h (hq ▸ hp) hpfinite hcut
  have hquantity : d.inUnit? d.unit = some q := by
    rw [Duration.inUnit?, TimeUnit.quantity?, hlength, hq, Option.map_some]
  refine ⟨length, q, p, hlength, hqrounds, hprounds,
    Duration.result_toDate_text c hu hlength hquantity hqfinite hprounds hpfinite hrange, hcut,
    fun hdvd => ?_⟩
  rw [(Double.quantity_of_dvd hqrounds hprounds h hlow hdvd).2, towardZero_intCast]

theorem toDate_durationText_hours :
    (Dates.toDate ⟨.fixed .utc, .fixed 0⟩ (.text (Duration.text ⟨-7200000, .hour⟩))).result =
      .ok (.interval ⟨-7200000, .hour⟩) := by
  obtain ⟨length, q, p, hlength, -, -, hresult, -, hdvd⟩ :=
    toDate_durationText ⟨.fixed .utc, .fixed 0⟩ (d := ⟨-7200000, .hour⟩) rfl (by decide)
  obtain rfl : (3600000 : ℤ) = length := Option.some.inj hlength
  rw [hresult, hdvd ⟨-2, by norm_num⟩]

theorem toDate_durationText_shorter : ¬ ∀ (c : Context) (d : Duration),
    d.unit.measuresIntervals = true → |d.millis| ≤ maxInstant →
    (Dates.toDate c (.text d.text)).result = .ok (.interval d) := by
  intro h
  have hsecond := h ⟨.fixed .utc, .fixed 0⟩ ⟨1001, .second⟩ rfl (by decide)
  exact absurd hsecond (by decide +kernel)

end Coercion
