import Coercion.Proofs.Number.Expansions
import Coercion.Reporting.Numbers

namespace Coercion

open Text

namespace Money

/-- Digits that are added to a sum only make it greater, so a word that holds the result holds
every sum on the way to it. -/
theorem foldlM_digits (t : Text) (sum : Nat)
    (h : (Nat.ofDigitChars 10 t sum : Int) ≤ greatestWord) :
    t.foldlM (fun (sum : Int) c =>
      let next := sum * 10 + (c.toNat - '0'.toNat : Nat)
      if fitsWord next then some next else none) (sum : Int) =
    some (Nat.ofDigitChars 10 t sum : Int) := by
  induction t generalizing sum with
  | nil => rfl
  | cons c t ih =>
    rw [Nat.ofDigitChars_cons] at h ⊢
    obtain ⟨next, hnext⟩ : ∃ next, next = 10 * sum + (c.toNat - '0'.toNat) := ⟨_, rfl⟩
    have hgrow : next ≤ Nat.ofDigitChars 10 t next := by
      rw [Nat.ofDigitChars_eq_ofDigitChars_zero]
      have : 0 < 10 ^ t.length := by positivity
      nlinarith
    have hsum : (sum : Int) * 10 + (c.toNat - '0'.toNat : Nat) = (next : Int) := by
      rw [hnext]
      push_cast
      ring
    rw [← hnext] at h ⊢
    have hfits : fitsWord next = true := by
      simp only [fitsWord, Bool.and_eq_true, decide_eq_true_eq]
      unfold leastWord
      omega
    rw [List.foldlM_cons]
    dsimp only
    rw [hsum, if_pos hfits]
    exact ih next h

theorem accumulate?_eq {digits : Text} (hfits : (toNat digits : Int) ≤ greatestWord) :
    accumulate? digits = some (toNat digits : Int) :=
  foldlM_digits digits 0 hfits

theorem digitsTo_two (e : Expansion) :
    e.digitsTo 2 = e.whole ++ (e.fraction ++ ['0', '0']).take 2 := by
  unfold Expansion.digitsTo
  match e.fraction with
  | [] => rfl
  | [a] => rfl
  | a :: b :: t => simp

theorem abs_cents (x : ℚ) : |halfAway (100 * x)| = ⌊|x| * 10 ^ 2 + 1 / 2⌋₊ := by
  rw [abs_halfAway, abs_mul, abs_of_pos (by norm_num), mul_comm]
  norm_num

theorem centsOf?_eq {e : Expansion} {x : ℚ} (h : e.Expands x)
    (hfits : |halfAway (100 * x)| ≤ greatestWord) : centsOf? e = some (halfAway (100 * x)) := by
  have hround : halfAway (100 * x) = Double.signed e.negative ⌊|x| * 10 ^ 2 + 1 / 2⌋₊ := by
    rw [← halfAway_factor_mul e.negative (by positivity), ← mul_assoc, ← h.eq_factor_mul]
    congr 1
    ring
  have hfloor := h.floor_abs_mul_pow_add_half 2
  have hword : (toNat (e.digitsTo 2) : Int) ≤ greatestWord := by
    rw [abs_cents, hfloor] at hfits
    omega
  rw [hround, hfloor, centsOf?, ← digitsTo_two, accumulate?_eq hword, Option.map_some]
  dsimp only
  unfold Double.signed
  split_ifs
  all_goals push_cast; rfl

def limitRank : Fin Layout.double.count := ⟨4786511204640096174, by decide⟩

theorem greatest_toDouble : greatest.toDouble = .finite false limitRank := by
  decide +kernel

theorem least_toDouble : least.toDouble = .finite true limitRank := by
  decide +kernel

theorem limit_rounds : Double.Rounds 999999999999.99 (.finite false limitRank) := by
  have hone : (|(999999999999.99 : ℚ)| * Double.one : ℚ) =
      (99999999999999 * Double.one : ℕ) / (100 : ℕ) := by
    rw [abs_of_pos (by norm_num)]
    push_cast
    ring
  rw [Double.rounds_finite_iff, hone]
  refine ⟨?_, fun h => absurd h (by norm_num), fun _ => rfl⟩
  rw [Layout.isNearest_iff_isBetween (by positivity), Layout.isBetween_div_iff (by decide)]
  decide +kernel

theorem within_limit_iff {f : Double} (h : f.isFinite = true) :
    (Double.le least.toDouble f && Double.le f greatest.toDouble) = true ↔
      |f.toRat| ≤ (Double.finite false limitRank).toRat := by
  obtain ⟨negative, rank, rfl⟩ := Double.exists_finite_of_isFinite h
  have hneg : (Double.finite true limitRank).toRat = -(Double.finite false limitRank).toRat := by
    rw [Double.toRat_finite, Double.toRat_finite, Double.factor_true, Double.factor_false,
      neg_one_mul, one_mul]
  rw [greatest_toDouble, least_toDouble, Bool.and_eq_true, Double.le_finite_iff,
    Double.le_finite_iff, hneg, abs_le]

theorem ite_within_limit {α : Type} {f : Double} (h : f.isFinite = true) (refused kept : α) :
    (if !(Double.le least.toDouble f && Double.le f greatest.toDouble) then refused else kept) =
      if |f.toRat| ≤ (Double.finite false limitRank).toRat then kept else refused := by
  have hwithin := within_limit_iff h
  by_cases hle : |f.toRat| ≤ (Double.finite false limitRank).toRat
  · rw [hwithin.mpr hle, if_pos hle]
    rfl
  · rw [Bool.eq_false_iff.mpr (mt hwithin.mp hle), if_neg hle]
    rfl

/-- A number that is rounded to no more than the limit is less than a half cent past the greatest
amount. -/
theorem abs_cents_le {x : ℚ} {f : Double} (hf : Double.Rounds x f) (hfinite : f.isFinite = true)
    (h : |f.toRat| ≤ (Double.finite false limitRank).toRat) :
    |halfAway (100 * x)| ≤ 99999999999999 := by
  obtain ⟨negative, rank, rfl⟩ := Double.exists_finite_of_isFinite hfinite
  have hrank : rank ≤ limitRank := by
    rw [Double.abs_toRat_finite, Double.toRat_finite, Double.factor_false, one_mul,
      div_le_div_iff_of_pos_right Double.one_cast_pos] at h
    exact Double.magnitude_le_iff.mp (by exact_mod_cast h)
  have hnearest := (Double.rounds_finite_iff.mp hf).1
  rw [Layout.isNearest_iff_isBetween (by positivity)] at hnearest
  have hmono := Layout.double.units_strictMono.monotone
  have hupper : 100 * (Layout.double.units rank + Layout.double.units (rank + 1)) <
      (2 * 99999999999999 + 1) * Double.one := by
    calc 100 * (Layout.double.units rank + Layout.double.units (rank + 1))
      _ ≤ 100 * (Layout.double.units limitRank + Layout.double.units (limitRank + 1)) :=
        Nat.mul_le_mul_left _ (Nat.add_le_add (hmono hrank) (hmono (Nat.succ_le_succ hrank)))
      _ < (2 * 99999999999999 + 1) * Double.one := by decide +kernel
  have hupper' : 100 * (Layout.double.units rank + Layout.double.units (rank + 1) : ℚ) <
      (2 * 99999999999999 + 1) * Double.one := by
    exact_mod_cast hupper
  have hlt : |x| * 10 ^ 2 + 1 / 2 < 99999999999999 + 1 := by
    have hscaled : 200 * |x| * Double.one < (2 * 99999999999999 + 1) * Double.one := by
      have := hnearest.2.1
      linarith
    have := lt_of_mul_lt_mul_right hscaled Double.one_cast_pos.le
    linarith
  have hfloor : ⌊|x| * 10 ^ 2 + 1 / 2⌋₊ < 99999999999999 + 1 := by
    rw [Nat.floor_lt (by positivity)]
    exact_mod_cast hlt
  rw [abs_cents]
  omega

theorem bind_ofCents?_of_expands {e : Expansion} {x : ℚ} {f : Double} (hexpands : e.Expands x)
    (hf : Double.Rounds x f) (hfinite : f.isFinite = true)
    (h : |f.toRat| ≤ (Double.finite false limitRank).toRat) :
    (centsOf? e).bind ofCents? =
      some ⟨halfAway (100 * x), abs_le.mp (abs_cents_le hf hfinite h)⟩ := by
  have hcents := abs_cents_le hf hfinite h
  rw [centsOf?_eq hexpands (hcents.trans (by decide)), Option.bind_some, ofCents?,
    dif_pos (abs_le.mp hcents)]

section

variable {t : Text} {w : WrittenNumber} (ht : trim (strip t) = w.text)
  (hexponent : |w.exponent| ≤ 400) {f : Double} (hf : Double.Rounds w.value f)
  (hfinite : f.isFinite = true)

include ht hexponent hf hfinite

theorem bind_ofCents? (h : |f.toRat| ≤ (Double.finite false limitRank).toRat) (x : Double) :
    (centsOf? (.ofRaw (.text (strip t)) x)).bind ofCents? =
      some ⟨halfAway (100 * w.value), abs_le.mp (abs_cents_le hf hfinite h)⟩ :=
  bind_ofCents?_of_expands (Expansion.ofRaw_text_expands ht hexponent x) hf hfinite h

theorem coerce_text : coerce (.text t) =
    if h : |f.toRat| ≤ (Double.finite false limitRank).toRat then
      .ok ⟨halfAway (100 * w.value), abs_le.mp (abs_cents_le hf hfinite h)⟩
    else .error .moneyOverflow := by
  obtain ⟨hsame, hvalue⟩ := w.rounds.same_value hf
  unfold coerce
  dsimp only
  rw [Raw.finite_text ht hf hfinite]
  dsimp only
  rw [ite_within_limit (hsame.trans hfinite), hvalue]
  split_ifs with h
  · rw [bind_ofCents? ht hexponent hf hfinite h]
  · rfl

end

end Money

/-- A text that writes a finite number is refused as an amount exactly if its double is past the one
nearest to the greatest amount. Otherwise it is rounded to cents from all of its digits, and
neither adding them up nor the range of the cents refuses it. -/
theorem toMoney_text {t : Text} {w : WrittenNumber} (ht : trim (Money.strip t) = w.text)
    (hexponent : |w.exponent| ≤ 400) {f limit : Double} (hf : Double.Rounds w.value f)
    (hfinite : f.isFinite = true) (hlimit : Double.Rounds 999999999999.99 limit) :
    ((Numbers.toMoney (.text t)).result = .error .moneyOverflow ↔ |limit.toRat| < |f.toRat|) ∧
    (|f.toRat| ≤ |limit.toRat| → ∃ m, (Numbers.toMoney (.text t)).result = .ok m ∧
      m.cents = halfAway (100 * w.value) ∧
      Money.least.cents ≤ m.cents ∧ m.cents ≤ Money.greatest.cents ∧
      (Money.centsOf? (.ofRaw (.text (Money.strip t)) f)).bind Money.ofCents? = some m) := by
  have hlimit' : |limit.toRat| = (Double.finite false Money.limitRank).toRat := by
    rw [(hlimit.same_value Money.limit_rounds).2, Double.abs_toRat_finite, Double.toRat_finite,
      Double.factor_false, one_mul]
  have hresult := Money.coerce_text ht hexponent hf hfinite
  rw [Numbers.toMoney, Report.result_reported, Report.result_ofExcept, hlimit', hresult, ← not_le]
  constructor
  · split_ifs with h
    · exact iff_of_false (fun h => nomatch h) (not_not.mpr h)
    · exact iff_of_true rfl h
  · intro h
    have hrange := abs_le.mp (Money.abs_cents_le hf hfinite h)
    exact ⟨⟨halfAway (100 * w.value), hrange⟩, by rw [dif_pos h, Ending.ofExcept_ok], rfl,
      hrange.1, hrange.2, Money.bind_ofCents? ht hexponent hf hfinite h f⟩

theorem toMoney_text_separated : ∃ w : WrittenNumber,
    trim (Money.strip " $1,234.565".toList) = w.text ∧ |w.exponent| ≤ 400 ∧
    Double.Rounds w.value w.literal.toDouble ∧ w.literal.toDouble.isFinite = true ∧
    Double.Rounds 999999999999.99 Money.greatest.toDouble ∧
    (Numbers.toMoney (.text " $1,234.565".toList)).result = .ok ⟨123457, by decide⟩ ∧
    halfAway (100 * w.value) = 123457 := by
  obtain ⟨w, hw⟩ : ∃ w : WrittenNumber, w = ⟨.none, "1234".toList, some "565".toList, none,
    isNumber_of_isNumeral rfl, fun _ h => Option.some.inj h ▸ isNumber_of_isNumeral rfl,
    .inl (by decide)⟩ := ⟨_, rfl⟩
  have htext : trim (Money.strip " $1,234.565".toList) = w.text := by
    subst hw
    decide
  have hexponent : |w.exponent| ≤ 400 := by
    subst hw
    decide
  have hfinite : w.literal.toDouble.isFinite = true := by
    subst hw
    decide +kernel
  have hlimit : Double.Rounds 999999999999.99 Money.greatest.toDouble := by
    rw [Money.greatest_toDouble]
    exact Money.limit_rounds
  have hresult : (Numbers.toMoney (.text " $1,234.565".toList)).result =
      .ok ⟨123457, by decide⟩ := by
    decide +kernel
  obtain ⟨hover, hcents⟩ := toMoney_text htext hexponent w.rounds hfinite hlimit
  have hle : |w.literal.toDouble.toRat| ≤ |Money.greatest.toDouble.toRat| := by
    rw [← not_lt, ← hover, hresult]
    exact fun h => nomatch h
  obtain ⟨m, hm, heq, -⟩ := hcents hle
  obtain rfl := Ending.ok.inj (hresult.symm.trans hm)
  exact ⟨w, htext, hexponent, w.rounds, hfinite, hlimit, hresult, heq.symm⟩

end Coercion
