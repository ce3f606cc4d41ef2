import Coercion.Proofs.Reading.IntervalTexts

namespace Coercion

open Calendar Text IntervalText

/-- A quantity of an interval text: an integer, perhaps behind a minus sign, and a spelling of a
unit in any letter case. -/
structure WrittenQuantity where
  negative : Bool
  digits : Text
  unit : TimeUnit
  name : Text
  digits_ne_nil : digits ≠ []
  digits_isNumber : IsNumber digits
  measuresIntervals : unit.measuresIntervals = true
  spells : unit.Spells name

namespace WrittenQuantity

variable (q : WrittenQuantity)

def count : ℤ := Double.signed q.negative (toNat q.digits)

def millis : ℤ := q.count * q.unit.millis?.getD 0

def pair : Text × Text := (sign q.negative ++ q.digits, q.name)

/-- Quantities with single spaces between all their tokens. -/
def textOf (qs : List WrittenQuantity) : Text :=
  List.intercalate [' '] (tokensOf (qs.map pair))

def number : WrittenNumber where
  sign := .ofNegative q.negative
  whole := q.digits
  pointed := none
  power := none
  whole_isNumber := q.digits_isNumber
  pointed_isNumber := by simp
  digits_ne_nil := .inl q.digits_ne_nil

theorem text_number : q.number.text = q.pair.1 := by
  simp [number, pair, WrittenNumber.text, WrittenNumber.unsignedText, WrittenNumber.afterWhole,
    WrittenNumber.powerText]

theorem value_number : q.number.value = q.count := by
  rw [WrittenNumber.value, count, Double.signed_cast]
  simp [number, WrittenNumber.fraction, WrittenNumber.exponent]

theorem numberOf_pair (h : |q.millis| ≤ maxInstant) :
    (numberOf q.pair.1).isFinite = true ∧ (numberOf q.pair.1).toRat = q.count := by
  obtain ⟨length, hlength, hlow, -⟩ := TimeUnit.exists_millis q.measuresIntervals
  have hcount : q.count.natAbs < 9007199254740992 := by
    have hle : |q.count| * 1 ≤ |q.count| * length :=
      mul_le_mul_of_nonneg_left (by omega) (abs_nonneg _)
    have hmax : maxInstant = 8640000000000000 := rfl
    rw [millis, hlength, Option.getD_some, abs_mul, abs_of_pos (by omega : 0 < length)] at h
    obtain ⟨hlow', hhigh'⟩ := abs_le.mp ((mul_one |q.count|).symm.le.trans (hle.trans h))
    omega
  have hrounds := q.number.rounds
  rw [value_number] at hrounds
  rw [← text_number, WrittenNumber.numberOf_text]
  exact hrounds.of_integer hcount

theorem isSolid_pair : IsSolid q.pair.1 ∧ IsSolid q.pair.2 := by
  rw [← text_number]
  exact ⟨q.number.isSolid_text, q.spells.isSolid q.measuresIntervals⟩

theorem add_pair {total : Total} {sum : ℤ} (htotal : total.millis.isFinite = true)
    (hsum : total.millis.toRat = sum) (hbound : |sum| + |q.millis| ≤ maxInstant) :
    ∃ x : Double, total.add q.pair = .ok ⟨x, total.finest.finer q.unit⟩ ∧ x.isFinite = true ∧
      x.toRat = (sum + q.millis : ℤ) := by
  have hmax : maxInstant = 8640000000000000 := rfl
  have hmillis : |q.millis| ≤ maxInstant := by linarith [abs_nonneg sum]
  obtain ⟨length, hlength, hlow, hhigh⟩ := TimeUnit.exists_millis q.measuresIntervals
  obtain ⟨hfinite, hcount⟩ := q.numberOf_pair hmillis
  have hcolon : ':' ∉ q.pair.1 := by
    rw [← text_number]
    exact q.number.colon_not_mem_text
  have hproduct : q.millis = q.count * length := by rw [millis, hlength, Option.getD_some]
  have hsmall (n : ℤ) (hn : |n| ≤ maxInstant) : n.natAbs < 9007199254740992 := by
    obtain ⟨hneg, hpos⟩ := abs_le.mp hn
    omega
  have hmul := Double.mul_rounds hfinite (Double.isFinite_ofInt (n := length) (by omega))
  rw [hcount, Double.toRat_ofInt (by omega), ← Int.cast_mul, ← hproduct] at hmul
  obtain ⟨hmulFinite, hmulValue⟩ := hmul.of_integer (hsmall _ hmillis)
  have hadd := Double.add_rounds htotal hmulFinite
  rw [hsum, hmulValue, ← Int.cast_add] at hadd
  obtain ⟨haddFinite, haddValue⟩ :=
    hadd.of_integer (hsmall _ ((abs_add_le _ _).trans hbound))
  exact ⟨_, total.add_of_isFinite q.spells q.measuresIntervals hlength hcolon hfinite, haddFinite,
    haddValue⟩

theorem foldlM_pairs (qs : List WrittenQuantity) (total : Total) {sum : ℤ}
    (htotal : total.millis.isFinite = true) (hsum : total.millis.toRat = sum)
    (hbound : |sum| + (qs.map fun q => |q.millis|).sum ≤ maxInstant) :
    ∃ x : Double, (qs.map pair).foldlM Total.add total =
        .ok ⟨x, TimeUnit.finest total.finest (qs.map unit)⟩ ∧ x.isFinite = true ∧
      x.toRat = (sum + (qs.map millis).sum : ℤ) := by
  induction qs generalizing total sum with
  | nil => exact ⟨total.millis, rfl, htotal, by simpa using hsum⟩
  | cons q qs ih =>
    rw [List.map_cons, List.sum_cons] at hbound
    have hrest : 0 ≤ (qs.map fun q => |q.millis|).sum :=
      List.sum_nonneg (by simp)
    obtain ⟨x, hadd, hx, hvalue⟩ := q.add_pair htotal hsum (by linarith)
    have hnext := abs_add_le sum q.millis
    obtain ⟨y, hfold, hy, hvalue'⟩ :=
      ih ⟨x, total.finest.finer q.unit⟩ hx hvalue (by linarith)
    refine ⟨y, ?_, hy, by rw [hvalue', List.map_cons, List.sum_cons, add_assoc]⟩
    rw [List.map_cons, List.foldlM_cons, hadd]
    exact hfold

theorem result_toDate_textOf (c : Context) {qs : List WrittenQuantity} (hne : qs ≠ [])
    (hbound : (qs.map fun q => |q.millis|).sum ≤ maxInstant) :
    (Dates.toDate c (.text (textOf qs))).result =
      .ok (.interval ⟨(qs.map millis).sum, TimeUnit.finest .year (qs.map unit)⟩) := by
  have hzero := (Double.rounds_ofInt 0).of_integer (by decide)
  obtain ⟨x, hfold, hx, hvalue⟩ := foldlM_pairs qs ⟨.zero, .year⟩ hzero.1 hzero.2 (by
    simpa using hbound)
  rw [zero_add] at hvalue
  have htrunc : towardZero x.toRat = (qs.map millis).sum := by
    rw [hvalue, towardZero_intCast]
  have hrange : |(qs.map millis).sum| ≤ maxInstant := by
    have hsum := List.le_sum_of_subadditive (fun n : ℤ => |n|) abs_zero.le abs_add_le
      (qs.map millis)
    rw [List.map_map] at hsum
    exact hsum.trans hbound
  have hread := read_of_total hx hfold (by rwa [htrunc])
  have hpairs : ∀ p ∈ qs.map pair, (IsSolid p.1 ∧ IsSolid p.2) ∧ (unit? p.2).isSome = true := by
    intro p hp
    obtain ⟨q, -, rfl⟩ := List.mem_map.mp hp
    refine ⟨q.isSolid_pair, ?_⟩
    rw [pair, unit?_of_spells q.spells q.measuresIntervals]
    rfl
  rw [textOf, result_toDate_tokensOf c (by simpa using hne) (fun p hp => (hpairs p hp).1)
    fun p hp => (hpairs p hp).2, hread, htrunc, Ending.ofExcept_ok]

end WrittenQuantity

/-- Integers of units are summed exactly into an interval of the finest of the units, in any
order. -/
theorem toDate_quantities (c : Context) {qs : List WrittenQuantity} (hne : qs ≠ [])
    (hbound : (qs.map fun q => |q.millis|).sum ≤ maxInstant) :
    ∃ u, (∃ q ∈ qs, q.unit = u) ∧ (∀ q ∈ qs, u.rank ≤ q.unit.rank) ∧
      ∀ ps : List WrittenQuantity, ps.Perm qs →
        (Dates.toDate c (.text (WrittenQuantity.textOf ps))).result =
          .ok (.interval ⟨(qs.map WrittenQuantity.millis).sum, u⟩) := by
  refine ⟨TimeUnit.finest .year (qs.map WrittenQuantity.unit), ?_, fun q hq => ?_, fun ps hps => ?_⟩
  · have hunits : qs.map WrittenQuantity.unit ≠ [] := by simpa using hne
    exact List.mem_map.mp (TimeUnit.finest_year_mem hunits)
  · exact TimeUnit.rank_finest_le .year _ _ (.tail _ (List.mem_map_of_mem hq))
  · have hne' : ps ≠ [] := by
      rintro rfl
      exact hne hps.nil_eq.symm
    have hbound' : (ps.map fun q => |q.millis|).sum ≤ maxInstant := by
      rwa [(hps.map _).sum_eq]
    rw [WrittenQuantity.result_toDate_textOf c hne' hbound', (hps.map _).sum_eq,
      TimeUnit.finest_perm _ (hps.map _)]

theorem toDate_quantities_hour_less_minutes :
    (Dates.toDate ⟨.fixed .utc, .fixed 0⟩ (.text "2 Hours -090 MIN".toList)).result =
        .ok (.interval ⟨1800000, .minute⟩) ∧
      (Dates.toDate ⟨.fixed .utc, .fixed 0⟩ (.text "-090 MIN 2 Hours".toList)).result =
        .ok (.interval ⟨1800000, .minute⟩) := by
  obtain ⟨hours, hhours⟩ : ∃ q : WrittenQuantity, q = ⟨false, ['2'], .hour, "Hours".toList,
    by decide, isNumber_of_isNumeral rfl, rfl, "hours", by decide, rfl⟩ := ⟨_, rfl⟩
  obtain ⟨minutes, hminutes⟩ : ∃ q : WrittenQuantity, q = ⟨true, "090".toList, .minute,
    "MIN".toList, by decide, isNumber_of_isNumeral rfl, rfl, "min", by decide, rfl⟩ := ⟨_, rfl⟩
  have hbound : ([hours, minutes].map fun q => |q.millis|).sum ≤ maxInstant := by
    subst hhours hminutes
    decide
  have hsum : ([hours, minutes].map WrittenQuantity.millis).sum = 1800000 := by
    subst hhours hminutes
    decide
  obtain ⟨u, ⟨q, hq, hu⟩, hfinest, hresult⟩ :=
    toDate_quantities ⟨.fixed .utc, .fixed 0⟩ (by simp) hbound
  have hminute : u = .minute := by
    have hle := hfinest minutes (by simp)
    obtain rfl | rfl : q = hours ∨ q = minutes := by simpa using hq
    · subst hu hhours hminutes
      exact absurd hle (by decide)
    · rw [← hu, hminutes]
  rw [hsum, hminute] at hresult
  have htwo := hresult [hours, minutes] (.refl _)
  have htwo' := hresult [minutes, hours] (.swap _ _ _)
  subst hhours hminutes
  exact ⟨htwo, htwo'⟩

end Coercion
