import Coercion.Proofs.Reading.Times
import Coercion.Time.Temporal

namespace Coercion

open Text

namespace Temporal

theorem yearText_of_fourDigits {year : Int} (h : 0 ≤ year ∧ year ≤ 9999) :
    yearText year = ofNatPadded 4 year.natAbs := by
  rw [yearText, if_pos (by simpa using h)]

theorem yearText_of_signed {year : Int} (h : ¬(0 ≤ year ∧ year ≤ 9999)) :
    ∃ sign, (sign = '+' ∨ sign = '-') ∧ yearText year = sign :: ofNatPadded 6 year.natAbs := by
  rw [yearText, if_neg (by simpa using h)]
  split_ifs
  · exact ⟨'-', .inr rfl, rfl⟩
  · exact ⟨'+', .inl rfl, rfl⟩

theorem yearText_cases {year : Int} (h : year.natAbs < 1000000) :
    IsDigits 4 (yearText year) ∧ (toNat (yearText year) : Int) = year ∨
      ∃ sign digits, (sign = '+' ∨ sign = '-') ∧ yearText year = sign :: digits ∧
        IsDigits 6 digits := by
  by_cases hyear : 0 ≤ year ∧ year ≤ 9999
  · rw [yearText_of_fourDigits hyear, toNat_ofNatPadded]
    exact .inl ⟨isDigits_ofNatPadded (by decide) (by omega), by omega⟩
  · obtain ⟨sign, hsign, hdigits⟩ := yearText_of_signed hyear
    exact .inr ⟨sign, _, hsign, hdigits, isDigits_ofNatPadded (by decide) h⟩

theorem mem_yearText {year : Int} {x : Char} (hx : x ∈ yearText year) :
    x.isDigit = true ∨ x = '+' ∨ x = '-' := by
  by_cases hyear : 0 ≤ year ∧ year ≤ 9999
  · rw [yearText_of_fourDigits hyear] at hx
    exact .inl (isNumber_ofNatPadded 4 _ x hx)
  · obtain ⟨sign, hsign, hdigits⟩ := yearText_of_signed hyear
    rw [hdigits] at hx
    obtain rfl | hx := List.mem_cons.mp hx
    · exact .inr hsign
    · exact .inl (isNumber_ofNatPadded 6 _ x hx)

theorem dateText_eq (c : Civil) : dateText c =
    yearText c.year ++ '-' :: (ofNatPadded 2 c.month ++ '-' :: ofNatPadded 2 c.day) := by
  simp [dateText]

end Temporal

namespace Iso

theorem year?_of_isDigits {a : Text} (ha : IsDigits 4 a) (t : Text) :
    year? (a ++ t) = some ((toNat a : Int), t) := by
  have hdigits := fixedDigits?_append ha t
  obtain ⟨c, u, rfl⟩ := List.exists_cons_of_ne_nil ha.ne_nil
  have hc := ha.isNumber c (by simp)
  unfold year?
  split
  · simp_all
  · simp_all
  · rw [hdigits]
    rfl

/-- A year of four digits, or of six digits behind a sign. -/
theorem year?_yearText {year : Int} (h : year.natAbs < 1000000) (t : Text) :
    year? (Temporal.yearText year ++ t) = some (year, t) := by
  have hsix := fixedDigits?_ofNatPadded (k := 6) (by decide) h t
  unfold Temporal.yearText
  split_ifs with hfour hneg
  · simp only [Bool.and_eq_true, decide_eq_true_eq] at hfour
    rw [year?_of_isDigits (isDigits_ofNatPadded (by decide) (by omega)), toNat_ofNatPadded]
    congr 2
    omega
  · simp only [List.cons_append, year?, hsix, Option.map_some, Option.some.injEq, Prod.mk.injEq,
      and_true]
    omega
  · simp only [Bool.and_eq_true, decide_eq_true_eq] at hfour
    simp only [List.cons_append, year?, hsix, Option.map_some, Option.some.injEq, Prod.mk.injEq,
      and_true]
    omega

theorem read?_of_fewDigits {p t : Text} {s : Char} (hp : IsNumber p) (hne : p ≠ [])
    (hlen : p.length < 4) (hs : s.isDigit = false) : read? (p ++ s :: t) = none := by
  have hmem : s ∈ (p ++ s :: t).take 4 := by
    obtain ⟨k, hk⟩ : ∃ k, 4 - p.length = k + 1 := ⟨3 - p.length, by omega⟩
    rw [List.take_append, hk, List.take_succ_cons]
    simp
  have hdigits : fixedDigits? 4 (p ++ s :: t) = none := by
    rw [fixedDigits?, if_neg]
    rintro ⟨-, hall⟩
    simp [List.all_eq_true.mp hall s hmem] at hs
  obtain ⟨c, u, rfl⟩ := List.exists_cons_of_ne_nil hne
  have hc := hp c (by simp)
  have hyear : year? (c :: u ++ s :: t) = none := by
    unfold year?
    split
    · simp_all
    · simp_all
    · rw [hdigits]
      rfl
  rw [read?, hyear]
  rfl

theorem read?_of_isAlpha {c : Char} (hc : c.isAlpha = true) (t : Text) : read? (c :: t) = none := by
  have hdigit : c.isDigit = false := by
    by_contra h
    simp [not_isAlpha_of_isDigit (by simpa using h)] at hc
  have hyear : year? (c :: t) = none := by
    unfold year?
    split
    · simp_all
    · simp_all
    · simp [fixedDigits?, hdigit]
  rw [read?, hyear]
  rfl

/-- A date with a time behind it states the offset that stands at its end. -/
theorem read?_written {yearText month day t : Text} {year : Int} {w : WrittenTime} {mark : Char}
    (hyear : ∀ u, year? (yearText ++ u) = some (year, u)) (hmonth : IsDigits 2 month)
    (hday : IsDigits 2 day) (hw : w.IsValid) (hmark : mark = 'T' ∨ mark = ' ')
    (hcolon : t.head? ≠ some ':') (hpoint : t.head? ≠ some '.') :
    read? (yearText ++ '-' :: (month ++ '-' :: (day ++ mark :: (w.text ++ t)))) =
      (offset? t).bind (WallReading.of? ⟨year, toNat month, toNat day⟩ w.dayTime) := by
  have hmark' : (mark == 'T' || mark == 't' || mark == ' ') = true := by
    obtain rfl | rfl := hmark <;> rfl
  simp only [read?, hyear, fixedDigits?_append hmonth, fixedDigits?_append hday,
    w.iso_time? hw hcolon hpoint, hmark', Option.bind_eq_bind, Option.bind_some, ↓reduceIte]

end Iso

end Coercion
