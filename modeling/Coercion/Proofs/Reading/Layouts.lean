import Coercion.Proofs.Reading.Iso
import Coercion.Proofs.Reading.Loose
import Coercion.Proofs.Reading.Months
import Coercion.Reading.Instant

namespace Coercion

open Calendar Text

theorem wallReading?_of_parts {p q e : Text} {s : Char} {date : YearMonthDay} (hp : IsNumber p)
    (hne : p ≠ []) (hlen : p.length < 4) (hq : IsWord q) (he : IsWord e)
    (hs : s ∈ ['/', '-', '.']) (hdate : Loose.date? (p ++ s :: (q ++ s :: e)) = some date)
    {w : Option WrittenTime} (hw : ∀ v ∈ w, v.IsValid) :
    wallReading? (trim (p ++ s :: (q ++ s :: e) ++ WrittenTime.suffix w)) =
      WallReading.of? date (WrittenTime.suffixTime w) none := by
  have hmark : s ∈ ['-', '/', '.', '_'] ∧ s.isDigit = false := by
    simp only [List.mem_cons, List.not_mem_nil, or_false] at hs
    obtain rfl | rfl | rfl := hs <;> decide
  have hiso : Iso.read? (p ++ s :: (q ++ s :: e) ++ WrittenTime.suffix w) = none := by
    rw [List.append_assoc, List.cons_append]
    exact Iso.read?_of_fewDigits hp hne hlen hmark.2
  have hdateText : IsDateText (p ++ s :: (q ++ s :: e)) := by
    simp only [isDateText_append, isDateText_cons]
    exact ⟨hp.isWord.isDateText, .inr hmark.1, hq.isDateText, .inr hmark.1, he.isDateText⟩
  rw [WrittenTime.trim_append_suffix (by simp) hdateText, wallReading?, hiso,
    Loose.read?_of_parts (hp.startsWithDigit hne) hp.isWord hq he hs hdate hw]
  rfl

variable {year month day : Text} (hyear : IsDigits 4 year) (hmonth : IsDigits 2 month)
  (hday : IsDigits 2 day) {w : Option WrittenTime} (hw : ∀ v ∈ w, v.IsValid)

include hyear hday hw

theorem wallReading?_named {n : Text} {m : Nat} (hname : IsMonthName m n) :
    wallReading? (trim (day ++ '-' :: (n ++ '-' :: year) ++ WrittenTime.suffix w)) =
      WallReading.of? ⟨toNat year, m, toNat day⟩ (WrittenTime.suffixTime w) none := by
  have hdate := Loose.date?_of_parts hday.isNumber.isWord hname.isWord
    hyear.isNumber.isWord (s := '-') (by tauto)
  rw [hname.month?_eq, Loose.year?_of_isDigits hyear,
    Loose.number?_of_isDigits hday (by decide)] at hdate
  exact wallReading?_of_parts hday.isNumber hday.ne_nil (by rw [hday.length_eq]; decide)
    hname.isWord hyear.isNumber.isWord (by simp) hdate hw

include hmonth

theorem wallReading?_monthFirst {s : Char} (hs : s = '/' ∨ s = '-') :
    wallReading? (trim (month ++ s :: (day ++ s :: year) ++ WrittenTime.suffix w)) =
      WallReading.of? ⟨toNat year, toNat month, toNat day⟩ (WrittenTime.suffixTime w) none := by
  have hdate := Loose.date?_of_parts hmonth.isNumber.isWord hday.isNumber.isWord
    hyear.isNumber.isWord (s := s) (by tauto)
  rw [Loose.month?_of_isDigits hday, if_neg (by simp [hmonth.length_eq]),
    Loose.year?_of_isDigits hyear, Loose.number?_of_isDigits hmonth (by decide),
    Loose.number?_of_isDigits hday (by decide)] at hdate
  exact wallReading?_of_parts hmonth.isNumber hmonth.ne_nil (by rw [hmonth.length_eq]; decide)
    hday.isNumber.isWord hyear.isNumber.isWord (by simp; tauto) hdate hw

theorem Loose.read?_yearFirst {s : Char} (hs : s = '-' ∨ s = '.') :
    Loose.read? (year ++ s :: (month ++ s :: day) ++ WrittenTime.suffix w) =
      WallReading.of? ⟨toNat year, toNat month, toNat day⟩ (WrittenTime.suffixTime w) none := by
  have hdate := Loose.date?_yearFirst hyear hmonth hday (s := s) (by tauto)
  exact Loose.read?_of_parts hyear.startsWithDigit hyear.isNumber.isWord hmonth.isNumber.isWord
    hday.isNumber.isWord (by simp; tauto) hdate hw

theorem wallReading?_yearFirst :
    wallReading? (trim (year ++ '.' :: (month ++ '.' :: day) ++ WrittenTime.suffix w)) =
      WallReading.of? ⟨toNat year, toNat month, toNat day⟩ (WrittenTime.suffixTime w) none := by
  have hiso : Iso.read? (year ++ '.' :: (month ++ '.' :: day) ++ WrittenTime.suffix w) = none := by
    rw [List.append_assoc, List.cons_append, Iso.read?, Iso.year?_of_isDigits hyear]
    rfl
  have hdateText : IsDateText (year ++ '.' :: (month ++ '.' :: day)) := by
    simp [hday.isDateText, hmonth.isDateText, hyear.isDateText]
  rw [WrittenTime.trim_append_suffix (by simp) hdateText, wallReading?, hiso,
    Loose.read?_yearFirst hyear hmonth hday hw (.inr rfl)]
  rfl

omit hw in
/-- The loose reader takes a date and a time in one token for a time, which it is not. -/
theorem Loose.read?_joined (w : WrittenTime) :
    Loose.read? (year ++ '-' :: (month ++ '-' :: (day ++ 'T' :: w.text))) = none := by
  obtain ⟨a, ha⟩ : ∃ a, a = year ++ '-' :: (month ++ '-' :: (day ++ 'T' :: w.text)) := ⟨_, rfl⟩
  have hstart : StartsWithDigit a := ha ▸ hyear.startsWithDigit.append _
  have htokens : tokens a = [a] := by
    have hsep : ∀ c ∈ a, isSeparator c = false := by
      intro c hc
      have hdigit : c.isDigit = true ∨ c = '-' ∨ c = 'T' ∨ c = ':' := by
        have htime (h : c ∈ w.text) := WrittenTime.isDigit_of_mem h
        have hyear' := hyear.isNumber c
        have hmonth' := hmonth.isNumber c
        have hday' := hday.isNumber c
        rw [ha] at hc
        simp only [List.mem_append, List.mem_cons] at hc
        grind
      obtain hdigit | rfl | rfl | rfl := hdigit
      · exact isSeparator_of_isDigit hdigit
      all_goals rfl
    simpa [WrittenTime.suffix] using tokens_dated hstart hsep none
  have htime : Loose.time? a = none := by
    have hsplit : splitDigits a = (year, '-' :: (month ++ '-' :: (day ++ 'T' :: w.text))) := by
      rw [ha]
      exact splitDigits_append hyear.isNumber (by simp)
    have hhour : number? 2 year = none := by
      simp [number?, hyear.length_eq]
    simp [Loose.time?, hsplit, hhour]
  have hcolon : a.contains ':' = true := by
    have := w.contains_text
    rw [List.contains_iff_mem] at this ⊢
    simp [ha, this]
  have hadd : Fields.add? .empty a = none := by
    rw [Fields.add?_of_startsWithDigit hstart, if_pos hcolon, htime]
    rfl
  rw [← ha, read?, htokens]
  simp [hadd]

omit hw in
theorem wallReading?_iso {w : WrittenTime} (hw : w.IsValid) {mark : Char}
    (hmark : mark = 'T' ∨ mark = ' ') :
    wallReading? (trim (year ++ '-' :: (month ++ '-' :: (day ++ mark :: w.text)))) =
      WallReading.of? ⟨toNat year, toNat month, toNat day⟩ w.dayTime none := by
  have hiso := Iso.read?_written (t := []) (Iso.year?_of_isDigits hyear) hmonth hday hw hmark
    (by simp) (by simp)
  rw [List.append_nil] at hiso
  have hoffset : Iso.offset? [] = some none := rfl
  have htrim := w.trim_append (a := year ++ '-' :: (month ++ '-' :: (day ++ [mark]))) (by simp) (by
    obtain ⟨c, u, rfl, hc⟩ := hyear.startsWithDigit
    simpa using isBlank_of_isDigit hc)
  simp only [List.append_assoc, List.cons_append, List.nil_append] at htrim
  rw [htrim, wallReading?, hiso, hoffset, Option.bind_some]
  obtain rfl | rfl := hmark
  · rw [Loose.read?_joined hyear hmonth hday w]
    simp
  · have hloose := Loose.read?_yearFirst hyear hmonth hday (w := some w) (by simpa using hw)
      (.inl rfl)
    simp only [WrittenTime.suffix, List.append_assoc, List.cons_append] at hloose
    rw [hloose]
    simp [WrittenTime.suffixTime]

end Coercion
