import Coercion.Proofs.Reading.Times

namespace Coercion

open Calendar Text

namespace Loose

def isSeparator (c : Char) : Bool := c == ' ' || c == ',' || c == '\t'

theorem tokens_nil : tokens [] = [] := rfl

theorem tokens_cons_separator {c : Char} (hc : isSeparator c = true) (t : Text) :
    tokens (c :: t) = tokens t := by
  have hsplit : split isSeparator (c :: t) = [] :: split isSeparator t := by
    rw [split, if_pos hc]
  change ((split isSeparator (c :: t)).filter _).takeWhile _ = _
  rw [hsplit]
  rfl

def EndsToken (t : Text) : Prop := t = [] ∨ ∃ c u, t = c :: u ∧ isSeparator c = true

theorem tokens_append {k t : Text} (hne : k ≠ []) (hhead : k.head? ≠ some '(')
    (hk : ∀ c ∈ k, isSeparator c = false) (ht : EndsToken t) : tokens (k ++ t) = k :: tokens t := by
  obtain rfl | ⟨c, u, rfl, hc⟩ := ht
  · change ((split isSeparator (k ++ [])).filter _).takeWhile _ = _
    rw [List.append_nil, split_of_forall hk]
    simp [hne, hhead, tokens_nil]
  · rw [tokens_cons_separator hc]
    change ((split isSeparator (k ++ c :: u)).filter _).takeWhile _ = _
    rw [split_append_cons hk hc]
    simp only [List.filter_cons, List.isEmpty_eq_false_iff.mpr hne, Bool.not_false, if_true,
      List.takeWhile_cons, bne_iff_ne.mpr hhead]
    rfl

namespace Fields

/-- A token that starts with a digit is a time if it has a colon, and else a number or a date. -/
theorem add?_of_startsWithDigit {t : Text} (ht : StartsWithDigit t) (f : Fields) : f.add? t =
    if t.contains ':' then
      if f.time.isNone then (Loose.time? t).map fun time => { f with time := some time } else none
    else if t.all Char.isDigit then some { f with numbers := f.numbers ++ [t] }
    else if f.date.isNone then (Loose.date? t).map fun date => { f with date := some date }
    else none := by
  obtain ⟨c, u, rfl, hc⟩ := ht
  have hne (d : Char) (hd : d.isDigit = false) : (c == d) = false := beq_of_isDigit hc hd
  have hwords : meridiem? (c :: u) = none ∧ namesUtc (c :: u) = false ∧
      startsWithUtc (c :: u) = false ∧ startsWithSign (c :: u) = false := by
    simp [meridiem?, namesUtc, startsWithUtc, startsWithSign, sameLetters, toLower_of_isDigit hc,
      hne]
  have hall : (c :: u).all Char.isAlpha = false := by
    simp [not_isAlpha_of_isDigit hc]
  simp only [add?, hwords, hall, Bool.false_eq_true, if_false, Bool.false_and]

theorem add?_date {t : Text} (ht : StartsWithDigit t) (hcolon : ':' ∉ t) (hnum : ¬ IsNumber t)
    {date : YearMonthDay} (hdate : Loose.date? t = some date) {f : Fields} (hf : f.date = none) :
    f.add? t = some { f with date := some date } := by
  have hcontains : t.contains ':' = false := by
    simpa using hcolon
  have hall : t.all Char.isDigit = false := by
    rw [← Bool.not_eq_true, List.all_eq_true]
    exact hnum
  rw [add?_of_startsWithDigit ht, hcontains, hall, hdate, hf]
  rfl

end Fields

theorem number?_of_isNumber {most : Nat} {p : Text} (hne : p ≠ []) (hp : IsNumber p)
    (hlen : p.length ≤ most) : number? most p = some (toNat p) := by
  have hnum : isNumeral p = true := (isNumeral_iff p).mpr ⟨hne, hp⟩
  simp [number?, hnum, hlen]

theorem number?_of_isDigits {k most : Nat} {p : Text} (hp : IsDigits (k + 1) p) (hk : k < most) :
    number? most p = some (toNat p) :=
  number?_of_isNumber hp.ne_nil hp.isNumber (by rw [hp.length_eq]; exact hk)

theorem year?_of_isDigits {p : Text} (hp : IsDigits 4 p) : year? p = some (toNat p : Int) := by
  simp [year?, number?_of_isDigits hp, hp.length_eq]

theorem month?_of_isDigits {k : Nat} {p : Text} (hp : IsDigits (k + 1) p) : month? p = none := by
  obtain ⟨c, t, rfl⟩ := List.exists_cons_of_ne_nil hp.ne_nil
  have hc := hp.isNumber c (by simp)
  have hne (d : Char) (hd : d.isDigit = false) : ¬ d = c := by
    rintro rfl
    simp [hc] at hd
  simp [month?, monthOfAbbreviation?, position?, monthAbbreviations, sameLetters,
    toLower_of_isDigit hc, hne]

/-- The three parts of a date between two equal marks. -/
theorem date?_of_parts {p q e : Text} {s : Char} (hp : IsWord p) (hq : IsWord q) (he : IsWord e)
    (hs : s = '/' ∨ s = '-' ∨ s = '.') : date? (p ++ s :: (q ++ s :: e)) =
      match month? q with
      | some month =>
        (year? e).bind fun year => (number? 2 p).bind fun day => some ⟨year, month, day⟩
      | none =>
        if p.length = 4 then
          (year? p).bind fun year => (number? 2 q).bind fun month =>
            (number? 2 e).bind fun day => some ⟨year, month, day⟩
        else
          (year? e).bind fun year => (number? 2 p).bind fun month =>
            (number? 2 q).bind fun day => some ⟨year, month, day⟩ := by
  have halnum : s.isAlphanum = false := by
    obtain rfl | rfl | rfl := hs <;> rfl
  have hfind : (p ++ s :: (q ++ s :: e)).find? (fun c => !c.isAlphanum) = some s := by
    rw [List.find?_append, List.find?_eq_none.mpr (fun c hc => by simp [hp c hc])]
    simp [halnum]
  have hsplit : split (· == s) (p ++ s :: (q ++ s :: e)) = [p, q, e] := by
    have hword {a : Text} (ha : IsWord a) : ∀ c ∈ a, (c == s) = false :=
      fun c hc => beq_eq_false_iff_ne.mpr (ne_of_isAlphanum (ha c hc) halnum)
    rw [split_append_cons (hword hp) (by simp), split_append_cons (hword hq) (by simp),
      split_of_forall (hword he)]
  have hmark : (s != '/' && s != '-' && s != '.') = false := by
    obtain rfl | rfl | rfl := hs <;> rfl
  rw [date?, hfind, Option.bind_eq_bind, Option.bind_some, hmark, if_neg Bool.false_ne_true, hsplit]
  rfl

theorem date?_yearFirst {year month day : Text} {s : Char} (hyear : IsDigits 4 year)
    (hmonth : IsDigits 2 month) (hday : IsDigits 2 day) (hs : s = '/' ∨ s = '-' ∨ s = '.') :
    date? (year ++ s :: (month ++ s :: day)) = some ⟨toNat year, toNat month, toNat day⟩ := by
  rw [date?_of_parts hyear.isNumber.isWord hmonth.isNumber.isWord hday.isNumber.isWord hs,
    month?_of_isDigits hmonth, if_pos hyear.length_eq, year?_of_isDigits hyear,
    number?_of_isDigits hmonth (by decide), number?_of_isDigits hday (by decide)]
  rfl

theorem isSeparator_of_isDigit {c : Char} (hc : c.isDigit = true) : isSeparator c = false := by
  simp [isSeparator, beq_of_isDigit hc]

theorem tokens_of_startsWithDigit {k t : Text} (hk : StartsWithDigit k)
    (hsep : ∀ c ∈ k, isSeparator c = false) (ht : EndsToken t) :
    tokens (k ++ t) = k :: tokens t :=
  tokens_append hk.ne_nil (hk.head_ne rfl) hsep ht

theorem tokens_dated {a : Text} (hstart : StartsWithDigit a)
    (ha : ∀ c ∈ a, isSeparator c = false) (w : Option WrittenTime) :
    tokens (a ++ WrittenTime.suffix w) = a :: (w.map WrittenTime.text).toList := by
  cases w with
  | none => exact tokens_of_startsWithDigit hstart ha (.inl rfl)
  | some w =>
    have hw : ∀ c ∈ w.text, isSeparator c = false := by
      intro c hc
      obtain hc | rfl := WrittenTime.isDigit_of_mem hc
      · exact isSeparator_of_isDigit hc
      · rfl
    have htime := tokens_of_startsWithDigit w.startsWithDigit_text hw (.inl rfl)
    rw [List.append_nil] at htime
    rw [WrittenTime.suffix, tokens_of_startsWithDigit hstart ha (.inr ⟨' ', w.text, rfl, rfl⟩),
      tokens_cons_separator rfl, htime]
    rfl

/-- A date and a time behind it are all that is read of them. -/
theorem read?_dated {a : Text} {date : YearMonthDay} (ha : StartsWithDigit a)
    (hmarks : ∀ c ∈ a, c.isAlphanum = true ∨ c ∈ ['/', '-', '.']) (hnum : ¬ IsNumber a)
    (hdate : date? a = some date) {w : Option WrittenTime} (hw : ∀ v ∈ w, v.IsValid) :
    read? (a ++ WrittenTime.suffix w) =
      WallReading.of? date (WrittenTime.suffixTime w) none := by
  have hne (d : Char) (hd : d.isAlphanum = false) (hd' : d ∉ ['/', '-', '.']) : d ∉ a := by
    intro hmem
    obtain h | h := hmarks d hmem
    · simp [h] at hd
    · exact hd' h
  have hsep : ∀ c ∈ a, isSeparator c = false := by
    intro c hc
    rw [← Bool.not_eq_true]
    simp only [isSeparator, Bool.or_eq_true, beq_iff_eq]
    rintro ((rfl | rfl) | rfl)
    · exact hne ' ' rfl (by simp) hc
    · exact hne ',' rfl (by simp) hc
    · exact hne '\t' rfl (by simp) hc
  have hfirst : Fields.add? .empty a = some ⟨some date, none, [], none, none, none⟩ :=
    Fields.add?_date ha (hne ':' rfl (by simp)) hnum hdate rfl
  cases w with
  | none =>
    simp [read?, tokens_dated ha hsep, hfirst, Fields.date?, Fields.time?,
      WrittenTime.suffixTime]
  | some w =>
    have htime := WrittenTime.loose_time? (hw w rfl)
    have hsecond : Fields.add? ⟨some date, none, [], none, none, none⟩ w.text =
        some ⟨some date, none, [], some w.dayTime, none, none⟩ := by
      rw [Fields.add?_of_startsWithDigit w.startsWithDigit_text, w.contains_text, htime]
      rfl
    simp [read?, tokens_dated ha hsep, hfirst, hsecond, Fields.date?, Fields.time?,
      WrittenTime.suffixTime, WrittenTime.checked?_dayTime (hw w rfl)]

theorem read?_of_parts {p q e : Text} {s : Char} {date : YearMonthDay}
    (hstart : StartsWithDigit p) (hp : IsWord p) (hq : IsWord q) (he : IsWord e)
    (hs : s ∈ ['/', '-', '.']) (hdate : date? (p ++ s :: (q ++ s :: e)) = some date)
    {w : Option WrittenTime} (hw : ∀ v ∈ w, v.IsValid) :
    read? (p ++ s :: (q ++ s :: e) ++ WrittenTime.suffix w) =
      WallReading.of? date (WrittenTime.suffixTime w) none := by
  refine read?_dated ?_ ?_ ?_ hdate hw
  · exact hstart.append _
  · intro c hc
    simp only [List.mem_append, List.mem_cons] at hc
    obtain hc | rfl | hc | rfl | hc := hc
    · exact .inl (hp c hc)
    · exact .inr hs
    · exact .inl (hq c hc)
    · exact .inr hs
    · exact .inl (he c hc)
  · intro hnum
    have hdigit := hnum s (by simp)
    simp only [List.mem_cons, List.not_mem_nil, or_false] at hs
    obtain rfl | rfl | rfl := hs <;> simp at hdigit

end Loose

end Coercion
