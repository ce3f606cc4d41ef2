import Coercion.Proofs.Reading.Months
import Coercion.Proofs.Reading.Times
import Coercion.Proofs.Text.Joining
import Coercion.Reading.Rule

namespace Coercion

open Text

theorem TimeUnit.ofName?_of_startsWithDigit {t : Text} (h : StartsWithDigit t) :
    ofName? t = none := by
  obtain ⟨c, u, rfl, hc⟩ := h
  have hne (d : Char) (hd : d.isDigit = false) : ¬ d = c := by
    rintro rfl
    simp [hc] at hd
  simp [ofName?, all, spellings, sameLetters, toLower_of_isDigit hc, hne]

theorem IntervalText.recognizes_dated (date : Text) (w : Option WrittenTime) :
    recognizes (date :: (w.map WrittenTime.text).toList) = false := by
  cases w with
  | none => rfl
  | some w =>
    simp [recognizes, pairs, unit?, TimeUnit.ofName?_of_startsWithDigit w.startsWithDigit_text]

namespace Shape

theorem ofText_of_trim {t : Text} (h : trim t = t) :
    ofText t = ⟨t, split (· == ' ') t, !t.contains ':'⟩ := by
  simp [ofText, h]

theorem ofText_intercalate {parts : List Text} (hne : parts ≠ []) (h : ∀ a ∈ parts, IsSolid a) :
    ofText (List.intercalate [' '] parts) = ⟨List.intercalate [' '] parts, parts,
      !(List.intercalate [' '] parts).contains ':'⟩ := by
  rw [ofText_of_trim (trim_intercalate h), split_spaces h hne]

theorem ofText_timed {parts : List Text} (h : ∀ a ∈ parts, IsSolid a) {w : WrittenTime}
    (hmem : w.text ∈ parts) : ofText (List.intercalate [' '] parts) =
      ⟨List.intercalate [' '] parts, parts, false⟩ := by
  have hcolon : (List.intercalate [' '] parts).contains ':' = true := by
    have htime := w.contains_text
    rw [List.contains_iff_mem] at htime ⊢
    exact mem_intercalate hmem htime
  rw [ofText_intercalate (List.ne_nil_of_mem hmem) h, hcolon]
  rfl

def dated (date : Text) (w : Option WrittenTime) : Shape :=
  ⟨date ++ WrittenTime.suffix w, date :: (w.map WrittenTime.text).toList, w.isNone⟩

@[simp] theorem firstToken_dated (date : Text) (w : Option WrittenTime) :
    (dated date w).firstToken = date := rfl

theorem isAscii_dated {date : Text} (h : IsDateText date) (w : Option WrittenTime) :
    IsAscii (dated date w).text :=
  isAscii_append.mpr ⟨h.isAscii, WrittenTime.isAscii_suffix w⟩

theorem ofText_dated {date : Text} (hne : date ≠ []) (hdate : IsDateText date)
    (w : Option WrittenTime) : ofText (date ++ WrittenTime.suffix w) = dated date w := by
  have hmark {c : Char} (hc : c ∈ date) : (c == ' ') = false ∧ ¬ c = ':' := by
    obtain hc | hc := hdate c hc
    · exact ⟨beq_eq_false_iff_ne.mpr (ne_of_isAlphanum hc rfl), ne_of_isAlphanum hc rfl⟩
    · simp only [List.mem_cons, List.not_mem_nil, or_false] at hc
      obtain rfl | rfl | rfl | rfl := hc <;> decide
  have hcolon : ':' ∉ date := fun h => (hmark h).2 rfl
  have hspace : ∀ c ∈ date, (c == ' ') = false := fun c hc => (hmark hc).1
  rw [ofText_of_trim (WrittenTime.trim_append_suffix hne hdate w)]
  cases w with
  | none =>
    rw [WrittenTime.suffix, List.append_nil, split_of_forall hspace]
    simp [dated, WrittenTime.suffix, hcolon]
  | some w =>
    have htime : ∀ c ∈ w.text, (c == ' ') = false := by
      intro c hc
      obtain hc | rfl := WrittenTime.isDigit_of_mem hc
      · exact beq_of_isDigit hc rfl
      · rfl
    have hcolon' : ':' ∈ w.text := by simpa using w.contains_text
    rw [WrittenTime.suffix, split_append_cons hspace (by rfl), split_of_forall htime]
    simp [dated, WrittenTime.suffix, hcolon']

end Shape

namespace ShapeRule

theorem isNumberOfBytes_of_length {bytes : Nat} {t : Text} (ht : IsAscii t)
    (hlen : t.length ≠ bytes) : isNumberOfBytes bytes t = false := by
  simp [isNumberOfBytes, ht.byteLength_eq, hlen]

/-- The first part of a text reaches up to a letter `T`, or it is the whole text. -/
theorem partIsNumber_zero {s : Shape} {bytes : Nat} {c : Char} (hs : IsAscii s.text)
    (hat : s.text[bytes]? = some c) (hc : (c == 'T') = false) : partIsNumber 0 bytes s = false := by
  obtain ⟨first, rest, hsplit⟩ :=
    List.exists_cons_of_ne_nil (split_ne_nil (p := (· == 'T')) (t := s.text))
  obtain ⟨-, hparts⟩ := split_inversion hsplit
  have hlen : bytes < s.text.length := (List.getElem?_eq_some_iff.mp hat).1
  have hfirst : IsAscii first ∧ first.length ≠ bytes := by
    obtain ⟨htext, -⟩ | ⟨d, u, htext, hd, -⟩ := hparts
    · rw [htext] at hs hlen
      exact ⟨hs, by omega⟩
    · rw [htext] at hs hat
      refine ⟨(isAscii_append.mp hs).1, ?_⟩
      rintro rfl
      obtain rfl : d = c := by simpa using hat
      simp [hc] at hd
  simp [partIsNumber, hsplit, isNumberOfBytes_of_length hfirst.1 hfirst.2]

theorem isNumberOfBytes_of_isDigits {k : Nat} {p : Text} (hp : IsDigits (k + 1) p) (hk : k < 15) :
    isNumberOfBytes (k + 1) p = true := by
  have hfinite : (Double.ofInt (toNat p)).isFinite = true := by
    apply Double.isFinite_ofInt
    have hlt := toNat_lt hp.isNumber
    have hle : 10 ^ p.length ≤ 10 ^ 15 :=
      Nat.pow_le_pow_right (by decide) (by rw [hp.length_eq]; omega)
    omega
  simp [isNumberOfBytes, numberOf_of_isDigits hp hk, hp.isNumber.isWord.isAscii.byteLength_eq,
    hp.length_eq, hfinite]

theorem isNumberOfBytes_firstToken {s : Shape} {t : Text} {k : Nat} (hs : IsAscii s.text)
    (htext : s.text = s.firstToken ++ t) (hlen : s.firstToken.length ≠ k) :
    isNumberOfBytes k s.firstToken = false := by
  rw [htext, isAscii_append] at hs
  exact isNumberOfBytes_of_length hs.1 hlen

section

variable {s : Shape} {year month day name t : Text} {m : Nat} (ht : IsAscii t)
  (htokens : IntervalText.recognizes s.tokens = false)

include ht htokens

theorem first?_dayMonthNameYear (hday : IsDigits 2 day) (hname : IsMonthName m name)
    (htext : s.text = day ++ '-' :: (name ++ '-' :: t)) : first? s = some dayMonthNameYear := by
  obtain ⟨d₁, d₂, rfl, hd₁, hd₂⟩ := hday.exists_two
  obtain ⟨n₁, n₂, n₃, rfl, hn₁, hn₂, hn₃⟩ := hname.exists_three
  have hascii : IsAscii s.text := by
    simp +decide [utf8Size_of_isDigit, utf8Size_of_isAlpha, *]
  simp only [first?, all, List.find?_cons, recognizes, Shape.has, hascii.hasAt_eq, htokens]
  simp [*]

/-- The year starts with a digit, so that no hyphen stands where the one behind a name would. -/
theorem first?_monthDayYear {c : Char} (hc : c = '/' ∨ c = '-') (hmonth : IsDigits 2 month)
    (hday : IsDigits 2 day) (hyear : StartsWithDigit t)
    (htext : s.text = month ++ c :: (day ++ c :: t)) : first? s = some monthDayYear := by
  obtain ⟨m₁, m₂, rfl, hm₁, hm₂⟩ := hmonth.exists_two
  obtain ⟨d₁, d₂, rfl, hd₁, hd₂⟩ := hday.exists_two
  obtain ⟨y₁, y, rfl, hy₁⟩ := hyear
  have hascii : IsAscii s.text := by
    obtain rfl | rfl := hc <;> simp +decide [utf8Size_of_isDigit, *]
  simp only [first?, all, List.find?_cons, recognizes, Shape.has, hascii.hasAt_eq, htokens]
  obtain rfl | rfl := hc <;> simp [beq_of_isDigit, *]

/-- Two equal marks behind four digits and two make up one of the rules with the year first. -/
theorem first?_yearFirst {c : Char} {rule : ShapeRule} (hc : (c, rule) ∈ [('-', yearMonthDay),
      ('.', dottedYearMonthDay), ('_', underscoredYearMonthDay)])
    (hyear : IsDigits 4 year) (hmonth : IsDigits 2 month)
    (htext : s.text = year ++ c :: (month ++ c :: t)) : first? s = some rule := by
  obtain ⟨y₁, y₂, y₃, y₄, rfl, hy₁, hy₂, hy₃, hy₄⟩ := hyear.exists_four
  obtain ⟨m₁, m₂, rfl, hm₁, hm₂⟩ := hmonth.exists_two
  simp only [List.mem_cons, Prod.mk.injEq, List.not_mem_nil, or_false] at hc
  have hascii : IsAscii s.text := by
    obtain ⟨rfl, -⟩ | ⟨rfl, -⟩ | ⟨rfl, -⟩ := hc <;> simp +decide [utf8Size_of_isDigit, *]
  simp only [first?, all, List.find?_cons, recognizes, Shape.has, hascii.hasAt_eq, htokens]
  obtain ⟨rfl, rfl⟩ | ⟨rfl, rfl⟩ | ⟨rfl, rfl⟩ := hc <;> simp [beq_of_isDigit, *]

theorem first?_packedMonthDayYear (hmonth : IsDigits 2 month) (hday : IsDigits 2 day)
    (hyear : IsDigits 2 year) (hfirst : s.firstToken = month ++ (day ++ year))
    (htext : s.text = s.firstToken ++ t) : first? s = some packedMonthDayYear := by
  have hdigits := hmonth.append (hday.append hyear)
  have hnumber := isNumberOfBytes_of_isDigits (k := 5) hdigits (by decide)
  rw [← hfirst] at hnumber
  rw [hfirst] at htext
  obtain ⟨m₁, m₂, rfl, hm₁, hm₂⟩ := hmonth.exists_two
  obtain ⟨d₁, d₂, rfl, hd₁, hd₂⟩ := hday.exists_two
  obtain ⟨y₁, y₂, rfl, hy₁, hy₂⟩ := hyear.exists_two
  have hascii : IsAscii s.text := by
    simp +decide [utf8Size_of_isDigit, *]
  simp only [first?, all, List.find?_cons, recognizes, Shape.has, hascii.hasAt_eq, htokens, hnumber]
  simp [beq_of_isDigit, *]

theorem first?_packedYearMonthDay (hyear : IsDigits 4 year) (hmonth : IsDigits 2 month)
    (hday : IsDigits 2 day) (htext : s.text = year ++ (month ++ (day ++ t)))
    (hfirst : isNumberOfBytes 6 s.firstToken = false)
    (hnumber : (isNumberOfBytes 8 s.firstToken || partIsNumber 0 8 s) = true) :
    first? s = some packedYearMonthDay := by
  obtain ⟨y₁, y₂, y₃, y₄, rfl, hy₁, hy₂, hy₃, hy₄⟩ := hyear.exists_four
  obtain ⟨m₁, m₂, rfl, hm₁, hm₂⟩ := hmonth.exists_two
  obtain ⟨d₁, d₂, rfl, hd₁, hd₂⟩ := hday.exists_two
  have hascii : IsAscii s.text := by
    simp +decide [utf8Size_of_isDigit, *]
  simp only [first?, all, List.find?_cons, recognizes, Shape.has, hascii.hasAt_eq, htokens, hfirst,
    hnumber]
  simp [beq_of_isDigit, *]

theorem first?_dottedDayMonthYear (hday : IsDigits 2 day) (hmonth : IsDigits 2 month)
    (hyear : IsDigits 4 year) (hfirst : s.firstToken = day ++ '.' :: (month ++ '.' :: year))
    (htext : s.text = s.firstToken ++ t) : first? s = some dottedDayMonthYear := by
  have hlen : s.firstToken.length = 10 := by
    simp [hfirst, hday.length_eq, hmonth.length_eq, hyear.length_eq]
  have hnumber {k : Nat} (hascii) := isNumberOfBytes_firstToken (k := k) hascii htext
  rw [hfirst] at htext
  obtain ⟨d₁, d₂, rfl, hd₁, hd₂⟩ := hday.exists_two
  obtain ⟨m₁, m₂, rfl, hm₁, hm₂⟩ := hmonth.exists_two
  obtain ⟨y₁, y₂, y₃, y₄, rfl, hy₁, hy₂, hy₃, hy₄⟩ := hyear.exists_four
  have hascii : IsAscii s.text := by
    simp +decide [utf8Size_of_isDigit, *]
  have hpart : partIsNumber 0 8 s = false :=
    partIsNumber_zero hascii (c := y₃) (by simp [htext]) (beq_of_isDigit hy₃ rfl)
  simp only [first?, all, List.find?_cons, recognizes, Shape.has, hascii.hasAt_eq, htokens, hpart,
    hnumber (k := 6) hascii (by omega), hnumber (k := 8) hascii (by omega)]
  simp [beq_of_isDigit, *]

theorem first?_yearMonthNameDay (hyear : IsDigits 4 year) (hname : IsMonthName m name)
    (hday : IsDigits 2 day) (hfirst : s.firstToken = year ++ '-' :: (name ++ '-' :: day))
    (htext : s.text = s.firstToken ++ t) : first? s = some yearMonthNameDay := by
  obtain ⟨n₁, n₂, n₃, rfl, hn₁, hn₂, hn₃⟩ := hname.exists_three
  have hlen : s.firstToken.length = 11 := by
    simp [hfirst, hday.length_eq, hyear.length_eq]
  have hnumber {k : Nat} (hascii) := isNumberOfBytes_firstToken (k := k) hascii htext
  rw [hfirst] at htext
  obtain ⟨d₁, d₂, rfl, hd₁, hd₂⟩ := hday.exists_two
  obtain ⟨y₁, y₂, y₃, y₄, rfl, hy₁, hy₂, hy₃, hy₄⟩ := hyear.exists_four
  have hascii : IsAscii s.text := by
    simp +decide [utf8Size_of_isDigit, utf8Size_of_isAlpha, *]
  have hpart : partIsNumber 0 8 s = false :=
    partIsNumber_zero hascii (c := '-') (by simp [htext]) rfl
  simp only [first?, all, List.find?_cons, recognizes, Shape.has, hascii.hasAt_eq, htokens, hpart,
    hnumber (k := 6) hascii (by omega), hnumber (k := 8) hascii (by omega)]
  simp [beq_of_isDigit, beq_of_isAlpha, *]

theorem first?_monthNameDayYear {k : Nat} (hname : IsMonthName m name) (hday : IsDigits 2 day)
    (hyear : IsDigits (k + 2) year) (hfirst : s.firstToken = name ++ '-' :: (day ++ '-' :: year))
    (htext : s.text = s.firstToken ++ t) : first? s = some monthNameDayYear := by
  obtain ⟨n₁, n₂, n₃, rfl, hn₁, hn₂, hn₃⟩ := hname.exists_three
  have hlen : s.firstToken.length = k + 9 := by
    simp only [hfirst, List.length_append, List.length_cons, List.length_nil, hday.length_eq,
      hyear.length_eq]
    omega
  have hnumber {k : Nat} (hascii) := isNumberOfBytes_firstToken (k := k) hascii htext
  rw [hfirst] at htext
  obtain ⟨d₁, d₂, rfl, hd₁, hd₂⟩ := hday.exists_two
  obtain ⟨y₁, u, rfl, hy₁, hu⟩ := hyear.exists_cons
  obtain ⟨y₂, y, rfl, hy₂, hy⟩ := hu.exists_cons
  have hascii : IsAscii s.text := by
    simp +decide [utf8Size_of_isDigit, utf8Size_of_isAlpha, hy.isDateText.isAscii, *]
  have hpart : partIsNumber 0 8 s = false :=
    partIsNumber_zero hascii (c := y₂) (by simp [htext]) (beq_of_isDigit hy₂ rfl)
  simp only [first?, all, List.find?_cons, recognizes, Shape.has, hascii.hasAt_eq, htokens, hpart,
    hnumber (k := 6) hascii (by omega), hnumber (k := 8) hascii (by omega)]
  simp [beq_of_isDigit, beq_of_isAlpha, *]

end

/-- A time alone is taken by its first colon, and it is no packed date by its length. -/
theorem first?_timeOfDay {s : Shape} {w : WrittenTime} (hw : w.IsValid) (htext : s.text = w.text)
    (htokens : s.tokens = [w.text]) : first? s = some timeOfDay := by
  obtain ⟨hour, minute, t, hhour, hminute, hcut, hlen⟩ := WrittenTime.exists_text hw
  have hascii : IsAscii s.text := htext ▸ w.isAscii_text
  have hpairs : IntervalText.recognizes s.tokens = false := by
    rw [htokens]
    rfl
  have hfirst : isNumberOfBytes 6 s.firstToken = false := by
    rw [Shape.firstToken, htokens]
    refine isNumberOfBytes_of_length w.isAscii_text ?_
    simp only [List.headD_cons, hcut, List.length_append, List.length_cons, hhour.length_eq,
      hminute.length_eq]
    omega
  obtain ⟨h₁, h₂, rfl, hh₁, hh₂⟩ := hhour.exists_two
  obtain ⟨m₁, m₂, rfl, hm₁, hm₂⟩ := hminute.exists_two
  simp only [first?, all, List.find?_cons, recognizes, Shape.has, hascii.hasAt_eq, hpairs, hfirst]
  simp [beq_of_isDigit, *]

theorem first?_signedYear {s : Shape} {sign : Char} {year month t : Text}
    (hsign : sign = '+' ∨ sign = '-') (hyear : IsDigits 6 year) (hmonth : IsDigits 2 month)
    (ht : IsAscii t) (htext : s.text = sign :: (year ++ '-' :: (month ++ '-' :: t)))
    (htokens : s.tokens = [s.text]) : first? s = none := by
  obtain ⟨y₁, y₂, y₃, y₄, y₅, y₆, rfl⟩ : ∃ a b c d e f, year = [a, b, c, d, e, f] := by
    have hlen := hyear.length_eq
    match year, hlen with
    | [a, b, c, d, e, f], _ => exact ⟨a, b, c, d, e, f, rfl⟩
  obtain ⟨m₁, m₂, rfl, hm₁, hm₂⟩ := hmonth.exists_two
  have hnum := hyear.isNumber
  simp only [IsNumber, List.forall_mem_cons] at hnum
  obtain ⟨hy₁, hy₂, hy₃, hy₄, hy₅, hy₆, -⟩ := hnum
  have hascii : IsAscii s.text := by
    obtain rfl | rfl := hsign <;> simp +decide [utf8Size_of_isDigit, *]
  have hpart : partIsNumber 0 8 s = false :=
    partIsNumber_zero hascii (c := m₁) (by simp [htext]) (beq_of_isDigit hm₁ rfl)
  have hnumber (k : Nat) (hk : k < 11) : isNumberOfBytes k s.firstToken = false := by
    rw [Shape.firstToken, htokens]
    exact isNumberOfBytes_of_length hascii (by simp [htext]; omega)
  simp only [first?, all, List.find?_cons, recognizes, Shape.has, hascii.hasAt_eq, htokens, hpart]
  simp [beq_of_isDigit, IntervalText.recognizes, *]

/-- No rule takes a text that starts with two words of three letters and a number. -/
theorem first?_named {s : Shape} {a b c d e f : Char} {t : Text}
    (hletters : ∀ x ∈ [a, b, c, d, e, f], x.isAlpha = true) (ht : StartsWithDigit t)
    (hascii : IsAscii s.text) (htext : s.text = a :: b :: c :: ' ' :: d :: e :: f :: ' ' :: t)
    (hfirst : s.firstToken = [a, b, c]) (htokens : IntervalText.recognizes s.tokens = false) :
    first? s = none := by
  obtain ⟨n, u, rfl, hn⟩ := ht
  simp only [List.forall_mem_cons, List.not_mem_nil, false_implies, implies_true, and_true]
    at hletters
  obtain ⟨ha, hb, hc, hd, he, hf⟩ := hletters
  have hpart : partIsNumber 0 8 s = false :=
    partIsNumber_zero hascii (c := n) (by simp [htext]) (beq_of_isDigit hn rfl)
  have hnumber (k : Nat) (hk : 3 < k) : isNumberOfBytes k s.firstToken = false := by
    rw [hfirst]
    apply isNumberOfBytes_of_length
    · simp [utf8Size_of_isAlpha, *]
    · simp only [List.length_cons, List.length_nil]
      omega
  simp only [first?, all, List.find?_cons, recognizes, Shape.has, hascii.hasAt_eq, htokens, hpart,
    hnumber 6 (by decide), hnumber 8 (by decide)]
  simp [beq_of_isAlpha, *]

section

variable {s : Shape} {a x y : Text} {c d : Char} (ha : byteLength a = 4) (hx : byteLength x = 2)

include ha hx

theorem withMidnight_eq (hy : slice 0 2 y ≠ []) :
    withMidnight (a ++ '-' :: (x ++ '-' :: y)) =
      a ++ '-' :: (x ++ '-' :: (slice 0 2 y ++ (" 00:00:00".toList ++ sliceFrom 2 y))) := by
  have hcut := slice_marks_append (c := '-') (d := '-') ha hx (by decide) (by decide) y hy
  rw [withMidnight, hcut, sliceFrom_behind (n := 4) (k := 2) ha hx (by decide) (by decide) y 2]
  simp

theorem restateYearMonthDay_parts (hc : c.utf8Size = 1) (hd : d.utf8Size = 1)
    (htext : s.text = a ++ c :: (x ++ d :: y)) (text : Text) :
    (restateYearMonthDay s text).year = numberOf a ∧
      (restateYearMonthDay s text).month = numberOf x ∧
      (restateYearMonthDay s text).day = numberOf (slice 0 2 y) := by
  simp only [restateYearMonthDay, Shape.slice, htext]
  rw [slice_append_left _ ha, slice_between (n := 4) (k := 2) ha hx hc,
    slice_behind (n := 4) (k := 2) ha hx hc hd y 0 2]
  exact ⟨rfl, rfl, rfl⟩

end

theorem restateYearMonthDay_eq {s : Shape} {a b : Char} {year month day t : Text}
    (hyear : IsDigits 4 year) (hmonth : IsDigits 2 month) (hday : IsDigits 2 day)
    (ha : a.utf8Size = 1) (hb : b.utf8Size = 1)
    (htext : s.text = year ++ a :: (month ++ b :: (day ++ t))) (u : Text) :
    restateYearMonthDay s u =
      ⟨u, .ofInt (toNat day), .ofInt (toNat month), .ofInt (toNat year), s.dateOnly⟩ := by
  obtain ⟨hy, hm, hd⟩ :=
    restateYearMonthDay_parts hyear.byteLength_eq hmonth.byteLength_eq ha hb htext u
  rw [slice_append_left _ hday.byteLength_eq, numberOf_of_isDigits hday (by decide)] at hd
  rw [numberOf_of_isDigits hmonth (by decide)] at hm
  rw [numberOf_of_isDigits hyear (by decide)] at hy
  rw [← hd, ← hm, ← hy]
  rfl

end ShapeRule

end Coercion
