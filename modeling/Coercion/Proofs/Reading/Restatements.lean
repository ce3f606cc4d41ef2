import Coercion.Proofs.Reading.Recognition
import Coercion.Proofs.Reading.Shapes

namespace Coercion

open Text

namespace Restates

variable {c : Context}

theorem of_dated {date : Text} {w : Option WrittenTime} {p : ShapeRule} {r : Restated}
    (hne : date ≠ []) (hdate : IsDateText date)
    (hfirst : ShapeRule.first? (Shape.dated date w) = some p)
    (hread : p.read c (Shape.dated date w) = .ok (.restated r)) :
    Restates c (date ++ WrittenTime.suffix w) r :=
  ⟨p, by rw [Shape.ofText_dated hne hdate, hfirst], by rw [Shape.ofText_dated hne hdate, hread]⟩

variable {year month day name : Text} {m : Nat} (hyear : IsDigits 4 year) (hday : IsDigits 2 day)
  (w : Option WrittenTime)

include hday

section

include hyear

theorem dayMonthNameYear (hname : IsMonthName m name) :
    Restates c (day ++ '-' :: (name ++ '-' :: year) ++ WrittenTime.suffix w)
      ⟨day ++ '-' :: (name ++ '-' :: year) ++ WrittenTime.suffix w, .ofInt (toNat day), .ofInt m,
        .ofInt (toNat year), w.isNone⟩ := by
  have hdate : IsDateText (day ++ '-' :: (name ++ '-' :: year)) := by
    simp [hday.isDateText, hname.isWord.isDateText, hyear.isDateText]
  have htail : IsAscii (year ++ WrittenTime.suffix w) := by
    simp [hyear.isDateText.isAscii, WrittenTime.isAscii_suffix]
  have hascii := Shape.isAscii_dated hdate w
  refine of_dated (by simp) hdate (ShapeRule.first?_dayMonthNameYear htail
    (IntervalText.recognizes_dated _ _) hday hname (by simp [Shape.dated])) ?_
  rw [← hname.monthNumberOf_eq, ← numberOf_of_isDigits hday (by decide),
    ← numberOf_of_isDigits hyear (by decide)]
  obtain ⟨d₁, d₂, rfl, -⟩ := hday.exists_two
  obtain ⟨n₁, n₂, n₃, rfl, -⟩ := hname.exists_three
  obtain ⟨y₁, y₂, y₃, y₄, rfl, -⟩ := hyear.exists_four
  simp only [ShapeRule.read, ShapeRule.restateDayMonthNameYear, Shape.slice, hascii.slice_eq]
  rfl

theorem yearMonthNameDay (hname : IsMonthName m name) :
    Restates c (year ++ '-' :: (name ++ '-' :: day) ++ WrittenTime.suffix w)
      ⟨day ++ '-' :: (name ++ '-' :: year) ++ WrittenTime.suffix w, .ofInt (toNat day), .ofInt m,
        .ofInt (toNat year), w.isNone⟩ := by
  have hdate : IsDateText (year ++ '-' :: (name ++ '-' :: day)) := by
    simp [hday.isDateText, hname.isWord.isDateText, hyear.isDateText]
  have hascii := Shape.isAscii_dated hdate w
  refine of_dated (by simp) hdate (ShapeRule.first?_yearMonthNameDay (WrittenTime.isAscii_suffix w)
    (IntervalText.recognizes_dated _ _) hyear hname hday rfl rfl) ?_
  rw [← hname.monthNumberOf_eq, ← numberOf_of_isDigits hday (by decide),
    ← numberOf_of_isDigits hyear (by decide)]
  obtain ⟨d₁, d₂, rfl, -⟩ := hday.exists_two
  obtain ⟨n₁, n₂, n₃, rfl, -⟩ := hname.exists_three
  obtain ⟨y₁, y₂, y₃, y₄, rfl, -⟩ := hyear.exists_four
  simp only [ShapeRule.read, ShapeRule.restateYearMonthNameDay, Shape.slice, Shape.sliceFrom,
    hascii.slice_eq, hascii.sliceFrom_eq]
  rfl

theorem monthNameDayYear (hname : IsMonthName m name) :
    Restates c (name ++ '-' :: (day ++ '-' :: year) ++ WrittenTime.suffix w)
      ⟨day ++ '-' :: (name ++ '-' :: year) ++ WrittenTime.suffix w, .ofInt (toNat day), .ofInt m,
        .ofInt (toNat year), w.isNone⟩ := by
  have hdate : IsDateText (name ++ '-' :: (day ++ '-' :: year)) := by
    simp [hday.isDateText, hname.isWord.isDateText, hyear.isDateText]
  have hascii := Shape.isAscii_dated hdate w
  refine of_dated (by simp) hdate (ShapeRule.first?_monthNameDayYear (WrittenTime.isAscii_suffix w)
    (IntervalText.recognizes_dated _ _) hname hday hyear rfl rfl) ?_
  rw [← hname.monthNumberOf_eq, ← numberOf_of_isDigits hday (by decide),
    ← numberOf_of_isDigits hyear (by decide)]
  obtain ⟨d₁, d₂, rfl, -⟩ := hday.exists_two
  obtain ⟨n₁, n₂, n₃, rfl, -⟩ := hname.exists_three
  obtain ⟨y₁, y₂, y₃, y₄, rfl, -⟩ := hyear.exists_four
  simp only [ShapeRule.read, ShapeRule.restateMonthNameDayYear, Shape.slice, Shape.sliceFrom,
    hascii.slice_eq, hascii.sliceFrom_eq]
  rfl

end

variable (hmonth : IsDigits 2 month)

include hmonth

theorem monthDayYear (hyear : IsDigits 4 year) {s : Char} (hs : s = '/' ∨ s = '-') :
    Restates c (month ++ s :: (day ++ s :: year) ++ WrittenTime.suffix w)
      ⟨month ++ s :: (day ++ s :: year) ++ WrittenTime.suffix w, .ofInt (toNat day),
        .ofInt (toNat month), .ofInt (toNat year), w.isNone⟩ := by
  have hdate : IsDateText (month ++ s :: (day ++ s :: year)) := by
    obtain rfl | rfl := hs <;> simp [hday.isDateText, hmonth.isDateText, hyear.isDateText]
  have htail : IsAscii (year ++ WrittenTime.suffix w) := by
    simp [hyear.isDateText.isAscii, WrittenTime.isAscii_suffix]
  have hstart := hyear.startsWithDigit.append (WrittenTime.suffix w)
  have hascii := Shape.isAscii_dated hdate w
  have hbytes : byteLength (Shape.dated (month ++ s :: (day ++ s :: year)) w).firstToken ≠ 8 := by
    change byteLength (month ++ s :: (day ++ s :: year)) ≠ 8
    simp [hdate.isAscii.byteLength_eq, hday.length_eq, hmonth.length_eq, hyear.length_eq]
  refine of_dated (by simp) hdate (ShapeRule.first?_monthDayYear htail
    (IntervalText.recognizes_dated _ _) hs hmonth hday hstart (by simp [Shape.dated])) ?_
  rw [← numberOf_of_isDigits hmonth (by decide), ← numberOf_of_isDigits hday (by decide),
    ← numberOf_of_isDigits hyear (by decide)]
  simp only [ShapeRule.read, ShapeRule.restateMonthDayYear, if_neg hbytes]
  obtain ⟨m₁, m₂, rfl, -⟩ := hmonth.exists_two
  obtain ⟨d₁, d₂, rfl, -⟩ := hday.exists_two
  obtain ⟨y₁, y₂, y₃, y₄, rfl, -⟩ := hyear.exists_four
  simp only [Shape.slice, hascii.slice_eq]
  rfl

/-- A year of two digits is one of the century 20. -/
theorem monthDayShortYear {yy : Text} (hyear : IsDigits 2 yy) {s : Char} (hs : s = '/' ∨ s = '-') :
    Restates c (month ++ s :: (day ++ s :: yy) ++ WrittenTime.suffix w)
      ⟨month ++ s :: (day ++ s :: '2' :: '0' :: yy) ++ WrittenTime.suffix w, .ofInt (toNat day),
        .ofInt (toNat month), .ofInt (toNat ('2' :: '0' :: yy)), w.isNone⟩ := by
  have hdate : IsDateText (month ++ s :: (day ++ s :: yy)) := by
    obtain rfl | rfl := hs <;> simp [hday.isDateText, hmonth.isDateText, hyear.isDateText]
  have htail : IsAscii (yy ++ WrittenTime.suffix w) := by
    simp [hyear.isDateText.isAscii, WrittenTime.isAscii_suffix]
  have hstart := hyear.startsWithDigit.append (WrittenTime.suffix w)
  have hascii := Shape.isAscii_dated hdate w
  have hbytes : byteLength (Shape.dated (month ++ s :: (day ++ s :: yy)) w).firstToken = 8 := by
    change byteLength (month ++ s :: (day ++ s :: yy)) = 8
    simp [hdate.isAscii.byteLength_eq, hday.length_eq, hmonth.length_eq, hyear.length_eq]
  have hfour : IsDigits 4 ('2' :: '0' :: yy) := 
    IsDigits.append (k := 2) (a := ['2', '0']) ⟨by simp [IsNumber], rfl⟩ hyear
  refine of_dated (by simp) hdate (ShapeRule.first?_monthDayYear htail
    (IntervalText.recognizes_dated _ _) hs hmonth hday hstart (by simp [Shape.dated])) ?_
  rw [← numberOf_of_isDigits hmonth (by decide), ← numberOf_of_isDigits hday (by decide),
    ← numberOf_of_isDigits hfour (by decide)]
  simp only [ShapeRule.read, ShapeRule.restateMonthDayYear, if_pos hbytes]
  obtain ⟨m₁, m₂, rfl, -⟩ := hmonth.exists_two
  obtain ⟨d₁, d₂, rfl, -⟩ := hday.exists_two
  obtain ⟨y₁, y₂, rfl, -⟩ := hyear.exists_two
  simp only [Shape.slice, Shape.sliceFrom, hascii.slice_eq, hascii.sliceFrom_eq]
  have hascii' : IsAscii (m₁ :: m₂ :: s :: d₁ :: d₂ :: s :: '2' :: '0' :: y₁ :: y₂ ::
      WrittenTime.suffix w) := by
    have hdate' := hdate.isAscii
    simp only [List.cons_append, List.nil_append, isAscii_cons] at hdate' htail ⊢
    exact ⟨hdate'.1, hdate'.2.1, hdate'.2.2.1, hdate'.2.2.2.1, hdate'.2.2.2.2.1, hdate'.2.2.1,
      by decide, by decide, htail⟩
  change Ending.ok (Recognition.restated ⟨_, _, _, numberOf (Text.slice 6 10 (m₁ :: m₂ :: s ::
    d₁ :: d₂ :: s :: '2' :: '0' :: y₁ :: y₂ :: WrittenTime.suffix w)), _⟩) = _
  rw [hascii'.slice_eq]
  rfl

theorem packedMonthDayYear {yy : Text} (hyear : IsDigits 2 yy) :
    Restates c (month ++ (day ++ yy) ++ WrittenTime.suffix w)
      ⟨month ++ '/' :: (day ++ '/' :: '2' :: '0' :: yy) ++ WrittenTime.suffix w,
        .ofInt (toNat day), .ofInt (toNat month), .ofInt (toNat ('2' :: '0' :: yy)), w.isNone⟩ := by
  have hdate : IsDateText (month ++ (day ++ yy)) := by
    simp [hday.isDateText, hmonth.isDateText, hyear.isDateText]
  have hascii := Shape.isAscii_dated hdate w
  have hfour : IsDigits 4 ('2' :: '0' :: yy) :=
    IsDigits.append (k := 2) (a := ['2', '0']) ⟨by simp [IsNumber], rfl⟩ hyear
  refine of_dated (by simpa using fun h => absurd h hmonth.ne_nil) hdate
    (ShapeRule.first?_packedMonthDayYear (WrittenTime.isAscii_suffix w)
      (IntervalText.recognizes_dated _ _) hmonth hday hyear rfl rfl) ?_
  rw [← numberOf_of_isDigits hmonth (by decide), ← numberOf_of_isDigits hday (by decide),
    ← numberOf_of_isDigits hfour (by decide)]
  obtain ⟨m₁, m₂, rfl, -⟩ := hmonth.exists_two
  obtain ⟨d₁, d₂, rfl, -⟩ := hday.exists_two
  obtain ⟨y₁, y₂, rfl, -⟩ := hyear.exists_two
  simp only [ShapeRule.read, ShapeRule.restatePackedMonthDayYear, Shape.slice, Shape.sliceFrom,
    hascii.slice_eq, hascii.sliceFrom_eq]
  rfl

variable (hyear : IsDigits 4 year)

include hyear

theorem dottedDayMonthYear :
    Restates c (day ++ '.' :: (month ++ '.' :: year) ++ WrittenTime.suffix w)
      ⟨month ++ '/' :: (day ++ '/' :: year) ++ WrittenTime.suffix w, .ofInt (toNat day),
        .ofInt (toNat month), .ofInt (toNat year), w.isNone⟩ := by
  have hdate : IsDateText (day ++ '.' :: (month ++ '.' :: year)) := by
    simp [hday.isDateText, hmonth.isDateText, hyear.isDateText]
  have hascii := Shape.isAscii_dated hdate w
  refine of_dated (by simp) hdate (ShapeRule.first?_dottedDayMonthYear
    (WrittenTime.isAscii_suffix w) (IntervalText.recognizes_dated _ _) hday hmonth hyear rfl rfl) ?_
  rw [← numberOf_of_isDigits hmonth (by decide), ← numberOf_of_isDigits hday (by decide),
    ← numberOf_of_isDigits hyear (by decide)]
  obtain ⟨m₁, m₂, rfl, -⟩ := hmonth.exists_two
  obtain ⟨d₁, d₂, rfl, -⟩ := hday.exists_two
  obtain ⟨y₁, y₂, y₃, y₄, rfl, -⟩ := hyear.exists_four
  simp only [ShapeRule.read, ShapeRule.restateDottedDayMonthYear, Shape.slice, Shape.sliceFrom,
    hascii.slice_eq, hascii.sliceFrom_eq]
  rfl

theorem of_yearFirst {s : Char} {p : ShapeRule} {u : Text} (hs : (s, p) ∈
      [('-', .yearMonthDay), ('.', .dottedYearMonthDay), ('_', .underscoredYearMonthDay)])
    (hread : p.read c (Shape.dated (year ++ s :: (month ++ s :: day)) w) = .ok (.restated
      (ShapeRule.restateYearMonthDay (Shape.dated (year ++ s :: (month ++ s :: day)) w) u))) :
    Restates c (year ++ s :: (month ++ s :: day) ++ WrittenTime.suffix w)
      ⟨u, .ofInt (toNat day), .ofInt (toNat month), .ofInt (toNat year), w.isNone⟩ := by
  have hmark : s ∈ ['-', '/', '.', '_'] ∧ s.utf8Size = 1 := by
    simp only [List.mem_cons, Prod.mk.injEq, List.not_mem_nil, or_false] at hs
    obtain ⟨rfl, -⟩ | ⟨rfl, -⟩ | ⟨rfl, -⟩ := hs <;> decide
  have hdate : IsDateText (year ++ s :: (month ++ s :: day)) := by
    simp only [isDateText_append, isDateText_cons]
    exact ⟨hyear.isDateText, .inr hmark.1, hmonth.isDateText, .inr hmark.1, hday.isDateText⟩
  have htail : IsAscii (day ++ WrittenTime.suffix w) :=
    isAscii_append.mpr ⟨hday.isDateText.isAscii, WrittenTime.isAscii_suffix w⟩
  have hparts := ShapeRule.restateYearMonthDay_eq
    (s := Shape.dated (year ++ s :: (month ++ s :: day)) w) (t := WrittenTime.suffix w) hyear
    hmonth hday hmark.2 hmark.2 (by simp [Shape.dated]) u
  rw [hparts] at hread
  exact of_dated (by simp) hdate (ShapeRule.first?_yearFirst htail
    (IntervalText.recognizes_dated _ _) hs hyear hmonth (by simp [Shape.dated])) hread

theorem dottedYearMonthDay :
    Restates c (year ++ '.' :: (month ++ '.' :: day) ++ WrittenTime.suffix w)
      ⟨year ++ '.' :: (month ++ '.' :: day) ++ WrittenTime.suffix w, .ofInt (toNat day),
        .ofInt (toNat month), .ofInt (toNat year), w.isNone⟩ :=
  of_yearFirst hyear hday w hmonth (p := .dottedYearMonthDay) (by simp) rfl

theorem underscoredYearMonthDay :
    Restates c (year ++ '_' :: (month ++ '_' :: day) ++ WrittenTime.suffix w)
      ⟨year ++ '.' :: (month ++ '.' :: day) ++ WrittenTime.suffix w, .ofInt (toNat day),
        .ofInt (toNat month), .ofInt (toNat year), w.isNone⟩ := by
  apply of_yearFirst hyear hday w hmonth (p := .underscoredYearMonthDay) (by simp)
  have hdate : IsDateText (year ++ '_' :: (month ++ '_' :: day)) := by
    simp [hday.isDateText, hmonth.isDateText, hyear.isDateText]
  have hascii := Shape.isAscii_dated hdate w
  obtain ⟨m₁, m₂, rfl, -⟩ := hmonth.exists_two
  obtain ⟨d₁, d₂, rfl, -⟩ := hday.exists_two
  obtain ⟨y₁, y₂, y₃, y₄, rfl, -⟩ := hyear.exists_four
  simp only [ShapeRule.read, Shape.slice, Shape.sliceFrom, hascii.slice_eq, hascii.sliceFrom_eq]
  rfl

theorem withMidnight_hyphenated : ShapeRule.withMidnight (year ++ '-' :: (month ++ '-' :: day)) =
    year ++ '-' :: (month ++ '-' :: (day ++ ' ' :: (WrittenTime.second 0 0 0).text)) := by
  have hcut := slice_append_left [] hday.byteLength_eq
  have hrest := sliceFrom_append [] hday.byteLength_eq 0
  rw [List.append_nil] at hcut hrest
  rw [ShapeRule.withMidnight_eq hyear.byteLength_eq hmonth.byteLength_eq
    (by rw [hcut]; exact hday.ne_nil), hcut, hrest]
  rfl

/-- The text of a date without a time gets midnight for one. -/
theorem yearMonthDay : Restates c (year ++ '-' :: (month ++ '-' :: day) ++ WrittenTime.suffix w)
      ⟨year ++ '-' :: (month ++ '-' :: (day ++ ' ' :: (w.getD (.second 0 0 0)).text)),
        .ofInt (toNat day), .ofInt (toNat month), .ofInt (toNat year), w.isNone⟩ := by
  apply of_yearFirst hyear hday w hmonth (p := .yearMonthDay) (by simp)
  cases w with
  | none =>
    have hmidnight := withMidnight_hyphenated hyear hday hmonth
    simp only [ShapeRule.read, Shape.dated, WrittenTime.suffix, Option.isNone_none, if_true,
      List.append_nil, hmidnight]
    rfl
  | some w => simp [ShapeRule.read, Shape.dated, WrittenTime.suffix]

theorem packedYearMonthDay : Restates c (year ++ (month ++ day) ++ WrittenTime.suffix w)
      ⟨year ++ '-' :: (month ++ '-' :: (day ++ ' ' :: (w.getD (.second 0 0 0)).text)),
        .ofInt (toNat day), .ofInt (toNat month), .ofInt (toNat year), w.isNone⟩ := by
  have hdate : IsDateText (year ++ (month ++ day)) := by
    simp [hday.isDateText, hmonth.isDateText, hyear.isDateText]
  have hdigits : IsDigits 8 (year ++ (month ++ day)) := hyear.append (hmonth.append hday)
  have hascii := Shape.isAscii_dated hdate w
  have hsix : ShapeRule.isNumberOfBytes 6 (year ++ (month ++ day)) = false :=
    ShapeRule.isNumberOfBytes_of_length hdate.isAscii (by rw [hdigits.length_eq]; decide)
  have height : ShapeRule.isNumberOfBytes 8 (year ++ (month ++ day)) = true :=
    ShapeRule.isNumberOfBytes_of_isDigits (k := 7) hdigits (by decide)
  have htimed : ShapeRule.partIsNumber 1 6 (Shape.dated (year ++ (month ++ day)) w) = false := by
    have hmark : ∀ x ∈ (Shape.dated (year ++ (month ++ day)) w).text, (x == 'T') = false := by
      intro x hx
      obtain hx | hx := List.mem_append.mp hx
      · exact beq_of_isDigit (hdigits.isNumber x hx) rfl
      · rw [beq_eq_false_iff_ne]
        rintro rfl
        exact WrittenTime.not_mem_suffix w hx
    simp [ShapeRule.partIsNumber, split_of_forall hmark]
  have hmidnight := withMidnight_hyphenated hyear hday hmonth
  refine of_dated (by simpa using fun h => absurd h hyear.ne_nil) hdate
    (ShapeRule.first?_packedYearMonthDay (WrittenTime.isAscii_suffix w)
      (IntervalText.recognizes_dated _ _) hyear hmonth hday (by simp [Shape.dated]) hsix
      (by rw [Shape.firstToken_dated, height, Bool.true_or])) ?_
  rw [← numberOf_of_isDigits hmonth (by decide), ← numberOf_of_isDigits hday (by decide),
    ← numberOf_of_isDigits hyear (by decide)]
  simp only [ShapeRule.read, ShapeRule.restatePackedYearMonthDay, htimed, Bool.false_eq_true,
    if_false]
  obtain ⟨m₁, m₂, rfl, -⟩ := hmonth.exists_two
  obtain ⟨d₁, d₂, rfl, -⟩ := hday.exists_two
  obtain ⟨y₁, y₂, y₃, y₄, rfl, -⟩ := hyear.exists_four
  simp only [hascii.slice_eq, hascii.sliceFrom_eq]
  cases w with
  | none =>
    change Ending.ok (Recognition.restated ⟨ShapeRule.withMidnight
      ([y₁, y₂, y₃, y₄] ++ '-' :: ([m₁, m₂] ++ '-' :: [d₁, d₂])), _, _, _, _⟩) = _
    rw [hmidnight]
    rfl
  | some w => rfl

/-- Colons are put between the digits of a time behind a letter. -/
theorem packedDateTime {hour minute second : Text} (hhour : IsDigits 2 hour)
    (hminute : IsDigits 2 minute) (hsecond : IsDigits 2 second) :
    Restates c (year ++ (month ++ (day ++ 'T' :: (hour ++ (minute ++ second)))))
      ⟨year ++ '-' :: (month ++ '-' :: (day ++ 'T' :: (hour ++ ':' :: (minute ++ ':' :: second)))),
        .ofInt (toNat day), .ofInt (toNat month), .ofInt (toNat year), false⟩ := by
  have hdigits : IsDigits 8 (year ++ (month ++ day)) := hyear.append (hmonth.append hday)
  have htime : IsDigits 6 (hour ++ (minute ++ second)) := hhour.append (hminute.append hsecond)
  have hdate : IsDateText (year ++ (month ++ (day ++ 'T' :: (hour ++ (minute ++ second))))) := by
    simp [hday.isDateText, hmonth.isDateText, hyear.isDateText, hhour.isDateText,
      hminute.isDateText, hsecond.isDateText]
  have hascii := Shape.isAscii_dated hdate none
  have hsplit : split (· == 'T') (year ++ (month ++ (day ++ 'T' :: (hour ++ (minute ++ second))))) =
      [year ++ (month ++ day), hour ++ (minute ++ second)] := by
    have hmark {k : Nat} {t : Text} (ht : IsDigits k t) : ∀ x ∈ t, (x == 'T') = false :=
      fun x hx => beq_of_isDigit (ht.isNumber x hx) rfl
    have happend := split_append_cons (t := hour ++ (minute ++ second)) (hmark hdigits)
      (c := 'T') rfl
    rw [split_of_forall (hmark htime)] at happend
    simpa using happend
  have height := ShapeRule.isNumberOfBytes_of_isDigits (k := 7) hdigits (by decide)
  have hsix := ShapeRule.isNumberOfBytes_of_isDigits (k := 5) htime (by decide)
  suffices h : Restates c (year ++ (month ++ (day ++ 'T' :: (hour ++ (minute ++ second)))) ++
      WrittenTime.suffix none) ⟨year ++ '-' :: (month ++ '-' :: (day ++ 'T' :: (hour ++ ':' ::
        (minute ++ ':' :: second)))), .ofInt (toNat day), .ofInt (toNat month),
        .ofInt (toNat year), false⟩ by
    rwa [WrittenTime.suffix, List.append_nil] at h
  obtain ⟨s, hs⟩ : ∃ s, s = Shape.dated
    (year ++ (month ++ (day ++ 'T' :: (hour ++ (minute ++ second))))) none := ⟨_, rfl⟩
  have htext : s.text = year ++ (month ++ (day ++ 'T' :: (hour ++ (minute ++ second)))) := by
    simp [hs, Shape.dated, WrittenTime.suffix]
  have hpart : ShapeRule.partIsNumber 0 8 s = true := by
    simp [ShapeRule.partIsNumber, htext, hsplit, height]
  have htimed : ShapeRule.partIsNumber 1 6 s = true := by
    simp [ShapeRule.partIsNumber, htext, hsplit, hsix]
  rw [← hs] at hascii
  have hrest : IsAscii ('T' :: (hour ++ (minute ++ second))) := by
    simp +decide [hhour.isDateText.isAscii, hminute.isDateText.isAscii, hsecond.isDateText.isAscii]
  refine of_dated (by simp) hdate (p := .packedYearMonthDay)
    (ShapeRule.first?_packedYearMonthDay hrest (IntervalText.recognizes_dated _ _) hyear hmonth hday
      (by rw [← hs, htext]) (ShapeRule.isNumberOfBytes_of_length hdate.isAscii ?_)
      (by rw [← hs, hpart, Bool.or_true])) ?_
  · simp [hday.length_eq, hmonth.length_eq, hyear.length_eq, hhour.length_eq, hminute.length_eq,
      hsecond.length_eq]
  have hcolons : s.slice 0 11 ++ ':' :: s.slice 11 13 ++ ':' :: s.sliceFrom 13 =
      year ++ (month ++ (day ++ 'T' :: (hour ++ ':' :: (minute ++ ':' :: second)))) := by
    rw [Shape.slice, Shape.slice, Shape.sliceFrom, hascii.slice_eq, hascii.slice_eq,
      hascii.sliceFrom_eq, htext]
    obtain ⟨y₁, y₂, y₃, y₄, rfl, -⟩ := hyear.exists_four
    obtain ⟨m₁, m₂, rfl, -⟩ := hmonth.exists_two
    obtain ⟨d₁, d₂, rfl, -⟩ := hday.exists_two
    obtain ⟨h₁, h₂, rfl, -⟩ := hhour.exists_two
    obtain ⟨i₁, i₂, rfl, -⟩ := hminute.exists_two
    rfl
  have hascii' : IsAscii
      (year ++ (month ++ (day ++ 'T' :: (hour ++ ':' :: (minute ++ ':' :: second))))) := by
    simp +decide [hday.isDateText.isAscii, hmonth.isDateText.isAscii, hyear.isDateText.isAscii,
      hhour.isDateText.isAscii, hminute.isDateText.isAscii, hsecond.isDateText.isAscii]
  rw [← numberOf_of_isDigits hmonth (by decide), ← numberOf_of_isDigits hday (by decide),
    ← numberOf_of_isDigits hyear (by decide), ← hs]
  simp only [ShapeRule.read, ShapeRule.restatePackedYearMonthDay, htimed, if_true, Bool.not_true,
    Bool.and_false, Bool.false_eq_true, if_false, hcolons, hascii'.slice_eq, hascii'.sliceFrom_eq]
  obtain ⟨y₁, y₂, y₃, y₄, rfl, -⟩ := hyear.exists_four
  obtain ⟨m₁, m₂, rfl, -⟩ := hmonth.exists_two
  obtain ⟨d₁, d₂, rfl, -⟩ := hday.exists_two
  rfl

end Restates

end Coercion
