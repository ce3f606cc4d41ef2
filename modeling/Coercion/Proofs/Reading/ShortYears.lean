import Coercion.Proofs.Reading.WrittenDates

namespace Coercion

open Calendar Text

/-- The year from 1950 to 2049 that two digits stand for. -/
def windowYear (yy : Nat) : Nat :=
  if yy < 50 then 2000 + yy else 1900 + yy

/-- The texts whose year of two digits is one from 2000 to 2099. -/
inductive IsRecentText (month day yy : Nat) : Text → Prop
  | slashed : IsRecentText month day yy
      (ofNatPadded 2 month ++ '/' :: (ofNatPadded 2 day ++ '/' :: ofNatPadded 2 yy))
  | hyphenated : IsRecentText month day yy
      (ofNatPadded 2 month ++ '-' :: (ofNatPadded 2 day ++ '-' :: ofNatPadded 2 yy))
  | packed : IsRecentText month day yy
      (ofNatPadded 2 month ++ (ofNatPadded 2 day ++ ofNatPadded 2 yy))
  | unpadded (hmonth : 10 ≤ month) (hday : 10 ≤ day) : IsRecentText month day yy
      (ofNat month ++ '/' :: (ofNat day ++ '/' :: ofNatPadded 2 yy))

/-- The texts whose year of two digits is one from 1950 to 2049. -/
inductive IsWindowText (month day yy : Nat) : Text → Prop
  | unpadded (h : month < 10 ∨ day < 10) : IsWindowText month day yy
      (ofNat month ++ '/' :: (ofNat day ++ '/' :: ofNatPadded 2 yy))
  | dayMonthName {name : Text} (hname : IsMonthName month name) : IsWindowText month day yy
      (ofNatPadded 2 day ++ '-' :: (name ++ '-' :: ofNatPadded 2 yy))
  | dottedDayMonth : IsWindowText month day yy
      (ofNatPadded 2 day ++ '.' :: (ofNatPadded 2 month ++ '.' :: ofNatPadded 2 yy))
  | monthNameDay {name : Text} (hname : IsMonthName month name) : IsWindowText month day yy
      (name ++ '-' :: (ofNatPadded 2 day ++ '-' :: ofNatPadded 2 yy))

theorem isLeapYear_of_twoDigits : ∀ yy : Nat, yy < 100 →
    isLeapYear yy = isLeapYear (2000 + yy : Nat) ∧
      isLeapYear (windowYear yy) = isLeapYear (2000 + yy : Nat) := by
  decide

theorem isValidDate_congr {y z : Int} (h : isLeapYear y = isLeapYear z) (day month : Int) :
    isValidDate day month y = isValidDate day month z := by
  simp only [isValidDate, daysInMonth, h]
  rfl

theorem Loose.year?_of_twoDigits {p : Text} (hp : IsDigits 2 p) :
    year? p = some (windowYear (toNat p) : Int) := by
  simp only [year?, number?_of_isDigits hp (by decide : 1 < 6), hp.length_eq, windowYear]
  split_ifs <;> simp [add_comm] <;> omega

theorem exists_isDigits_ofNat {n : Nat} (h : n < 100) : ∃ k < 2, IsDigits (k + 1) (ofNat n) ∧
    (k = 0 ↔ n < 10) := by
  have hpos : 0 < (ofNat n).length := Nat.length_toDigits_pos
  have hlen (k : Nat) (hk : 0 < k) : (ofNat n).length ≤ k ↔ n < 10 ^ k :=
    Nat.length_toDigits_le_iff (by decide) hk
  have hone := hlen 1 (by decide)
  have htwo := hlen 2 (by decide)
  exact ⟨(ofNat n).length - 1, by omega, ⟨isNumber_ofNat n, by omega⟩, by omega⟩

namespace Shape

theorem ofText_of_isDateText {date : Text} (hne : date ≠ []) (hdate : IsDateText date) :
    ofText date = ⟨date, [date], true⟩ := by
  have hdated := ofText_dated hne hdate none
  rwa [WrittenTime.suffix, List.append_nil, dated, WrittenTime.suffix, List.append_nil] at hdated

end Shape

namespace ShapeRule

theorem isNumberOfBytes_of_marks {p q e : Text} {s : Char} (hne : p ≠ []) (hp : IsNumber p)
    (hq : IsNumber q) (he : IsWord e) (hs : s ∈ ['/', '-', '.']) (k : Nat) :
    isNumberOfBytes k (p ++ s :: (q ++ s :: e)) = false := by
  rw [isNumberOfBytes, numberOf_of_marks hne hp hq he hs]
  exact Bool.and_false _

theorem partIsNumber_of_marks {p q e : Text} {s : Char} (hne : p ≠ []) (hp : IsNumber p)
    (hq : IsNumber q) (he : IsNumber e) (hs : s ∈ ['/', '-', '.']) (k : Nat) :
    partIsNumber 0 k ⟨p ++ s :: (q ++ s :: e), [p ++ s :: (q ++ s :: e)], true⟩ = false := by
  have hmark : ∀ x ∈ p ++ s :: (q ++ s :: e), (x == 'T') = false := by
    intro x hx
    have hmark : (s == 'T') = false := by
      simp only [List.mem_cons, List.not_mem_nil, or_false] at hs
      obtain rfl | rfl | rfl := hs <;> rfl
    simp only [List.mem_append, List.mem_cons] at hx
    obtain hx | rfl | hx | rfl | hx := hx
    · exact beq_of_isDigit (hp x hx) rfl
    · exact hmark
    · exact beq_of_isDigit (hq x hx) rfl
    · exact hmark
    · exact beq_of_isDigit (he x hx) rfl
  rw [partIsNumber, split_of_forall hmark]
  simpa using isNumberOfBytes_of_marks hne hp hq he.isWord hs k

variable {month day year : Text}

theorem first?_dottedDayMonthShortYear (hday : IsDigits 2 day) (hmonth : IsDigits 2 month)
    (hyear : IsDigits 2 year) :
    first? ⟨day ++ '.' :: (month ++ '.' :: year), [day ++ '.' :: (month ++ '.' :: year)], true⟩ =
      some dottedDayMonthYear := by
  have hnumber := isNumberOfBytes_of_marks hday.ne_nil hday.isNumber hmonth.isNumber
    hyear.isNumber.isWord (s := '.') (by simp)
  have hpart := partIsNumber_of_marks hday.ne_nil hday.isNumber hmonth.isNumber hyear.isNumber
    (s := '.') (by simp)
  have hascii : IsAscii (day ++ '.' :: (month ++ '.' :: year)) := by
    simp +decide [hday.isDateText.isAscii, hmonth.isDateText.isAscii, hyear.isDateText.isAscii]
  simp only [first?, all, List.find?_cons, recognizes, Shape.has, Shape.firstToken,
    List.headD_cons, hascii.hasAt_eq, hpart, hnumber]
  obtain ⟨d₁, d₂, rfl, hd₁, hd₂⟩ := hday.exists_two
  obtain ⟨m₁, m₂, rfl, hm₁, hm₂⟩ := hmonth.exists_two
  obtain ⟨y₁, y₂, rfl, hy₁, hy₂⟩ := hyear.exists_two
  simp [beq_of_isDigit, IntervalText.recognizes, *]

theorem first?_unpadded {i j : Nat} (hmonth : IsDigits (i + 1) month) (hday : IsDigits (j + 1) day)
    (hi : i < 2) (hj : j < 2) (h : i = 0 ∨ j = 0) (hyear : IsDigits 2 year) :
    first? ⟨month ++ '/' :: (day ++ '/' :: year), [month ++ '/' :: (day ++ '/' :: year)], true⟩ =
      if i = 0 then none else some monthDay := by
  have hnumber := isNumberOfBytes_of_marks hmonth.ne_nil hmonth.isNumber hday.isNumber
    hyear.isNumber.isWord (s := '/') (by simp)
  have hpart := partIsNumber_of_marks hmonth.ne_nil hmonth.isNumber hday.isNumber hyear.isNumber
    (s := '/') (by simp)
  have hascii : IsAscii (month ++ '/' :: (day ++ '/' :: year)) := by
    simp +decide [hday.isDateText.isAscii, hmonth.isDateText.isAscii, hyear.isDateText.isAscii]
  simp only [first?, all, List.find?_cons, recognizes, Shape.has, Shape.firstToken,
    List.headD_cons, hascii.hasAt_eq, hpart, hnumber]
  obtain ⟨y₁, y₂, rfl, hy₁, hy₂⟩ := hyear.exists_two
  obtain ⟨m₁, m, rfl, hm₁, hm⟩ := hmonth.exists_cons
  obtain ⟨d₁, d, rfl, hd₁, hd⟩ := hday.exists_cons
  interval_cases i <;> interval_cases j
  · obtain rfl := hm.eq_nil
    obtain rfl := hd.eq_nil
    simp [beq_of_isDigit, IntervalText.recognizes, *]
  · obtain ⟨d₂, u, rfl, hd₂, hu⟩ := hd.exists_cons
    obtain rfl := hm.eq_nil
    obtain rfl := hu.eq_nil
    simp [beq_of_isDigit, IntervalText.recognizes, *]
  · obtain ⟨m₂, u, rfl, hm₂, hu⟩ := hm.exists_cons
    obtain rfl := hd.eq_nil
    obtain rfl := hu.eq_nil
    simp [beq_of_isDigit, IntervalText.recognizes, *]
  · omega

end ShapeRule

namespace Restates

variable {c : Context} {date month day year name : Text} {m : Nat}

theorem of_isDateText {p : ShapeRule} {r : Restated} (hne : date ≠ []) (hdate : IsDateText date)
    (hfirst : ShapeRule.first? ⟨date, [date], true⟩ = some p)
    (hread : p.read c ⟨date, [date], true⟩ = .ok (.restated r)) : Restates c date r :=
  ⟨p, by rw [Shape.ofText_of_isDateText hne hdate, hfirst],
    by rw [Shape.ofText_of_isDateText hne hdate, hread]⟩

section

variable (hday : IsDigits 2 day) (hyear : IsDigits 2 year)

include hday hyear

theorem dayMonthNameShortYear (hname : IsMonthName m name) :
    Restates c (day ++ '-' :: (name ++ '-' :: year)) ⟨day ++ '-' :: (name ++ '-' :: year),
      .ofInt (toNat day), .ofInt m, .ofInt (toNat year), true⟩ := by
  have hdate : IsDateText (day ++ '-' :: (name ++ '-' :: year)) := by
    simp [hday.isDateText, hname.isWord.isDateText, hyear.isDateText]
  refine of_isDateText (by simp) hdate (ShapeRule.first?_dayMonthNameYear
    hyear.isDateText.isAscii rfl hday hname rfl) ?_
  rw [← hname.monthNumberOf_eq, ← numberOf_of_isDigits hday (by decide),
    ← numberOf_of_isDigits hyear (by decide)]
  have hascii := hdate.isAscii
  obtain ⟨d₁, d₂, rfl, -⟩ := hday.exists_two
  obtain ⟨n₁, n₂, n₃, rfl, -⟩ := hname.exists_three
  obtain ⟨y₁, y₂, rfl, -⟩ := hyear.exists_two
  simp only [ShapeRule.read, ShapeRule.restateDayMonthNameYear, Shape.slice, hascii.slice_eq]
  rfl

theorem monthNameDayShortYear (hname : IsMonthName m name) :
    Restates c (name ++ '-' :: (day ++ '-' :: year)) ⟨day ++ '-' :: (name ++ '-' :: year),
      .ofInt (toNat day), .ofInt m, .ofInt (toNat year), true⟩ := by
  have hdate : IsDateText (name ++ '-' :: (day ++ '-' :: year)) := by
    simp [hday.isDateText, hname.isWord.isDateText, hyear.isDateText]
  refine of_isDateText (by simp) hdate (ShapeRule.first?_monthNameDayYear (k := 0) isAscii_nil
    rfl hname hday hyear rfl (List.append_nil _).symm) ?_
  rw [← hname.monthNumberOf_eq, ← numberOf_of_isDigits hday (by decide),
    ← numberOf_of_isDigits hyear (by decide)]
  have hascii := hdate.isAscii
  obtain ⟨d₁, d₂, rfl, -⟩ := hday.exists_two
  obtain ⟨n₁, n₂, n₃, rfl, -⟩ := hname.exists_three
  obtain ⟨y₁, y₂, rfl, -⟩ := hyear.exists_two
  simp only [ShapeRule.read, ShapeRule.restateMonthNameDayYear, Shape.slice, Shape.sliceFrom,
    hascii.slice_eq, hascii.sliceFrom_eq]
  rfl

theorem dottedDayMonthShortYear (hmonth : IsDigits 2 month) :
    Restates c (day ++ '.' :: (month ++ '.' :: year)) ⟨month ++ '/' :: (day ++ '/' :: year),
      .ofInt (toNat day), .ofInt (toNat month), .ofInt (toNat year), true⟩ := by
  have hdate : IsDateText (day ++ '.' :: (month ++ '.' :: year)) := by
    simp [hday.isDateText, hmonth.isDateText, hyear.isDateText]
  refine of_isDateText (by simp) hdate
    (ShapeRule.first?_dottedDayMonthShortYear hday hmonth hyear) ?_
  rw [← numberOf_of_isDigits hmonth (by decide), ← numberOf_of_isDigits hday (by decide),
    ← numberOf_of_isDigits hyear (by decide)]
  have hascii := hdate.isAscii
  obtain ⟨d₁, d₂, rfl, -⟩ := hday.exists_two
  obtain ⟨m₁, m₂, rfl, -⟩ := hmonth.exists_two
  obtain ⟨y₁, y₂, rfl, -⟩ := hyear.exists_two
  simp only [ShapeRule.read, ShapeRule.restateDottedDayMonthYear, Shape.slice, Shape.sliceFrom,
    hascii.slice_eq, hascii.sliceFrom_eq]
  rfl

end

end Restates

section

variable {month day year : Text} {i j : Nat} (hmonth : IsDigits (i + 1) month)
  (hday : IsDigits (j + 1) day) (hi : i < 2) (hj : j < 2) (hyear : IsDigits 2 year)

include hmonth hday hi hj hyear

theorem result_toDate_unpadded (c : Context) (h : i = 0 ∨ j = 0) :
    (Dates.toDate c (.text (month ++ '/' :: (day ++ '/' :: year)))).result =
      .ofExcept ((Restated.unchanged ⟨month ++ '/' :: (day ++ '/' :: year),
        [month ++ '/' :: (day ++ '/' :: year)], true⟩).read c) := by
  have hdate : IsDateText (month ++ '/' :: (day ++ '/' :: year)) := by
    simp [hday.isDateText, hmonth.isDateText, hyear.isDateText]
  have hbytes : byteLength (month ++ '/' :: (day ++ '/' :: year)) ≠ 5 := by
    rw [hdate.isAscii.byteLength_eq]
    simp only [List.length_append, List.length_cons, hmonth.length_eq, hday.length_eq,
      hyear.length_eq]
    omega
  rw [Dates.result_toDate_text, Shape.ofText_of_isDateText (by simp) hdate,
    ShapeRule.first?_unpadded hmonth hday hi hj h hyear]
  split_ifs
  · rfl
  · dsimp only
    rw [ShapeRule.read, ShapeRule.readMonthDay, Shape.firstToken, List.headD_cons,
      if_neg hbytes]
    rfl

theorem wallReading?_shortYear :
    wallReading? (trim (month ++ '/' :: (day ++ '/' :: year))) =
      WallReading.of? ⟨windowYear (toNat year), toNat month, toNat day⟩ .midnight none := by
  have hdate := Loose.date?_of_parts hmonth.isNumber.isWord hday.isNumber.isWord
    hyear.isNumber.isWord (s := '/') (by tauto)
  rw [Loose.month?_of_isDigits hday, if_neg (by rw [hmonth.length_eq]; omega),
    Loose.year?_of_twoDigits hyear, Loose.number?_of_isDigits hmonth hi,
    Loose.number?_of_isDigits hday hj] at hdate
  have hread := wallReading?_of_parts hmonth.isNumber hmonth.ne_nil
    (by rw [hmonth.length_eq]; omega) hday.isNumber.isWord hyear.isNumber.isWord (by simp) hdate
    (w := none) (by simp)
  rwa [WrittenTime.suffix, List.append_nil] at hread

end

theorem wallReading?_shortYear_named {day name year : Text} {m j : Nat}
    (hday : IsDigits (j + 1) day) (hj : j < 2) (hname : IsMonthName m name)
    (hyear : IsDigits 2 year) :
    wallReading? (trim (day ++ '-' :: (name ++ '-' :: year))) =
      WallReading.of? ⟨windowYear (toNat year), m, toNat day⟩ .midnight none := by
  have hdate := Loose.date?_of_parts hday.isNumber.isWord hname.isWord
    hyear.isNumber.isWord (s := '-') (by tauto)
  rw [hname.month?_eq, Loose.year?_of_twoDigits hyear,
    Loose.number?_of_isDigits hday hj] at hdate
  have hread := wallReading?_of_parts hday.isNumber hday.ne_nil (by rw [hday.length_eq]; omega)
    hname.isWord hyear.isNumber.isWord (by simp) hdate (w := none) (by simp)
  rwa [WrittenTime.suffix, List.append_nil] at hread

section

variable {year month day yy : Nat} {c : Context} {t u : Text}

theorem exists_instant {w : Option WrittenTime} (hvalid : isValidDate day month year = true)
    (hyear : year < 10000) (hw : ∀ v ∈ w, v.IsValid) (hread : wallReading? (trim u) =
      WallReading.of? ⟨year, month, day⟩ (WrittenTime.suffixTime w) none) (z : Zone) :
    ∃ (instant : Int) (_ : inRange instant = true),
      z.instantOfLocal? (writtenWall year month day w) = some instant ∧
      instantOfText? z u = some instant := by
  have hbound := natAbs_writtenWall_lt hyear hvalid hw
  obtain ⟨instant, hinstant⟩ := z.exists_instantOfLocal?_eq hbound
  have hrange := Zone.instantOfLocal?_eq_some hinstant
  refine ⟨instant, hrange, hinstant, ?_⟩
  rw [of?_of_isValidDate hvalid] at hread
  rw [instantOfText?, hread, Option.bind_some, WallReading.instant?, z.filter_instantOfLocal?,
    hinstant]

theorem Restates.exists_instant {w : Option WrittenTime} {checked : Nat}
    (h : Restates c t ⟨u, .ofInt day, .ofInt month, .ofInt checked, w.isNone⟩)
    (hchecked : isValidDate day month checked = true)
    (hvalid : isValidDate day month year = true) (hyear : year < 10000) (hlt : checked < 10000)
    (hw : ∀ v ∈ w, v.IsValid) (hread : wallReading? (trim u) =
      WallReading.of? ⟨year, month, day⟩ (WrittenTime.suffixTime w) none) :
    ∃ (instant : Int) (_ : inRange instant = true),
      c.zone.instantOfLocal? (writtenWall year month day w) = some instant ∧
      (Dates.toDate c (.text t)).result = .ok (.instant instant w.isNone) := by
  obtain ⟨hm, hm', hd, hd'⟩ := Date.IsValid.bounds (d := ⟨year, month, day⟩) hvalid
  dsimp only at hm hm' hd hd'
  obtain ⟨instant, hrange, hinstant, htext⟩ :=
    Coercion.exists_instant hvalid hyear hw hread c.zone
  refine ⟨instant, hrange, hinstant, ?_⟩
  rw [h.result_toDate, Restated.read_of_integers rfl rfl rfl (by omega) (by omega) (by omega),
    if_neg (by simp [hchecked])]
  dsimp only
  rw [htext, Temporal.ofInstant_some hrange]
  rfl

theorem IsRecentText.exists_midnight (ht : IsRecentText month day yy t) (hyy : yy < 100)
    (hvalid : isValidDate day month (2000 + yy : Nat) = true) :
    ∃ (instant : Int) (_ : inRange instant = true),
      c.zone.instantOfLocal? (writtenWall (2000 + yy) month day none) = some instant ∧
      (Dates.toDate c (.text t)).result = .ok (.instant instant true) := by
  obtain ⟨hm, hm', hd, hd'⟩ := Date.IsValid.bounds (d := ⟨(2000 + yy : Nat), month, day⟩) hvalid
  dsimp only at hm hm' hd hd'
  have hwritten : IsWritten month day (2000 + yy) none t := by
    have hslashed := @IsWritten.slashedMonthDayShortYear month day _ hyy none
    have hhyphenated := @IsWritten.monthDayShortYear month day _ hyy none
    have hpacked := @IsWritten.packedMonthDayYear month day _ hyy none
    rw [WrittenTime.suffix, List.append_nil] at hslashed hhyphenated hpacked
    cases ht with
    | slashed => exact hslashed
    | hyphenated => exact hhyphenated
    | packed => exact hpacked
    | unpadded hmonth hday =>
      rwa [← ofNatPadded_of_pow_le (k := 1) hmonth, ← ofNatPadded_of_pow_le (k := 1) hday]
  obtain ⟨u, hrestates, hread⟩ :=
    hwritten.exists_restated (c := c) (by omega) (by omega) (by omega) (by simp)
  exact hrestates.exists_instant (w := none) hvalid hvalid (by omega) (by omega) (by simp) hread

theorem IsWindowText.exists_midnight (ht : IsWindowText month day yy t) (hyy : yy < 100)
    (hvalid : isValidDate day month (2000 + yy : Nat) = true) :
    ∃ (instant : Int) (_ : inRange instant = true),
      c.zone.instantOfLocal? (writtenWall (windowYear yy) month day none) = some instant ∧
      (Dates.toDate c (.text t)).result = .ok (.instant instant true) := by
  obtain ⟨hm, hm', hd, hd'⟩ := Date.IsValid.bounds (d := ⟨(2000 + yy : Nat), month, day⟩) hvalid
  dsimp only at hm hm' hd hd'
  obtain ⟨hleap, hleap'⟩ := isLeapYear_of_twoDigits yy hyy
  have hchecked := isValidDate_congr hleap day month
  have hwindow := isValidDate_congr hleap' day month
  rw [hvalid] at hchecked hwindow
  have hyear : windowYear yy < 10000 := by
    unfold windowYear
    split_ifs <;> omega
  have hday := isDigits_ofNatPadded (k := 2) (n := day) (by decide) (by omega)
  have hmonth := isDigits_ofNatPadded (k := 2) (n := month) (by decide) (by omega)
  have hyy' := isDigits_ofNatPadded (k := 2) (by decide) hyy
  have hnamed {name : Text} (hname : IsMonthName month name) :=
    wallReading?_shortYear_named hday (by decide) hname hyy'
  have hslashed := wallReading?_shortYear hmonth hday (by decide) (by decide) hyy'
  simp only [toNat_ofNatPadded] at hnamed hslashed
  cases ht with
  | unpadded h =>
    obtain ⟨i, hi, hmonth', hi'⟩ := exists_isDigits_ofNat (n := month) (by omega)
    obtain ⟨j, hj, hday', hj'⟩ := exists_isDigits_ofNat (n := day) (by omega)
    have hread := wallReading?_shortYear hmonth' hday' hi hj hyy'
    simp only [toNat_ofNatPadded, toNat_ofNat] at hread
    obtain ⟨instant, hrange, hinstant, htext⟩ :=
      exists_instant (w := none) hwindow hyear (by simp) hread c.zone
    refine ⟨instant, hrange, hinstant, ?_⟩
    rw [result_toDate_unpadded hmonth' hday' hi hj hyy' c (h.imp hi'.mpr hj'.mpr),
      Restated.read_unchanged]
    dsimp only
    rw [htext, Temporal.ofInstant_some hrange]
    rfl
  | dayMonthName hname =>
    have hrestates := Restates.dayMonthNameShortYear (c := c) hday hyy' hname
    simp only [toNat_ofNatPadded] at hrestates
    exact hrestates.exists_instant (w := none) hchecked hwindow hyear (by omega) (by simp)
      (hnamed hname)
  | dottedDayMonth =>
    have hrestates := Restates.dottedDayMonthShortYear (c := c) hday hyy' hmonth
    simp only [toNat_ofNatPadded] at hrestates
    exact hrestates.exists_instant (w := none) hchecked hwindow hyear (by omega) (by simp)
      hslashed
  | monthNameDay hname =>
    have hrestates := Restates.monthNameDayShortYear (c := c) hday hyy' hname
    simp only [toNat_ofNatPadded] at hrestates
    exact hrestates.exists_instant (w := none) hchecked hwindow hyear (by omega) (by simp)
      (hnamed hname)

end

/-- A year of two digits is from 2000 to 2099 in some shapes and from 1950 to 2049 in the others, so
that all shapes agree on the years up to 2049. -/
theorem toDate_shortYear (c : Context) {month day yy : Nat} (hyy : yy < 100)
    (hvalid : isValidDate day month (2000 + yy : Nat) = true) :
    ∃ (recent window : Int) (_ : inRange recent = true) (_ : inRange window = true),
      c.zone.instantOfLocal? (writtenWall (2000 + yy) month day none) = some recent ∧
      c.zone.instantOfLocal? (writtenWall (windowYear yy) month day none) = some window ∧
      (yy < 50 → window = recent) ∧
      (∀ t, IsRecentText month day yy t →
        (Dates.toDate c (.text t)).result = .ok (.instant recent true)) ∧
      ∀ t, IsWindowText month day yy t →
        (Dates.toDate c (.text t)).result = .ok (.instant window true) := by
  obtain ⟨recent, hrange, hrecent, -⟩ :=
    (IsRecentText.slashed : IsRecentText month day yy _).exists_midnight (c := c) hyy hvalid
  obtain ⟨window, hrange', hwindow, -⟩ :=
    (IsWindowText.dottedDayMonth : IsWindowText month day yy _).exists_midnight (c := c) hyy hvalid
  refine ⟨recent, window, hrange, hrange', hrecent, hwindow, fun hlt => ?_, fun t ht => ?_,
    fun t ht => ?_⟩
  · rw [windowYear, if_pos hlt, hrecent] at hwindow
    exact (Option.some.inj hwindow).symm
  · obtain ⟨instant, _, hinstant, hresult⟩ := ht.exists_midnight (c := c) hyy hvalid
    obtain rfl : recent = instant := Option.some.inj (hrecent.symm.trans hinstant)
    exact hresult
  · obtain ⟨instant, _, hinstant, hresult⟩ := ht.exists_midnight (c := c) hyy hvalid
    obtain rfl : window = instant := Option.some.inj (hwindow.symm.trans hinstant)
    exact hresult

theorem toDate_shortYear_march : (75 < 100 ∧ isValidDate 17 3 (2000 + 75 : Nat) = true) ∧
    (Dates.toDate ⟨.fixed .utc, .fixed 0⟩ (.text "031775".toList)).result =
      .ok (.instant 3320006400000 true) ∧
    (Dates.toDate ⟨.fixed .utc, .fixed 0⟩ (.text "3/17/75".toList)).result =
      .ok (.instant 164246400000 true) := by
  have hvalid : isValidDate (17 : Nat) (3 : Nat) (2000 + 75 : Nat) = true := by decide
  obtain ⟨recent, window, _, _, hrecent, hwindow, -, hrecent', hwindow'⟩ :=
    toDate_shortYear ⟨.fixed .utc, .fixed 0⟩ (by decide) hvalid
  obtain rfl : 3320006400000 = recent := Option.some.inj hrecent
  obtain rfl : 164246400000 = window := Option.some.inj hwindow
  exact ⟨by decide, hrecent' _ .packed, hwindow' _ (.unpadded (by decide))⟩

theorem shortYear_differs : isValidDate 17 3 (2000 + 75 : Nat) = true ∧
    (Dates.toDate ⟨.fixed .utc, .fixed 0⟩ (.text "03/17/75".toList)).result ≠
      (Dates.toDate ⟨.fixed .utc, .fixed 0⟩ (.text "17-mar-75".toList)).result := by
  decide +kernel

end Coercion
