import Coercion.Proofs.Reading.CheckedDates
import Coercion.Proofs.Reading.ShortYears
import Coercion.Proofs.Reading.WrittenReadings
import Coercion.Proofs.Text.Replacing

namespace Coercion

open Calendar Text

namespace Rendering

/-- Year, month and day with hyphens between them, and a time to the second. -/
def isoPattern : Text := "YYYY-MM-DD HH24:MI:SS".toList

theorem isoPattern_eq : isoPattern = "YYYY".toList ++ ("-".toList ++ ("MM".toList ++
    ("-".toList ++ ("DD".toList ++ (" ".toList ++ ("HH24".toList ++ (":".toList ++ ("MI".toList ++
      (":".toList ++ ("SS".toList ++ [])))))))))) := rfl

theorem byPattern_isoPattern (c : Civil) : byPattern isoPattern c =
    ofInt c.year ++ '-' :: (ofNatPadded 2 c.month ++ '-' :: ofNatPadded 2 c.day) ++
      WrittenTime.suffix (some (.ofCivil c)) := by
  have hmonths : monthTokens c isoPattern = [("MM", ofNatPadded 2 c.month)] := rfl
  have hnumber (n : Nat) := isNumber_ofNatPadded 2 n
  -- The one token whose first letter stands in the pattern without being replaced.
  have hhour (r t : Text) : replaceFirst "HH12".toList r ("HH24".toList ++ t) =
      "HH24".toList ++ replaceFirst "HH12".toList r t := rfl
  rw [byPattern, hmonths, tokens, isoPattern_eq]
  simp (disch := first
    | decide
    | exact startsOutside_of_isNumber (by decide) (hnumber _)
    | refine startsOutside_ofInt ?_ _; decide) only
    [List.cons_append, List.nil_append, List.foldl_cons, List.foldl_nil, replaceFirst_append,
      replaceFirst_of_startsOutside, replaceFirst_token, hhour]
  simp [WrittenTime.suffix, WrittenTime.text, WrittenTime.ofCivil]

end Rendering

section

variable {year month day : Text} {k : Nat}

theorem ShapeRule.first?_unpaddedYear (hyear : IsDigits (k + 1) year) (hk : k = 0 ∨ k = 2)
    (hmonth : IsDigits 2 month) (hday : IsDigits 2 day) (w : WrittenTime) :
    first? (Shape.dated (year ++ '-' :: (month ++ '-' :: day)) (some w)) =
      if k = 0 then none else some monthNameDayYear := by
  have hdate : IsDateText (year ++ '-' :: (month ++ '-' :: day)) := by
    simp [hyear.isDateText, hmonth.isDateText, hday.isDateText]
  have hascii := Shape.isAscii_dated hdate (some w)
  have hnumber := isNumberOfBytes_of_marks hyear.ne_nil hyear.isNumber hmonth.isNumber
    hday.isNumber.isWord (s := '-') (by simp)
  have hpairs : IntervalText.recognizes
      (Shape.dated (year ++ '-' :: (month ++ '-' :: day)) (some w)).tokens = false :=
    IntervalText.recognizes_dated _ _
  have hpart {c : Char}
      (hat : (Shape.dated (year ++ '-' :: (month ++ '-' :: day)) (some w)).text[8]? = some c) :=
    partIsNumber_zero hascii hat
  simp only [first?, all, List.find?_cons, recognizes, Shape.has, hascii.hasAt_eq, hpairs,
    Shape.firstToken_dated, hnumber]
  obtain ⟨h, t, htime, hh⟩ := w.startsWithDigit_text
  obtain ⟨m₁, m₂, rfl, hm₁, hm₂⟩ := hmonth.exists_two
  obtain ⟨d₁, d₂, rfl, hd₁, hd₂⟩ := hday.exists_two
  obtain ⟨y₁, u, rfl, hy₁, hu⟩ := hyear.exists_cons
  obtain rfl | rfl := hk
  · obtain rfl := hu.eq_nil
    rw [hpart (c := h) (by simp [Shape.dated, WrittenTime.suffix, htime]) (beq_of_isDigit hh rfl)]
    simp [Shape.dated, WrittenTime.suffix, beq_of_isDigit, *]
  · obtain ⟨y₂, y₃, rfl, hy₂, hy₃⟩ := hu.exists_two
    rw [hpart (c := d₂) (by simp [Shape.dated]) (beq_of_isDigit hd₂ rfl)]
    simp [Shape.dated, WrittenTime.suffix, beq_of_isDigit, *]

theorem result_toDate_threeDigitYear (c : Context) (hyear : IsDigits 3 year)
    (hmonth : IsDigits 2 month) (hpos : 0 < toNat month) (hday : IsDigits 2 day) (w : WrittenTime)
    (v : Temporal) : (Dates.toDate c
      (.text (year ++ '-' :: (month ++ '-' :: day) ++ WrittenTime.suffix (some w)))).result ≠
        .ok v := by
  have hdate : IsDateText (year ++ '-' :: (month ++ '-' :: day)) := by
    simp [hyear.isDateText, hmonth.isDateText, hday.isDateText]
  obtain ⟨s, hs⟩ : ∃ s, s = Shape.dated (year ++ '-' :: (month ++ '-' :: day)) (some w) := ⟨_, rfl⟩
  have hrestates : Restates c (year ++ '-' :: (month ++ '-' :: day) ++ WrittenTime.suffix (some w))
      (ShapeRule.restateMonthNameDayYear s) :=
    .of_dated (by simp) hdate (ShapeRule.first?_unpaddedYear hyear (.inr rfl) hmonth hday w)
      (by rw [hs]; rfl)
  have htext : s.text = year ++ '-' :: (month ++ '-' :: (day ++ WrittenTime.suffix (some w))) := by
    simp [hs, Shape.dated]
  have hname : (ShapeRule.restateMonthNameDayYear s).month = monthNumberOf year := by
    simp only [ShapeRule.restateMonthNameDayYear, Shape.slice, htext]
    rw [slice_append_left _ hyear.byteLength_eq]
  have hnumber : (ShapeRule.restateMonthNameDayYear s).day = .ofInt (toNat month) := by
    simp only [ShapeRule.restateMonthNameDayYear, Shape.slice, htext]
    rw [slice_between (n := 3) (k := 2) hyear.byteLength_eq hmonth.byteLength_eq (by decide),
      numberOf_of_isDigits hmonth (by decide)]
  rw [hrestates.result_toDate]
  intro hok
  obtain ⟨hcheck, -⟩ := Restated.exists_reading (Ending.ofExcept_eq_ok.mp hok)
  have hlt := toNat_lt hmonth.isNumber
  rw [hmonth.length_eq] at hlt
  have hpositive : (ShapeRule.restateMonthNameDayYear s).day.isPositive = true := by
    rw [hnumber, Double.isPositive_ofInt (by omega)]
    simpa using hpos
  obtain ⟨-, -, -, d, m, y, -, hm, hvalid⟩ := Restated.check_eq_ok hcheck hpositive
  have hone : 1 ≤ m := by
    simp only [isValidDate, Bool.and_eq_true, decide_eq_true_eq] at hvalid
    exact hvalid.1.1.1
  rw [hname] at hm
  obtain ⟨n, -, hn⟩ := isMonthName_of_integer? hm hone
  obtain ⟨a, b, e, rfl, ha, -⟩ := hn.exists_three
  rw [not_isAlpha_of_isDigit (hyear.isNumber a (by simp))] at ha
  cases ha

theorem wallReading?_oneDigitYear (hyear : IsDigits 1 year) (hmonth : IsDigits 2 month)
    (hday : IsDigits 2 day) {w : WrittenTime} (hw : w.IsValid) :
    wallReading? (trim (year ++ '-' :: (month ++ '-' :: day) ++ WrittenTime.suffix (some w))) =
      WallReading.of? ⟨windowYear (toNat day), toNat year, toNat month⟩ w.dayTime none := by
  have hdate := Loose.date?_of_parts hyear.isNumber.isWord hmonth.isNumber.isWord
    hday.isNumber.isWord (s := '-') (by tauto)
  rw [Loose.month?_of_isDigits hmonth, if_neg (by rw [hyear.length_eq]; decide),
    Loose.year?_of_twoDigits hday, Loose.number?_of_isDigits hyear (by decide),
    Loose.number?_of_isDigits hmonth (by decide)] at hdate
  exact wallReading?_of_parts hyear.isNumber hyear.ne_nil (by rw [hyear.length_eq]; decide)
    hmonth.isNumber.isWord hday.isNumber.isWord (by simp) hdate (w := some w) (by simpa using hw)

end

theorem Restated.localYear_of_read {c : Context} {o : Offset} (hzone : c.zone = .fixed o)
    {r : Restated} {v : Temporal} (hok : r.read c = .ok v) {year month day : Nat}
    {w : WrittenTime} (hw : w.IsValid)
    (hread : wallReading? (trim r.text) = WallReading.of? ⟨year, month, day⟩ w.dayTime none)
    (hday : day ≤ 12) : (c.localFields v.millis).year = year := by
  obtain ⟨-, reading, hreading, hinstant⟩ := Restated.exists_reading hok
  have htime : w.dayTime.InDay :=
    ⟨hw.1, hw.2.1, hw.2.2, by cases w <;> exact Nat.zero_lt_succ _⟩
  obtain ⟨hof, hoffset⟩ := WallReading.isOf_of_of? (hread.symm.trans hreading) htime
  obtain ⟨hm, hm', hd, -, hwall⟩ := hof.wall_div
  dsimp only at hm hm' hd hwall
  have hvalid : (⟨year, month, day⟩ : Date).IsValid := by
    have hlast := (daysInMonth_bounds year month).1
    refine (Date.isValid_iff _).mpr ⟨hm, hm', hd, ?_⟩
    dsimp only
    omega
  rw [WallReading.instant?, hoffset, hzone] at hinstant
  have hdate := Civil.ofMillis_date reading.wall
  have hnumber := dateOfDay_number hvalid
  rw [Date.number] at hnumber
  rw [hwall, hnumber] at hdate
  rw [Context.localFields, hzone, Zone.wallAt_of_instantOfLocal? hinstant]
  exact (Date.mk.inj hdate).1

section

variable {c : Context} {wall : Int} {year : Nat} (hyear : (Civil.ofMillis wall).year = year)

include hyear

theorem Rendering.byPattern_isoPattern_natCast : byPattern isoPattern (.ofMillis wall) =
    ofNat year ++ '-' :: (ofNatPadded 2 (Civil.ofMillis wall).month ++
      '-' :: ofNatPadded 2 (Civil.ofMillis wall).day) ++
        WrittenTime.suffix (some (.ofCivil (.ofMillis wall))) := by
  rw [byPattern_isoPattern, hyear, ofInt_natCast]

theorem Dates.result_toDate_isoText (hlow : 1000 ≤ year) (hlt : year < 10000) :
    (toDate c (.text (Rendering.byPattern Rendering.isoPattern (.ofMillis wall)))).result =
      c.zone.dateOfLocal (wall / millisPerSecond * millisPerSecond) false := by
  have hvalid := Civil.ofMillis_isValid wall
  have hof := WallReading.of?_ofMillis wall none
  rw [hyear] at hvalid hof
  rw [Rendering.byPattern_isoPattern_natCast hyear, ← ofNatPadded_of_pow_le (k := 3) hlow]
  exact (IsWritten.yearMonthDay year (some (.ofCivil (.ofMillis wall)))).result_toDate hlt hvalid
    (fun _ hv => Option.some.inj hv ▸ Civil.ofMillis_time wall) hof

theorem Dates.le_localYear_of_isoText {o : Offset} (hzone : c.zone = .fixed o) (hlt : year < 1000)
    {v : Temporal} (hok : (toDate c
      (.text (Rendering.byPattern Rendering.isoPattern (.ofMillis wall)))).result = .ok v) :
    1950 ≤ (c.localFields v.millis).year := by
  obtain ⟨hm, hm', hd, hd'⟩ := Civil.ofMillis_bounds wall
  have htime : (WrittenTime.ofCivil (.ofMillis wall)).IsValid := Civil.ofMillis_time wall
  have hmonth : IsDigits 2 (ofNatPadded 2 (Civil.ofMillis wall).month) :=
    isDigits_ofNatPadded (by decide) (by omega)
  have hday : IsDigits 2 (ofNatPadded 2 (Civil.ofMillis wall).day) :=
    isDigits_ofNatPadded (by decide) (by omega)
  rw [Rendering.byPattern_isoPattern_natCast hyear] at hok
  obtain hone | htwo | hthree : year < 10 ∨ (10 ≤ year ∧ year < 100) ∨ 100 ≤ year := by omega
  · obtain ⟨k, -, hdigits, hk⟩ := exists_isDigits_ofNat (n := year) (by omega)
    obtain rfl := hk.mpr hone
    have hdate : IsDateText (ofNat year ++ '-' :: (ofNatPadded 2 (Civil.ofMillis wall).month ++
        '-' :: ofNatPadded 2 (Civil.ofMillis wall).day)) := by
      simp [hdigits.isDateText, hmonth.isDateText, hday.isDateText]
    have hread := wallReading?_oneDigitYear hdigits hmonth hday htime
    rw [result_toDate_text, Shape.ofText_dated (by simp) hdate,
      ShapeRule.first?_unpaddedYear hdigits (.inl rfl) hmonth hday, if_pos rfl] at hok
    rw [toNat_ofNatPadded, toNat_ofNatPadded] at hread
    rw [Restated.localYear_of_read hzone (Ending.ofExcept_eq_ok.mp hok) htime hread hm']
    unfold windowYear
    split_ifs <;> omega
  · rw [← ofNatPadded_of_pow_le (k := 1) htwo.1] at hok
    have hwritten := @IsWritten.monthDayShortYear year (Civil.ofMillis wall).month
      (Civil.ofMillis wall).day (by omega) (some (.ofCivil (.ofMillis wall)))
    obtain ⟨u, hrestates, hread⟩ :=
      hwritten.exists_restated (c := c) (by omega) htwo.2 (by omega) (by simpa using htime)
    rw [hrestates.result_toDate, Ending.ofExcept_eq_ok] at hok
    rw [Restated.localYear_of_read hzone hok htime hread hm']
    omega
  · have hdigits := isDigits_ofNatPadded (k := 3) (by decide) hlt
    rw [← ofNatPadded_of_pow_le (k := 2) hthree] at hok
    exact absurd hok (result_toDate_threeDigitYear c hdigits hmonth
      (by rwa [toNat_ofNatPadded]) hday _ v)

end

/-- An instant written by the pattern of ISO dates comes back to the second exactly if its year has
four digits. The texts of earlier years are refused, or read in years from 1950 on. -/
theorem toDate_isoPattern {c : Context} {o : Offset} (hzone : c.zone = .fixed o) {millis : Int}
    (dateOnly : Bool) (h : inRange millis = true)
    (hyear : 0 ≤ (c.localFields millis).year ∧ (c.localFields millis).year ≤ 9999) :
    ∃ t, (Dates.toText c (some Rendering.isoPattern) (.value (.instant millis dateOnly))).result =
        .ok t ∧
      ((Dates.toDate c (.text t)).result =
          .ok (.instant (millis / millisPerSecond * millisPerSecond) false (inRange_floor h)) ↔
        1000 ≤ (c.localFields millis).year) ∧
      ((c.localFields millis).year < 1000 → ∀ v, (Dates.toDate c (.text t)).result = .ok v →
        1950 ≤ (c.localFields v.millis).year) := by
  obtain ⟨year, hlt, hnat⟩ := Civil.exists_natYear hyear
  have hshort (hlow : (c.localFields millis).year < 1000) {v : Temporal} :=
    Dates.le_localYear_of_isoText (v := v) hnat hzone (by rwa [Context.localFields, hnat,
      Nat.cast_lt_ofNat] at hlow)
  refine ⟨_, rfl, ⟨fun hok => ?_, fun hlow => ?_⟩, fun hlow v hok => hshort hlow hok⟩
  · by_contra hlow
    have hother := hshort (not_le.mp hlow) hok
    have hsame : (Civil.ofMillis (c.zone.wallAt millis / millisPerSecond * millisPerSecond)).year =
        (Civil.ofMillis (c.zone.wallAt millis)).year := by
      rw [Civil.ofMillis, floor_ediv_day]
      rfl
    rw [Temporal.millis, Context.localFields, c.zone.wallAt_floor, hsame] at hother
    exact hlow (le_trans (by decide) hother)
  · have hresult := Dates.result_toDate_isoText (c := c) hnat
      (by rwa [Context.localFields, hnat, Nat.ofNat_le_cast] at hlow) hlt
    refine hresult.trans ?_
    rw [hzone, Zone.dateOfLocal, Zone.instantOfLocal?_floor o h,
      Temporal.ofInstant_some (inRange_floor h), Ending.ofExcept_ok]

theorem toDate_isoPattern_march : inRange 1584452730123 = true ∧
    (0 ≤ (Context.localFields ⟨.fixed ⟨330, by decide⟩, .fixed 0⟩ 1584452730123).year ∧
      (Context.localFields ⟨.fixed ⟨330, by decide⟩, .fixed 0⟩ 1584452730123).year ≤ 9999) ∧
    ∃ t, (Dates.toText ⟨.fixed ⟨330, by decide⟩, .fixed 0⟩ (some Rendering.isoPattern)
        (.value (.instant 1584452730123 true))).result = .ok t ∧
      (Dates.toDate ⟨.fixed ⟨330, by decide⟩, .fixed 0⟩ (.text t)).result =
        .ok (.instant 1584452730000 false) := by
  have hrange : inRange 1584452730123 = true := by decide
  have hyear : 0 ≤ (Context.localFields ⟨.fixed ⟨330, by decide⟩, .fixed 0⟩ 1584452730123).year ∧
      (Context.localFields ⟨.fixed ⟨330, by decide⟩, .fixed 0⟩ 1584452730123).year ≤ 9999 := by
    decide
  obtain ⟨t, htext, hread, -⟩ := toDate_isoPattern rfl true hrange hyear
  exact ⟨hrange, hyear, t, htext, hread.mpr (by decide)⟩

theorem toDate_isoPattern_shortYear : ¬ ∀ (c : Context) (o : Offset) (millis : Int)
    (dateOnly : Bool) (h : inRange millis = true), c.zone = .fixed o →
    0 ≤ (c.localFields millis).year ∧ (c.localFields millis).year ≤ 9999 →
    ∃ t, (Dates.toText c (some Rendering.isoPattern) (.value (.instant millis dateOnly))).result =
        .ok t ∧
      (Dates.toDate c (.text t)).result =
        .ok (.instant (millis / millisPerSecond * millisPerSecond) false (inRange_floor h)) := by
  intro h
  have htext : (Dates.toText ⟨.fixed .utc, .fixed 0⟩ (some Rendering.isoPattern)
      (.value (.instant (-61781912070000) false))).result = .ok "12-03-17 13:45:30".toList := by
    decide +kernel
  have hread : (Dates.toDate ⟨.fixed .utc, .fixed 0⟩ (.text "12-03-17 13:45:30".toList)).result =
      .ok (.instant 1512308730000 false) := by
    decide +kernel
  obtain ⟨t, ht, hresult⟩ := h ⟨.fixed .utc, .fixed 0⟩ .utc (-61781912070000) false (by decide)
    rfl (by decide)
  obtain rfl := Ending.ok.inj (htext.symm.trans ht)
  rw [hread] at hresult
  exact absurd hresult (by decide)

end Coercion
