import Coercion.Proofs.Double.Arithmetic
import Coercion.Proofs.Reading.ShortYears
import Coercion.Proofs.Reading.WrittenReadings

namespace Coercion

open Calendar Text

theorem instantOfMillis_of_integer? {seconds : Double} {n : Int} (hn : seconds.integer? = some n)
    (h : inRange (n * millisPerSecond) = true) :
    instantOfMillis (seconds.mul (.ofInt 1000)) = .ok (.instant (n * millisPerSecond) false) := by
  simp only [inRange, Bool.and_eq_true, decide_eq_true_eq] at h
  obtain ⟨hfinite, hvalue⟩ := Double.toRat_of_integer? hn
  have hsmall : (n * millisPerSecond).natAbs < 9007199254740992 := by
    unfold maxInstant millisPerDay at h
    omega
  have hmul := Double.mul_rounds hfinite (Double.isFinite_ofInt (n := 1000) (by decide))
  have hproduct : seconds.toRat * (Double.ofInt 1000).toRat = (n * millisPerSecond : Int) := by
    rw [hvalue, Double.toRat_ofInt (by decide), millisPerSecond]
    push_cast
    rfl
  rw [hproduct] at hmul
  obtain ⟨hfinite', hvalue'⟩ := hmul.of_integer hsmall
  have hrange : |towardZero (seconds.mul (.ofInt 1000)).toRat| ≤ maxInstant := by
    rw [hvalue', towardZero_intCast, abs_le]
    exact h
  obtain ⟨hwithin, hint⟩ := Double.trunc_of_abs_le hfinite' (by decide) hrange
  rw [hvalue', towardZero_intCast] at hint
  unfold instantOfMillis
  dsimp only
  rw [hfinite', hwithin, hint]
  exact Temporal.ofInstant_some _ false

theorem Dates.result_ofTimestamp {seconds : Double} {n : Int} (hn : seconds.integer? = some n)
    (h : inRange (n * millisPerSecond) = true) (find : Int → Text) :
    (ofTimestamp seconds find).result = .ok (find (n * millisPerSecond)) := by
  rw [ofTimestamp, instantOfMillis_of_integer? hn h]
  rfl

namespace Civil

theorem isMonthName_lowerMonth {c : Civil} (h : 1 ≤ c.month) (h' : c.month ≤ 12) :
    IsMonthName c.month (Rendering.lowerMonth c) ∧ 'T' ∉ Rendering.lowerMonth c := by
  have hnames : ∀ name ∈ monthAbbreviations,
      sameLetters name.toList (name.toList.map Char.toLower) = true ∧
        'T' ∉ name.toList.map Char.toLower := by
    decide
  obtain ⟨hpos, name, hname, -⟩ := isMonthName_monthAbbreviation h h'
  have hlower : Rendering.lowerMonth c = name.toList.map Char.toLower := by
    rw [Rendering.lowerMonth, monthAbbreviation, Option.mem_def.mp hname, Option.getD_some]
  obtain ⟨hsame, hmark⟩ := hnames name (List.mem_of_getElem? (Option.mem_def.mp hname))
  rw [hlower]
  exact ⟨⟨hpos, name, hname, hsame⟩, hmark⟩

end Civil

theorem Shape.ofText_cons_space (t : Text) : ofText (' ' :: t) = ofText t := by
  have htrim : trim (' ' :: t) = trim t := rfl
  rw [ofText, htrim]
  rfl

section

variable {day name year : Text} {m : Nat} (hday : IsDigits 1 day) (hname : IsMonthName m name)
  (hyear : IsDigits 2 year)

include hday hname hyear

/-- The hyphens are where no rule looks for them, and eight bytes with hyphens are no number. -/
theorem ShapeRule.first?_oneDigitDay (hmark : 'T' ∉ name) :
    first? ⟨day ++ '-' :: (name ++ '-' :: year), [day ++ '-' :: (name ++ '-' :: year)], true⟩ =
      none := by
  have hdate : IsDateText (day ++ '-' :: (name ++ '-' :: year)) := by
    simp [hday.isDateText, hname.isWord.isDateText, hyear.isDateText]
  have hascii := hdate.isAscii
  have hnumber (k : Nat) :
      isNumberOfBytes k (day ++ '-' :: (name ++ '-' :: year)) = false := by
    have htrim := WrittenTime.trim_append_suffix (by simp) hdate none
    rw [WrittenTime.suffix, List.append_nil] at htrim
    rw [isNumberOfBytes, numberOf_of_hyphen hday.ne_nil hday.isNumber htrim]
    exact Bool.and_false _
  have hpart (k : Nat) : partIsNumber 0 k ⟨day ++ '-' :: (name ++ '-' :: year),
      [day ++ '-' :: (name ++ '-' :: year)], true⟩ = false := by
    have hletter : 'T' ∉ day ++ '-' :: (name ++ '-' :: year) := by
      simp [hmark, not_mem_of_isNumber hday.isNumber, not_mem_of_isNumber hyear.isNumber]
    have hsplit : ∀ x ∈ day ++ '-' :: (name ++ '-' :: year), (x == 'T') = false :=
      fun x hx => beq_eq_false_iff_ne.mpr fun heq => hletter (heq ▸ hx)
    rw [partIsNumber, split_of_forall hsplit]
    simpa using hnumber k
  simp only [first?, all, List.find?_cons, recognizes, Shape.has, Shape.firstToken,
    List.headD_cons, hascii.hasAt_eq, hpart, hnumber]
  obtain ⟨d₁, u, rfl, hd₁, hu⟩ := hday.exists_cons
  obtain rfl := hu.eq_nil
  obtain ⟨n₁, n₂, n₃, rfl, hn₁, hn₂, hn₃⟩ := hname.exists_three
  obtain ⟨y₁, y₂, rfl, hy₁, hy₂⟩ := hyear.exists_two
  simp [beq_of_isDigit, beq_of_isAlpha, IntervalText.recognizes, *]

theorem result_toDate_oneDigitDay (c : Context) (hmark : 'T' ∉ name) {wall : Int}
    (hof : WallReading.of? ⟨windowYear (toNat year), m, toNat day⟩ .midnight none =
      some ⟨wall, none⟩) :
    (Dates.toDate c (.text (' ' :: (day ++ '-' :: (name ++ '-' :: year))))).result =
      c.zone.dateOfLocal wall true := by
  have hdate : IsDateText (day ++ '-' :: (name ++ '-' :: year)) := by
    simp [hday.isDateText, hname.isWord.isDateText, hyear.isDateText]
  have hread := wallReading?_shortYear_named hday (by decide) hname hyear
  rw [Dates.result_toDate_text, Shape.ofText_cons_space,
    Shape.ofText_of_isDateText (by simp) hdate,
    ShapeRule.first?_oneDigitDay hday hname hyear hmark]
  exact Restated.read_of_local (Restated.check_unchanged _) (hread.trans hof)

end

theorem windowYear_of_twoDigits {year : Nat} (hlow : 1950 ≤ year) (hhigh : year < 2050) :
    (ofNatPadded 4 year).drop 2 = ofNatPadded 2 (year % 100) ∧ windowYear (year % 100) = year := by
  have hall : ∀ yy < 100, (ofNatPadded 4 (1950 + yy)).drop 2 = ofNatPadded 2 ((1950 + yy) % 100) ∧
      windowYear ((1950 + yy) % 100) = 1950 + yy := by
    decide
  obtain ⟨yy, rfl⟩ := Nat.exists_eq_add_of_le hlow
  exact hall yy (by omega)

namespace Dates

variable {c : Context} {wall : Int} {year : Nat} (hyear : (Civil.ofMillis wall).year = year)

include hyear

theorem result_toDate_longDate (hlt : year < 10000) :
    (toDate c (.text (Rendering.longDate (.ofMillis wall)))).result =
      c.zone.dateOfLocal (wall / millisPerDay * millisPerDay) true := by
  obtain ⟨hm, hm', -, -⟩ := Civil.ofMillis_bounds wall
  have hvalid := Civil.ofMillis_isValid wall
  have hname := (Civil.isMonthName_lowerMonth hm hm').1
  have htext : Rendering.longDate (.ofMillis wall) = ofNatPadded 2 (Civil.ofMillis wall).day ++
      '-' :: (Rendering.lowerMonth (.ofMillis wall) ++ '-' :: ofNatPadded 4 year) ++
        WrittenTime.suffix none := by
    simp [Rendering.longDate, hyear, ofIntPadded_of_nonneg, WrittenTime.suffix]
  have hof := WallReading.of?_midnight wall
  rw [hyear] at hvalid hof
  rw [htext]
  exact (IsWritten.dayMonthNameYear year none hname).result_toDate hlt hvalid (by simp) hof

theorem result_toDate_shortDate (hlow : 1950 ≤ year) (hhigh : year < 2050) :
    (toDate c (.text (Rendering.shortDate (.ofMillis wall)))).result =
      c.zone.dateOfLocal (wall / millisPerDay * millisPerDay) true := by
  obtain ⟨hm, hm', hd, hd'⟩ := Civil.ofMillis_bounds wall
  have hvalid := Civil.ofMillis_isValid wall
  obtain ⟨hname, hmark⟩ := Civil.isMonthName_lowerMonth hm hm'
  obtain ⟨hdrop, hwindow⟩ := windowYear_of_twoDigits hlow hhigh
  have hlt : year % 100 < 100 := Nat.mod_lt _ (by decide)
  have hyy : IsDigits 2 (ofNatPadded 2 (year % 100)) := isDigits_ofNatPadded (by decide) hlt
  have hof := WallReading.of?_midnight wall
  rw [hyear, ← hwindow] at hof
  have htext : Rendering.shortDate (.ofMillis wall) =
      (ofNat (Civil.ofMillis wall).day).leftpad 2 ' ' ++ '-' ::
        (Rendering.lowerMonth (.ofMillis wall) ++ '-' :: ofNatPadded 2 (year % 100)) := by
    rw [← hdrop]
    simp [Rendering.shortDate, hyear, ofIntPadded_of_nonneg]
  rw [htext]
  obtain hone | htwo := Nat.lt_or_ge (Civil.ofMillis wall).day 10
  · obtain ⟨k, -, hday, hk⟩ := exists_isDigits_ofNat (n := (Civil.ofMillis wall).day) (by omega)
    obtain rfl := hk.mpr hone
    have hspace : (ofNat (Civil.ofMillis wall).day).leftpad 2 ' ' =
        ' ' :: ofNat (Civil.ofMillis wall).day := by
      rw [List.leftpad, hday.length_eq]
      rfl
    rw [hspace]
    exact result_toDate_oneDigitDay hday hname hyy c hmark
      (by rwa [toNat_ofNat, toNat_ofNatPadded])
  · have hday : IsDigits 2 (ofNat (Civil.ofMillis wall).day) := by
      rw [← ofNatPadded_of_pow_le (k := 1) htwo]
      exact isDigits_ofNatPadded (by decide) (by omega)
    have hfull : (ofNat (Civil.ofMillis wall).day).leftpad 2 ' ' =
        ofNat (Civil.ofMillis wall).day := by
      rw [List.leftpad, hday.length_eq]
      rfl
    have hrestates := Restates.dayMonthNameShortYear (c := c) hday hyy hname
    have hread := wallReading?_shortYear_named hday (by decide) hname hyy
    rw [toNat_ofNat, toNat_ofNatPadded] at hrestates hread
    -- The check sees the last two digits for the year, which is as good for leap days.
    obtain ⟨hleap, hleap'⟩ := isLeapYear_of_twoDigits (year % 100) hlt
    have hchecked := isValidDate_congr (hleap.trans hleap'.symm) (Civil.ofMillis wall).day
      (Civil.ofMillis wall).month
    rw [hwindow, ← hyear] at hchecked
    rw [hfull]
    exact hrestates.result_of_local (hchecked.trans hvalid) (by omega) (hread.trans hof)

end Dates

/-- The long date of a timestamp is read as the start of its day, and in the years from 1950 to 2049
so is the short one. -/
theorem toDate_datesOfTimestamp (c : Context) {seconds : Double} {n : Int}
    (hn : seconds.integer? = some n) (h : inRange (n * millisPerSecond) = true)
    (hyear : 0 ≤ (c.localFields (n * millisPerSecond)).year ∧
      (c.localFields (n * millisPerSecond)).year ≤ 9999) :
    ∃ long short day, (Dates.longDateOfTimestamp c seconds).result = .ok long ∧
      (Dates.dateOfTimestamp c seconds).result = .ok short ∧
      (Dates.truncateTo c .day (.value (.instant (n * millisPerSecond) false))).result = .ok day ∧
      (Dates.toDate c (.text long)).result = .ok day ∧
      (1950 ≤ (c.localFields (n * millisPerSecond)).year →
        (c.localFields (n * millisPerSecond)).year ≤ 2049 →
        (Dates.toDate c (.text short)).result = .ok day) := by
  obtain ⟨year, hlt, hnat⟩ := Civil.exists_natYear hyear
  obtain ⟨day, hday⟩ := c.zone.exists_dateOfLocal_midnight hyear
  have htruncate := Dates.result_truncateTo_day c h false
  have hlong := Dates.result_toDate_longDate (c := c) hnat hlt
  rw [hday] at htruncate hlong
  refine ⟨_, _, day, Dates.result_ofTimestamp hn h _, Dates.result_ofTimestamp hn h _, htruncate,
    hlong, fun hlow hhigh => ?_⟩
  rw [Context.localFields, hnat] at hlow hhigh
  exact (Dates.result_toDate_shortDate (c := c) hnat (by omega) (by omega)).trans hday

theorem toDate_datesOfTimestamp_march :
    let c : Context := ⟨.fixed ⟨-480, by decide⟩, .fixed 0⟩
    ((Double.ofInt 1583377200).integer? = some 1583377200 ∧
      inRange (1583377200 * millisPerSecond) = true ∧
      0 ≤ (c.localFields (1583377200 * millisPerSecond)).year ∧
      (c.localFields (1583377200 * millisPerSecond)).year ≤ 9999) ∧
    ∃ long short day, (Dates.longDateOfTimestamp c (.ofInt 1583377200)).result = .ok long ∧
      (Dates.dateOfTimestamp c (.ofInt 1583377200)).result = .ok short ∧
      (Dates.toDate c (.text long)).result = .ok day ∧
      (Dates.toDate c (.text short)).result = .ok day ∧ day = .instant 1583308800000 true := by
  intro c
  have hn : (Double.ofInt 1583377200).integer? = some 1583377200 :=
    Double.integer?_ofInt (by decide)
  have hrange : inRange (1583377200 * millisPerSecond) = true := by decide
  have hyear : 0 ≤ (c.localFields (1583377200 * millisPerSecond)).year ∧
      (c.localFields (1583377200 * millisPerSecond)).year ≤ 9999 := by
    decide
  obtain ⟨long, short, day, hlong, hshort, hday, hread, hread'⟩ :=
    toDate_datesOfTimestamp c hn hrange hyear
  have hmidnight : (Dates.truncateTo c .day
      (.value (.instant (1583377200 * millisPerSecond) false (by decide)))).result =
        .ok (.instant 1583308800000 true (by decide)) := by
    decide +kernel
  exact ⟨⟨hn, hrange, hyear⟩, long, short, day, hlong, hshort, hread,
    hread' (by decide) (by decide), Ending.ok.inj (hday.symm.trans hmidnight)⟩

end Coercion
