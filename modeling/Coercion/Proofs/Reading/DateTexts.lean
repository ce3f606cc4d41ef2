import Coercion.Proofs.Reading.CheckedDates
import Coercion.Proofs.Reading.WrittenDates
import Coercion.Proofs.Time.Offsets

namespace Coercion

open Calendar Text

namespace Civil

/-- The same day at midnight. -/
def atMidnight (c : Civil) : Civil :=
  { c with hour := 0, minute := 0, second := 0, millisecond := 0 }

theorem ofMillis_midnight (wall : Int) :
    ofMillis (ofMillis wall).midnight = (ofMillis wall).atMidnight := by
  have hdays : wall / millisPerDay * millisPerDay / millisPerDay = wall / millisPerDay :=
    Int.mul_ediv_cancel _ (by decide)
  have htime : wall / millisPerDay * millisPerDay % millisPerDay = 0 := Int.mul_emod_left _ _
  rw [midnight_ofMillis]
  unfold ofMillis atMidnight
  dsimp only
  rw [hdays, htime]
  rfl

/-- The range ends with whole days, so it has the midnight in UTC of a day whose local midnight it
has. -/
theorem inRange_midnight {o : Offset} {wall : Int}
    (hlocal : inRange ((ofMillis wall).midnight - o.millis) = true) :
    inRange (ofMillis wall).midnight = true := by
  obtain ⟨minutes, hlo, hhi⟩ := o
  rw [midnight_ofMillis] at hlocal ⊢
  simp only [inRange, Bool.and_eq_true, decide_eq_true_eq] at hlocal ⊢
  unfold Offset.millis maxInstant millisPerDay millisPerMinute at *
  dsimp only at *
  omega

theorem midnight_add_offset_eq_iff (o : Offset) (wall : Int) :
    (ofMillis ((ofMillis wall).midnight + o.millis)).midnight = (ofMillis wall).midnight ↔
      0 ≤ o.minutes := by
  obtain ⟨minutes, hlo, hhi⟩ := o
  rw [midnight_ofMillis, midnight_ofMillis]
  unfold Offset.millis millisPerDay millisPerMinute
  dsimp only
  omega

end Civil

namespace Temporal

theorem dateText_atMidnight (c : Civil) : dateText c.atMidnight = dateText c := rfl

theorem mem_dateText {c : Civil} {x : Char} (hx : x ∈ dateText c) :
    x.isDigit = true ∨ x = '+' ∨ x = '-' := by
  rw [dateText_eq, List.mem_append, List.mem_cons, List.mem_append, List.mem_cons] at hx
  obtain hx | hx | hx | hx | hx := hx
  · exact mem_yearText hx
  · exact .inr (.inr hx)
  · exact .inl (isNumber_ofNatPadded 2 _ x hx)
  · exact .inr (.inr hx)
  · exact .inl (isNumber_ofNatPadded 2 _ x hx)

theorem trim_dateText (c : Civil) : trim (dateText c) = dateText c := by
  have hsolid {x : Char} (hx : x ∈ dateText c) : isBlank x = false := by
    obtain hx | rfl | rfl := mem_dateText hx
    · exact isBlank_of_isDigit hx
    · rfl
    · rfl
  exact trim_of_ends (fun _ hx => hsolid (List.mem_of_mem_head? hx))
    fun _ hx => hsolid (List.mem_of_mem_getLast? hx)

theorem ofText_dateText (c : Civil) :
    Shape.ofText (dateText c) = ⟨dateText c, [dateText c], true⟩ := by
  have hspace : ∀ x ∈ dateText c, (x == ' ') = false := by
    intro x hx
    obtain hx | rfl | rfl := mem_dateText hx
    · exact beq_of_isDigit hx rfl
    · rfl
    · rfl
  have hcolon : ':' ∉ dateText c := by
    intro hx
    obtain hx | hx | hx := mem_dateText hx
    · cases hx
    · cases hx
    · cases hx
  rw [Shape.ofText_of_trim (trim_dateText c), split_of_forall hspace]
  simp [hcolon]

section

variable {wall : Int} (h : (Civil.ofMillis wall).year.natAbs < 1000000)

include h

theorem read?_dateText : Iso.read? (dateText (Civil.ofMillis wall)) =
    some ⟨(Civil.ofMillis wall).midnight, some .utc⟩ := by
  obtain ⟨hm, hm', hd, hd'⟩ := Civil.ofMillis_bounds wall
  have hmonth := fixedDigits?_ofNatPadded (k := 2) (n := (Civil.ofMillis wall).month) (by decide)
    (by omega)
  have hday := fixedDigits?_ofNatPadded (k := 2) (n := (Civil.ofMillis wall).day) (by decide)
    (by omega) []
  rw [List.append_nil] at hday
  have hreading : Iso.dateReading? ⟨(Civil.ofMillis wall).year, (Civil.ofMillis wall).month,
      (Civil.ofMillis wall).day⟩ [] = some ⟨(Civil.ofMillis wall).midnight, some .utc⟩ := by
    rw [Iso.dateReading?, WallReading.of?]
    simp [hm, hm', hd, hd', DayTime.midnight, Civil.midnight]
  simp only [dateText_eq, Iso.read?, Iso.year?_yearText h, hmonth, hday, Option.bind_eq_bind,
    Option.bind_some, hreading]

theorem dateText_eq_iff {wall' : Int} (h' : (Civil.ofMillis wall').year.natAbs < 1000000) :
    dateText (Civil.ofMillis wall) = dateText (Civil.ofMillis wall') ↔
      (Civil.ofMillis wall).midnight = (Civil.ofMillis wall').midnight := by
  constructor
  · intro heq
    have hread := read?_dateText h
    rw [heq, read?_dateText h'] at hread
    exact (congrArg WallReading.wall (Option.some.inj hread)).symm
  · intro heq
    have hday := congrArg Civil.ofMillis heq
    rw [Civil.ofMillis_midnight, Civil.ofMillis_midnight] at hday
    rw [← dateText_atMidnight, hday, dateText_atMidnight]

theorem first?_dateText (hyear : ¬(0 ≤ (Civil.ofMillis wall).year ∧
    (Civil.ofMillis wall).year ≤ 9999)) :
    ShapeRule.first? (Shape.ofText (dateText (Civil.ofMillis wall))) = none := by
  obtain ⟨hm, hm', hd, hd'⟩ := Civil.ofMillis_bounds wall
  have hmonth : IsDigits 2 (ofNatPadded 2 (Civil.ofMillis wall).month) :=
    isDigits_ofNatPadded (by decide) (by omega)
  have hday : IsDigits 2 (ofNatPadded 2 (Civil.ofMillis wall).day) :=
    isDigits_ofNatPadded (by decide) (by omega)
  obtain ⟨sign, hsign, hdigits⟩ := yearText_of_signed hyear
  refine ShapeRule.first?_signedYear hsign (isDigits_ofNatPadded (by decide) h) hmonth
    hday.isDateText.isAscii ?_ (by rw [ofText_dateText])
  rw [ofText_dateText, dateText_eq, hdigits]
  rfl

end

end Temporal

namespace Dates

variable {c : Context} {wall : Int}

theorem result_toDate_dateText {o : Offset} (hzone : c.zone = .fixed o)
    (hyear : 0 ≤ (Civil.ofMillis wall).year ∧ (Civil.ofMillis wall).year ≤ 9999)
    (hlocal : inRange ((Civil.ofMillis wall).midnight - o.millis) = true) :
    (toDate c (.text (Temporal.dateText (Civil.ofMillis wall)))).result =
      .ok (.instant ((Civil.ofMillis wall).midnight - o.millis) true) := by
  obtain ⟨hm, hm', hd, hd'⟩ := Civil.ofMillis_bounds wall
  have hvalid := Civil.ofMillis_isValid wall
  have htext := Temporal.dateText_eq (Civil.ofMillis wall)
  rw [Temporal.yearText_of_fourDigits hyear] at htext
  obtain ⟨year, hyear'⟩ := Int.eq_ofNat_of_zero_le hyear.1
  have hmidnight : (Civil.ofMillis wall).midnight =
      writtenWall year (Civil.ofMillis wall).month (Civil.ofMillis wall).day none := by
    rw [Civil.midnight, carriedMillis, carriedDay_eq (by omega) (by omega), hyear']
    rfl
  rw [hyear'] at hyear hvalid
  rw [hyear', Int.natAbs_natCast] at htext
  have hwritten : IsWritten (Civil.ofMillis wall).month (Civil.ofMillis wall).day year none _ :=
    .yearMonthDay year none
  rw [WrittenTime.suffix, List.append_nil, ← htext] at hwritten
  obtain ⟨u, hrestates, hread⟩ := hwritten.exists_restated (c := c) (by omega) (by omega) (by omega)
    (by simp)
  rw [of?_of_isValidDate hvalid, ← hmidnight] at hread
  have hinstant : instantOfText? c.zone u = some ((Civil.ofMillis wall).midnight - o.millis) := by
    rw [instantOfText?, hread, hzone]
    change Option.filter inRange (Zone.instantOfLocal? (.fixed o) _) = _
    have hmade : (Zone.fixed o).instantOfLocal? (Civil.ofMillis wall).midnight =
        some ((Civil.ofMillis wall).midnight - o.millis) := if_pos hlocal
    rw [hmade, Option.filter, if_pos hlocal]
  rw [hrestates.result_toDate,
    Restated.read_of_integers rfl rfl rfl (by omega) (by omega) (by omega),
    if_neg (fun hinvalid => by simp [Date.IsValid, hinvalid.2] at hvalid), hinstant,
    Temporal.ofInstant_some hlocal]
  rfl

theorem result_toDate_signedDateText (h : (Civil.ofMillis wall).year.natAbs < 1000000)
    (hyear : ¬(0 ≤ (Civil.ofMillis wall).year ∧ (Civil.ofMillis wall).year ≤ 9999))
    (hrange : inRange (Civil.ofMillis wall).midnight = true) :
    (toDate c (.text (Temporal.dateText (Civil.ofMillis wall)))).result =
      .ok (.instant (Civil.ofMillis wall).midnight true) := by
  have hinstant : instantOfText? c.zone (Temporal.dateText (Civil.ofMillis wall)) =
      some (Civil.ofMillis wall).midnight := by
    have hutc : Offset.utc.millis = 0 := rfl
    rw [instantOfText?, Temporal.trim_dateText, wallReading?, Temporal.read?_dateText h]
    simp [WallReading.instant?, hutc, hrange]
  rw [result_toDate_text, Temporal.first?_dateText h hyear]
  dsimp only
  rw [Restated.read_unchanged, Temporal.ofText_dateText]
  dsimp only
  rw [hinstant, Temporal.ofInstant_some hrange, Ending.ofExcept_ok]

end Dates

/-- The text of a date without a time is read back as a date without a time. With a year of four
digits it is the local midnight of the same day, with the same text. With a sign before the year it
is the midnight of that date in UTC, which has the same text only at and east of UTC. -/
theorem toDate_dateOnlyText {c : Context} {o : Offset} (hzone : c.zone = .fixed o) {millis : Int}
    (h : inRange millis = true)
    (hlocal : inRange ((c.localFields millis).midnight - o.millis) = true) :
    ∃ (t : Int) (_ : inRange t = true),
      (Dates.toDate c (.text ((Temporal.instant millis true).isoText c))).result =
        .ok (.instant t true) ∧
      (0 ≤ (c.localFields millis).year ∧ (c.localFields millis).year ≤ 9999 →
        c.localFields t = (c.localFields millis).atMidnight ∧
        (Temporal.instant t true).isoText c = (Temporal.instant millis true).isoText c) ∧
      (¬(0 ≤ (c.localFields millis).year ∧ (c.localFields millis).year ≤ 9999) →
        Civil.ofMillis t = (c.localFields millis).atMidnight ∧
        ((Temporal.instant t true).isoText c = (Temporal.instant millis true).isoText c ↔
          0 ≤ o.minutes)) := by
  obtain ⟨wall, hwall⟩ : ∃ wall, wall = c.zone.wallAt millis := ⟨_, rfl⟩
  have hfields : c.localFields millis = Civil.ofMillis wall := congrArg Civil.ofMillis hwall.symm
  have hbound := c.zone.natAbs_wallAt_lt h
  rw [← hwall] at hbound
  have hsix := Civil.natAbs_year_lt_of_natAbs_lt hbound
  simp only [Temporal.isoText, hfields] at hlocal ⊢
  by_cases hyear : 0 ≤ (Civil.ofMillis wall).year ∧ (Civil.ofMillis wall).year ≤ 9999
  · refine ⟨_, hlocal, Dates.result_toDate_dateText hzone hyear hlocal, fun _ => ?_,
      fun h => absurd hyear h⟩
    have hinstant : (Zone.fixed o).instantOfLocal? (Civil.ofMillis wall).midnight =
        some ((Civil.ofMillis wall).midnight - o.millis) := if_pos hlocal
    have hback : c.localFields ((Civil.ofMillis wall).midnight - o.millis) =
        (Civil.ofMillis wall).atMidnight := by
      rw [Context.localFields, hzone, Zone.wallAt_of_instantOfLocal? hinstant,
        Civil.ofMillis_midnight]
    exact ⟨hback, by rw [hback, Temporal.dateText_atMidnight]⟩
  · have hrange := Civil.inRange_midnight hlocal
    have hback : c.zone.wallAt (Civil.ofMillis wall).midnight =
        (Civil.ofMillis wall).midnight + o.millis := by
      rw [hzone, Zone.wallAt_eq, Zone.offsetAt]
    have hsix' := Civil.natAbs_year_lt_of_natAbs_lt (hback ▸ c.zone.natAbs_wallAt_lt hrange)
    refine ⟨_, hrange, Dates.result_toDate_signedDateText hsix hyear hrange,
      fun h => absurd h hyear, fun _ => ⟨Civil.ofMillis_midnight wall, ?_⟩⟩
    rw [Context.localFields, hback, Temporal.dateText_eq_iff hsix' hsix]
    exact Civil.midnight_add_offset_eq_iff o wall

theorem toDate_dateOnlyText_march : ∃ (t : Int) (_ : inRange t = true),
    (Dates.toDate ⟨.fixed ⟨330, by decide⟩, .fixed 0⟩ (.text "2020-03-17".toList)).result =
      .ok (.instant t true) ∧
    ((Context.localFields ⟨.fixed ⟨330, by decide⟩, .fixed 0⟩ t).day,
      (Context.localFields ⟨.fixed ⟨330, by decide⟩, .fixed 0⟩ t).hour) = (17, 0) := by
  obtain ⟨t, hrange, hresult, hfour, -⟩ := toDate_dateOnlyText
    (c := ⟨.fixed ⟨330, by decide⟩, .fixed 0⟩) (o := ⟨330, by decide⟩) rfl
    (show inRange 1584452730000 = true by decide) (by decide +kernel)
  have htext : (Temporal.instant 1584452730000 true (by decide)).isoText
      ⟨.fixed ⟨330, by decide⟩, .fixed 0⟩ = "2020-03-17".toList := by
    decide +kernel
  rw [htext] at hresult
  refine ⟨t, hrange, hresult, ?_⟩
  rw [(hfour (by decide +kernel)).1]
  decide +kernel

theorem toDate_dateOnlyText_west : ¬ ∀ (c : Context) (o : Offset) (millis : Int),
    c.zone = .fixed o → ∀ _ : inRange millis = true,
    inRange ((c.localFields millis).midnight - o.millis) = true →
    ∃ (t : Int) (_ : inRange t = true),
      (Dates.toDate c (.text ((Temporal.instant millis true).isoText c))).result =
        .ok (.instant t true) ∧
      c.localFields t = (c.localFields millis).atMidnight := by
  intro h
  obtain ⟨t, _, hresult, hfields⟩ := h ⟨.fixed ⟨-300, by decide⟩, .fixed 0⟩ _ 253402318800000 rfl
    (by decide) (by decide +kernel)
  have hutc : (Dates.toDate ⟨.fixed ⟨-300, by decide⟩, .fixed 0⟩
      (.text ((Temporal.instant 253402318800000 true).isoText
        ⟨.fixed ⟨-300, by decide⟩, .fixed 0⟩))).result = .ok (.instant 253402300800000 true) := by
    decide +kernel
  obtain rfl : 253402300800000 = t := by
    rw [hutc] at hresult
    exact (Temporal.instant.inj (Ending.ok.inj hresult)).1
  exact absurd hfields (by decide +kernel)

end Coercion
