import Coercion.Proofs.Reading.DateTexts
import Coercion.Proofs.Reading.MidnightRules

namespace Coercion

open Calendar Text

namespace Civil

theorem ofMillis_of_midnight (day : Int) {k : Nat} (hk : k < 1000) :
    ofMillis (day * millisPerDay + k) =
      { (ofMillis (day * millisPerDay + k)).atMidnight with millisecond := k } := by
  unfold ofMillis atMidnight millisPerDay millisPerHour millisPerMinute millisPerSecond
  simp only [Civil.mk.injEq, true_and, and_true]
  omega

end Civil

theorem WallReading.IsMidnight.localFields_eq {c : Context} {o : Offset} {r : WallReading}
    {k : Nat} {instant : Int} (h : r.IsMidnight k) (hk : k < 1000) (hzone : c.zone = .fixed o)
    (hlocal : r.offset = none) (hinstant : r.instant? c.zone = some instant) :
    c.localFields instant = { (c.localFields instant).atMidnight with millisecond := k } := by
  obtain ⟨day, hwall⟩ := h.exists_wall
  rw [WallReading.instant?, hlocal, hzone] at hinstant
  have hfields : c.localFields instant = Civil.ofMillis (day * millisPerDay + k) := by
    rw [Context.localFields, hzone, Zone.wallAt_of_instantOfLocal? hinstant, hwall]
  rw [hfields]
  exact Civil.ofMillis_of_midnight day hk

theorem IntervalText.exists_interval {tokens : List Text} {v : Temporal}
    (h : read tokens = .ok v) : ∃ d, v = .interval d := by
  unfold read at h
  cases htotal : (pairs tokens).foldlM Total.add ⟨.zero, .year⟩ with
  | error e =>
    rw [htotal] at h
    cases h
  | ok total =>
    rw [htotal] at h
    change (if _ then _ else _) = _ at h
    split_ifs at h
    exact ⟨_, (Except.ok.inj h).symm⟩

namespace ShapeRule

variable {c : Context} {o : Offset} {instant : Int} {hrange : inRange instant = true}

theorem localFields_of_readKeyword {t : Text} (hzone : c.zone = .fixed o)
    (h : readKeyword c t = .ok (.instant instant true)) :
    c.localFields instant = (c.localFields instant).atMidnight := by
  unfold readKeyword at h
  split_ifs at h
  · obtain ⟨now, -, h⟩ := Ending.bind_eq_ok.mp h
    obtain ⟨_, _, -, hv⟩ := Temporal.ofInstant_eq_ok_iff.mp (Ending.ofExcept_eq_ok.mp h)
    exact absurd (congrArg Temporal.isDateOnly hv) Bool.noConfusion
  · obtain ⟨midnight, hmidnight, h⟩ := Ending.bind_eq_ok.mp h
    obtain ⟨millis, _, hmillis, hv⟩ :=
      Temporal.ofInstant_eq_ok_iff.mp (Ending.ofExcept_eq_ok.mp h)
    obtain rfl : instant = millis := congrArg Temporal.millis hv
    obtain ⟨today, htoday, hmidnight⟩ :=
      Option.bind_eq_some_iff.mp (Ending.orStop_eq_ok.mp hmidnight)
    obtain ⟨-, rfl⟩ := Context.localFields?_eq_some_iff.mp htoday
    obtain ⟨-, rfl⟩ := word?_eq_some_iff.mp hmidnight
    rw [hzone] at hmillis
    have hfields : c.localFields instant = (c.localFields c.now).atMidnight := by
      rw [Context.localFields, hzone, Zone.wallAt_of_instantOfLocal? hmillis]
      exact Civil.ofMillis_midnight _
    rw [hfields]
    rfl

theorem localFields_of_value {s : Shape} {rule : ShapeRule} (hzone : c.zone = .fixed o)
    (h : rule.read c s = .ok (.value (.instant instant true))) :
    rule ≠ .yearMonthDay ∧ c.localFields instant = (c.localFields instant).atMidnight := by
  cases rule with
  | intervalSequence =>
    obtain ⟨d, hd⟩ :=
      IntervalText.exists_interval (Ending.ofExcept_eq_ok.mp (Recognition.of_map_value h))
    cases hd
  | keyword => exact ⟨by decide, localFields_of_readKeyword hzone (Recognition.of_map_value h)⟩
  | monthDay => exact absurd h (Recognition.map_restated_ne id _ _)
  | timeOfDay => exact absurd h (Recognition.map_restated_ne _ _ _)
  | _ => simp [ShapeRule.read] at h

end ShapeRule

namespace Dates

def restated? (c : Context) (t : Text) : Option Restated :=
  match ShapeRule.first? (.ofText t) with
  | none => some (.unchanged (.ofText t))
  | some rule =>
    match rule.read c (.ofText t) with
    | .ok (.restated r) => some r
    | _ => none

def readOffset? (c : Context) (t : Text) : Option Offset :=
  (restated? c t).bind fun r => (wallReading? (trim r.text)).bind WallReading.offset

/-- The milliseconds of a fraction of a second right behind a date `yyyy-mm-dd`. -/
def trailingMillis (t : Text) : Nat :=
  if ShapeRule.first? (.ofText t) = some .yearMonthDay then
    (fraction (sliceFrom 10 (Shape.ofText t).text)).1
  else 0

variable {c : Context} {t : Text}

theorem trailingMillis_lt (t : Text) : trailingMillis t < 1000 := by
  unfold trailingMillis
  split_ifs
  · exact Loose.fraction_lt _
  · decide

theorem cases_of_result {v : Temporal} (h : (toDate c (.text t)).result = .ok v) :
    (∃ r, restated? c t = some r ∧ r.read c = .ok v) ∨
      ∃ rule, ShapeRule.first? (.ofText t) = some rule ∧
        rule.read c (.ofText t) = .ok (.value v) := by
  rw [result_toDate_text] at h
  unfold restated?
  cases hfirst : ShapeRule.first? (.ofText t) with
  | none =>
    rw [hfirst] at h
    exact .inl ⟨_, rfl, Ending.ofExcept_eq_ok.mp h⟩
  | some rule =>
    rw [hfirst] at h
    dsimp only at h ⊢
    split at h
    · cases h
    · cases h
    · next v' hread =>
      obtain rfl := Ending.ok.inj h
      exact .inr ⟨rule, rfl, hread⟩
    · next r hread => exact .inl ⟨r, by rw [hread], Ending.ofExcept_eq_ok.mp h⟩

theorem isMidnight_of_restated {r : Restated} {reading : WallReading}
    (hr : restated? c t = some r) (honly : r.dateOnly = true) (hcheck : r.check = .ok ())
    (h : wallReading? (trim r.text) = some reading) (hlocal : reading.offset = none) :
    reading.IsMidnight (trailingMillis t) := by
  have hplain (hcolon : ':' ∉ r.text) : reading.IsMidnight 0 :=
    isMidnight_of_not_mem hlocal (fun hmem => hcolon (mem_of_mem_trim hmem)) h
  unfold restated? at hr
  unfold trailingMillis
  cases hfirst : ShapeRule.first? (.ofText t) with
  | none =>
    rw [hfirst] at hr
    obtain rfl := Option.some.inj hr
    exact hplain (Restated.not_mem_unchanged honly)
  | some rule =>
    rw [hfirst] at hr
    dsimp only at hr
    have hrule : rule.recognizes (.ofText t) = true := List.find?_some hfirst
    split at hr
    · next q hread =>
      obtain rfl := Option.some.inj hr
      by_cases hyear : rule = .yearMonthDay
      · subst hyear
        rw [if_pos rfl]
        obtain rfl := Recognition.eq_of_restated hread
        have hdate : (Shape.ofText t).dateOnly = true := honly
        rw [if_pos hdate] at hcheck h
        exact ShapeRule.isMidnight_yearMonthDay hlocal hrule hdate hcheck h
      · rw [if_neg fun heq => hyear (Option.some.inj heq)]
        by_cases hpacked : rule = .packedYearMonthDay
        · subst hpacked
          obtain rfl := Recognition.eq_of_restated hread
          exact ShapeRule.isMidnight_packedYearMonthDay hrule honly h hlocal
        · exact hplain (ShapeRule.not_mem_of_dateOnly hread honly hyear hpacked)
    · cases hr

end Dates

/-- A value without a time of day that was read without an offset is the local midnight of its date.
A text of the form `yyyy-mm-dd` adds the fraction of a second that it has right behind the date. -/
theorem toDate_dateOnly_localFields {c : Context} {o : Offset} (hzone : c.zone = .fixed o)
    {t : Text} {instant : Int} {hrange : inRange instant = true}
    (hlocal : Dates.readOffset? c t = none)
    (hok : (Dates.toDate c (.text t)).result = .ok (.instant instant true)) :
    c.localFields instant =
      { (c.localFields instant).atMidnight with millisecond := Dates.trailingMillis t } := by
  obtain ⟨r, hr, hread⟩ | ⟨rule, hfirst, hread⟩ := Dates.cases_of_result hok
  · obtain ⟨hcheck, reading, hreading, hinstant⟩ := Restated.exists_reading hread
    have hoffset : reading.offset = none := by
      rw [Dates.readOffset?, hr, Option.bind_some, hreading, Option.bind_some] at hlocal
      exact hlocal
    have honly : r.dateOnly = true := (Restated.isDateOnly_of_read hread).symm
    have hmidnight := Dates.isMidnight_of_restated hr honly hcheck hreading hoffset
    exact hmidnight.localFields_eq (Dates.trailingMillis_lt t) hzone hoffset hinstant
  · obtain ⟨hyear, hfields⟩ := ShapeRule.localFields_of_value hzone hread
    have hzero : Dates.trailingMillis t = 0 := by
      rw [Dates.trailingMillis, if_neg]
      rw [hfirst]
      exact fun heq => hyear (Option.some.inj heq)
    rw [hzero]
    exact hfields

theorem toDate_dateOnly_localFields_march :
    let c : Context := ⟨.fixed ⟨330, by decide⟩, .fixed 0⟩
    let t : Text := "2020-03-17".toList
    (Dates.readOffset? c t = none ∧
      (Dates.toDate c (.text t)).result = .ok (.instant 1584383400000 true)) ∧
    c.localFields 1584383400000 =
      { (c.localFields 1584383400000).atMidnight with millisecond := Dates.trailingMillis t } := by
  intro c t
  have hlocal : Dates.readOffset? c t = none := by decide +kernel
  have hok : (Dates.toDate c (.text t)).result = .ok (.instant 1584383400000 true) := by
    decide +kernel
  exact ⟨⟨hlocal, hok⟩, toDate_dateOnly_localFields (o := ⟨330, by decide⟩) rfl hlocal hok⟩

theorem toDate_dateOnly_halfSecond : ¬ ∀ (c : Context) (o : Offset) (t : Text) (instant : Int)
    (_ : inRange instant = true), c.zone = .fixed o → Dates.readOffset? c t = none →
    (Dates.toDate c (.text t)).result = .ok (.instant instant true) →
    c.localFields instant = (c.localFields instant).atMidnight := by
  intro h
  have hfields := h ⟨.fixed .utc, .fixed 0⟩ .utc "2020-03-17.5".toList 1584403200500 (by decide)
    rfl (by decide +kernel) (by decide +kernel)
  exact absurd hfields (by decide +kernel)

end Coercion
