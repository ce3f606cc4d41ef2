import Coercion.Proofs.Calendar.Weeks
import Coercion.Proofs.Checked.Rules
import Coercion.Proofs.Reading.ClockTexts

namespace Coercion

open Calendar

namespace Calendar

def earliestMidnight : Int := -9223372036828800000

theorem fitsWord_midnight_iff {millis : Int} (h : fitsWord millis = true) :
    fitsWord (millis / millisPerDay * millisPerDay) = true ↔ earliestMidnight ≤ millis := by
  rw [fitsWord_iff] at h ⊢
  unfold millisPerDay earliestMidnight
  omega

theorem fitsWord_thursday_iff {millis : Int} (h : fitsWord millis = true) :
    fitsWord (thursdayOf (millis / millisPerDay) * millisPerDay) = true ↔
      earliestMidnight ≤ millis := by
  rw [fitsWord_iff] at h ⊢
  unfold thursdayOf millisPerDay earliestMidnight
  omega

end Calendar

namespace Civil

variable {millis : Int} (h : fitsWord millis = true)

include h

theorem midnight?_eq_ite : (ofMillis millis).midnight? =
    if earliestMidnight ≤ millis then some (millis / millisPerDay * millisPerDay) else none := by
  rw [midnight?, midnight_ofMillis, word?]
  simp only [fitsWord_midnight_iff h]

theorem toMillis?_eq_ite :
    (ofMillis millis).toMillis? = if earliestMidnight ≤ millis then some millis else none := by
  have hword : word? millis = some millis := word?_eq_some_iff.mpr ⟨h, rfl⟩
  rw [toMillis?, midnight?_eq_ite h, toMillis_ofMillis, hword]
  split_ifs <;> rfl

theorem weekIso?_eq_ite : (ofMillis millis).weekIso? =
    if earliestMidnight ≤ millis then some (ofMillis millis).weekIso else none := by
  rw [weekIso?, thursday_ofMillis]
  simp only [fitsWord_thursday_iff h]

end Civil

namespace Checked

def toMillis (c : Civil) : Checked Int := do
  let whole ← carriedMillis c.year (← sub c.month 1) c.day c.hour c.minute c.second
  add whole c.millisecond

def quarter (c : Civil) : Checked Nat := do
  done ((← unsigned 256 (c.month - 1)) / 3 + 1)

/-- The number of Mondays from the first day of the year on. -/
def week (c : Civil) : Checked Nat := do
  let days ← unsigned 65536 (c.ordinal + 7)
  done ((← unsigned 65536 (days - c.isoWeekday)) / 7)

/-- The number of the week of the Thursday of a week. -/
def weekIso (c : Civil) : Checked Nat := do
  let day ← sub (← add c.day 4) c.isoWeekday
  let thursday ← carriedDay c.year (← sub c.month 1) day
  let fields ← ofMillis (← mul thursday millisPerDay)
  done ((fields.ordinal + 6) / 7)

def part (c : Civil) : TimeUnit → Checked Int
  | .quarter => do done (← quarter c)
  | .week => do done (← week c)
  | .isoWeek => do done (← weekIso c)
  | u => .orStop (u.part? c)

/-- The name of the weekday, from the table of names. -/
def weekdayName (c : Civil) : Checked Text := do
  done (← entry weekdayAbbreviations c.weekday).toList

/-- The weekday, counted from the number that Sunday is given, which is one by default. -/
def dayOfWeek (c : Civil) (sunday : Option Int) : Checked Int :=
  add c.weekday (sunday.getD 1)

def fields (c : Context) : Temporal → Checked Civil
  | .instant millis _ _ => localFields c millis
  | .interval duration => ofMillis duration.millis

def addOrRefuse (a b : Int) : Checked Int :=
  if fitsWord (a + b) then done (a + b) else refused

def addDuration (v : Temporal) (d : Duration) : Checked Temporal := do
  let sum ← addOrRefuse v.millis d.millis
  match v with
  | .instant _ dateOnly _ => ofOption (Temporal.instant? sum dateOnly)
  | .interval own => done (.interval ⟨sum, own.unit⟩)

section

variable {millis : Int} (h : fitsWord millis = true)

include h

theorem toMillis_ofMillis :
    toMillis (Civil.ofMillis millis) = .orStop (Civil.ofMillis millis).toMillis? := by
  obtain ⟨hhour, hminute, hsecond⟩ := Civil.ofMillis_time millis
  have hwhole := Civil.carriedMillis_ofMillis millis
  have hmillis := Civil.toMillis_ofMillis millis
  have hsum := hmillis
  rw [Civil.toMillis, hwhole] at hsum
  obtain ⟨hlow, hhigh⟩ := fitsWord_iff.mp h
  rw [toMillis, sub_month, done_bind,
    carriedMillis_ofMillis h (by omega) (by omega) (by omega) (by omega), hwhole, Civil.toMillis?,
    Civil.midnight?, hmillis, word?, word?, if_pos h]
  split_ifs
  · rw [done_bind, add_eq (by omega) (by omega), hsum]
    rfl
  · rfl

theorem weekIso_ofMillis :
    weekIso (Civil.ofMillis millis) = .orStop (Civil.ofMillis millis).weekIso? := by
  obtain ⟨-, -, hd, hd'⟩ := Civil.ofMillis_bounds millis
  have hweekday := Civil.isoWeekday_ofMillis millis
  have hday : carriedDay (Civil.ofMillis millis).year ((Civil.ofMillis millis).month - 1)
      ((Civil.ofMillis millis).day + 4 - (Civil.ofMillis millis).isoWeekday) = done _ :=
    carriedDay_ofMillis h (by omega)
  rw [weekIso, add_eq (by omega) (by omega), done_bind, sub_eq (by omega) (by omega), done_bind,
    sub_month, done_bind, hday, done_bind, mul_eq_word, ← Civil.thursday, Civil.weekIso?, word?]
  split_ifs with hword
  · rw [Ending.orStop_some, done_bind, ofMillis_eq hword]
    rfl
  · rfl

end

theorem part_ofMillis (millis : Int) {u : TimeUnit} (hu : u ≠ .isoWeek) :
    ∃ n, u.part? (Civil.ofMillis millis) = some n ∧ part (Civil.ofMillis millis) u = done n := by
  obtain ⟨hm, hm', -, -⟩ := Civil.ofMillis_bounds millis
  have hordinal : (Civil.ofMillis millis).ordinal ≤ 366 :=
    (Civil.ordinal_ofMillis_bounds millis).2.trans (by split_ifs <;> decide)
  have hweekday := Civil.isoWeekday_ofMillis millis
  cases u with
  | isoWeek => exact absurd rfl hu
  | quarter =>
    refine ⟨_, rfl, ?_⟩
    rw [part, quarter, unsigned_eq (by omega) (by omega), done_bind, done_bind, Civil.quarter]
    exact congrArg done (by omega)
  | week =>
    refine ⟨_, rfl, ?_⟩
    rw [part, week, unsigned_eq (by omega) (by omega), done_bind,
      unsigned_eq (by omega) (by omega), done_bind, done_bind, Civil.week]
    exact congrArg done (by omega)
  | _ => exact ⟨_, rfl, rfl⟩

theorem weekdayName_ofMillis (millis : Int) : weekdayName (Civil.ofMillis millis) =
    done (Civil.ofMillis millis).weekdayAbbreviation := by
  have hlt : (Civil.ofMillis millis).weekday < weekdayAbbreviations.length :=
    Civil.weekday_ofMillis_lt millis
  rw [weekdayName, entry_eq hlt, done_bind, Civil.weekdayAbbreviation,
    List.getElem?_eq_getElem hlt, Option.getD_some]

theorem addDuration_eq (v : Temporal) (d : Duration) : addDuration v d = ofOption (v.add? d) := by
  unfold addDuration addOrRefuse Temporal.add?
  dsimp only
  cases fitsWord (v.millis + d.millis) with
  | false => rfl
  | true => cases v <;> rfl

theorem fields_eq (c : Context) {v : Temporal} (h : fitsWord v.millis = true) :
    fields c v = done (v.fields c) := by
  cases v with
  | instant millis dateOnly hrange =>
    rw [fields, localFields_eq, c.localFields?_of_inRange hrange]
    rfl
  | interval duration => exact ofMillis_eq h

end Checked

namespace Dates

variable (c : Context)

theorem result_toDate_now_eq_ite : (toDate c (.text "now".toList)).result =
    if fitsWord (c.now / millisPerSecond * millisPerSecond) then
      .ofExcept (Temporal.ofInstant (some (c.now / millisPerSecond * millisPerSecond)) false)
    else .stopped := by
  rw [result_toDate_now_eq, word?]
  split_ifs <;> rfl

theorem result_toDate_today_eq_ite : (toDate c (.text "today".toList)).result =
    if fitsWord (c.zone.wallAt c.now) ∧ earliestMidnight ≤ c.zone.wallAt c.now then
      c.zone.dateOfLocal (c.zone.wallAt c.now / millisPerDay * millisPerDay) true
    else .stopped := by
  rw [result_toDate_today_eq, Context.today?, Context.localFields?]
  by_cases hword : fitsWord (c.zone.wallAt c.now) = true
  · rw [if_pos hword, Option.bind_some, Context.localFields, Civil.midnight?_eq_ite hword]
    simp only [hword, true_and]
    split_ifs <;> rfl
  · rw [if_neg hword, if_neg (not_and_of_not_left _ hword)]
    rfl

theorem result_weekIso_eq_ite (u : TimeUnit) {m : Int} (h : fitsWord m = true) :
    (weekIso c (.value (.interval ⟨m, u⟩))).result =
      if earliestMidnight ≤ m then .ok (Civil.ofMillis m).weekIso else .stopped := by
  rw [weekIso, ofFields?, result_ofDate_value, Temporal.fields, Civil.weekIso?_eq_ite h]
  split_ifs <;> rfl

theorem result_dayOfWeek_eq_ite (v : Temporal) {n : Int} (h : fitsWord n = true) :
    (dayOfWeek c (.value v) (some n)).result =
      if n + (v.fields c).weekday ≤ greatestWord then .ok ((v.fields c).weekday + n)
      else .stopped := by
  have hiff : fitsWord ((v.fields c).weekday + n) = true ↔
      n + (v.fields c).weekday ≤ greatestWord := by
    rw [fitsWord_iff] at h ⊢
    unfold greatestWord
    omega
  rw [dayOfWeek, ofFields?, result_ofDate_value, Option.getD_some, word?]
  simp only [hiff]
  split_ifs <;> rfl

end Dates

namespace Checked

/-- Where computations with a word stop. Its fields are found and state the word, but the way back
starts at its midnight, and the midnights of the earliest words are none. So it is with the start of
the current day and with the week of a Thursday. Local time, the whole second of a clock and a
weekday counted from a word have to be words. Nothing else stops: the other fields of a reading are
found, and a sum of a value and a duration that is no word is refused. -/
theorem stops_only_at_extremes (z : Zone) (u : TimeUnit) {m : Int} (hm : fitsWord m = true) :
    let c : Context := ⟨z, .fixed m⟩
    let wall := z.wallAt m
    let v : Temporal := .interval ⟨m, u⟩
    let read := Civil.ofMillis m
    (ofMillis m = done read ∧ read.toMillis = m) ∧
    (toMillis read = .orStop read.toMillis? ∧
      read.toMillis? = if earliestMidnight ≤ m then some m else none) ∧
    (localFields c m = .orStop (c.localFields? m) ∧
      c.localFields? m = if fitsWord wall then some (.ofMillis wall) else none) ∧
    (∀ t, toDate c t = (Dates.toDate c (.text t)).result) ∧
    ((Dates.toDate c (.text "now".toList)).result =
      if fitsWord (m / millisPerSecond * millisPerSecond) then
        .ofExcept (Temporal.ofInstant (some (m / millisPerSecond * millisPerSecond)) false)
      else .stopped) ∧
    ((Dates.toDate c (.text "today".toList)).result =
      if fitsWord wall ∧ earliestMidnight ≤ wall then
        z.dateOfLocal (wall / millisPerDay * millisPerDay) true
      else .stopped) ∧
    (weekIso read = .orStop read.weekIso? ∧
      (Dates.weekIso c (.value v)).result =
        if earliestMidnight ≤ m then .ok read.weekIso else .stopped) ∧
    (∀ p : TimeUnit, p ≠ .isoWeek →
      ∃ n, part read p = done n ∧ (Dates.partOf c p (.value v)).result = .ok n) ∧
    (weekdayName read = done read.weekdayAbbreviation ∧
      (Dates.weekdayName c (.value v)).result = .ok read.weekdayAbbreviation) ∧
    ∀ w : Temporal, fitsWord w.millis = true →
      fields c w = done (w.fields c) ∧
      (∀ n, fitsWord n = true →
        dayOfWeek (w.fields c) (some n) = .orStop (word? ((w.fields c).weekday + n)) ∧
        (Dates.dayOfWeek c (.value w) (some n)).result =
          if n + (w.fields c).weekday ≤ greatestWord then .ok ((w.fields c).weekday + n)
          else .stopped) ∧
      ∀ d, addDuration w d = ofOption (w.add? d) := by
  intro c wall v read
  refine ⟨⟨ofMillis_eq hm, Civil.toMillis_ofMillis m⟩,
    ⟨toMillis_ofMillis hm, Civil.toMillis?_eq_ite hm⟩, ⟨localFields_eq c m, rfl⟩, toDate_eq c,
    Dates.result_toDate_now_eq_ite c, Dates.result_toDate_today_eq_ite c,
    ⟨weekIso_ofMillis hm, Dates.result_weekIso_eq_ite c u hm⟩, fun p hp => ?_,
    ⟨weekdayName_ofMillis m, Dates.result_ofDate_value _ _⟩, fun w hw =>
      ⟨fields_eq c hw, fun n hn => ⟨add_eq_word _ _, Dates.result_dayOfWeek_eq_ite c w hn⟩,
        addDuration_eq w⟩⟩
  obtain ⟨n, hpart, hchecked⟩ := part_ofMillis m hp
  refine ⟨n, hchecked, ?_⟩
  rw [Dates.partOf, Dates.ofFields?, Dates.result_ofDate_value]
  exact congrArg Ending.orStop hpart

theorem stops_only_at_extremes_east :
    let c : Context := ⟨.fixed ⟨840, by decide⟩, .fixed greatestWord⟩
    fitsWord greatestWord = true ∧
      toMillis (Civil.ofMillis greatestWord) = done greatestWord ∧
      c.localFields? greatestWord = none := by
  intro c
  have h : fitsWord greatestWord = true := by decide
  obtain ⟨-, ⟨hchecked, hmillis⟩, ⟨-, hlocal⟩, -⟩ :=
    stops_only_at_extremes (.fixed ⟨840, by decide⟩) .day h
  refine ⟨h, ?_, hlocal.trans (if_neg (by decide))⟩
  rw [hchecked, hmillis, if_pos (by decide)]
  rfl

theorem extremes_stop :
    let latest : Context := ⟨.fixed ⟨840, by decide⟩, .fixed greatestWord⟩
    let earliest : Context := ⟨.fixed .utc, .fixed leastWord⟩
    let v : Temporal := .interval ⟨leastWord, .day⟩
    latest.localFields? latest.now = none ∧
    (Civil.ofMillis leastWord).toMillis? = none ∧
    (Dates.toDate earliest (.text "now".toList)).result = .stopped ∧
    (Dates.toDate earliest (.text "today".toList)).result = .stopped ∧
    (Dates.weekIso earliest (.value v)).result = .stopped ∧
    (Dates.dayOfWeek earliest (.value (.instant 0 false)) (some greatestWord)).result =
      .stopped := by
  decide +kernel

end Checked

end Coercion
