import Coercion.Proofs.Checked.Loose
import Coercion.Proofs.Reading.ReadRanges

namespace Coercion

open Calendar Text

namespace Checked

section

variable {α β : Type}

def orElse (x y : Checked α) : Checked α :=
  match x with
  | .error () => y
  | _ => x

/-- What states no value is no date. -/
def orInvalid : Checked α → Ending Fault α :=
  Ending.mapError fun _ => .invalidDate

theorem orElse_ofOption (x y : Option α) :
    orElse (ofOption x) (ofOption y) = ofOption (x <|> y) := by
  cases x <;> rfl

theorem ofOption_filter (x : Option α) (p : α → Bool) :
    (ofOption x >>= fun a => if p a then done a else refused) = ofOption (x.filter p) := by
  cases x with
  | none => rfl
  | some a =>
    rw [ofOption_some, done_bind, Option.filter_some]
    split_ifs <;> rfl

theorem orInvalid_orStop_bind (x : Option α) (f : α → Checked β) :
    orInvalid (Ending.orStop x >>= f) = (Ending.orStop x).bind fun a => orInvalid (f a) := by
  cases x <;> rfl

theorem orInvalid_ofInstant (millis : Option Int) (dateOnly : Bool) :
    orInvalid (ofOption millis >>= fun n => ofOption (Temporal.instant? n dateOnly)) =
      .ofExcept (Temporal.ofInstant millis dateOnly) := by
  rw [ofOption_bind (g := (Temporal.instant? · dateOnly)) fun _ _ => rfl, Temporal.ofInstant]
  cases millis.bind (Temporal.instant? · dateOnly) <;> rfl

end

def readingInstant (z : Zone) (r : WallReading) : Checked Int :=
  match r.offset with
  | some offset => do subOrRefuse r.wall (← offsetMillis offset)
  | none => instantOfLocal z r.wall

def instantOfText (z : Zone) (t : Text) : Checked Int := do
  let reading ← orElse (isoRead (trim t)) (looseRead (trim t))
  let instant ← readingInstant z reading
  if inRange instant then done instant else refused

def readRestated (c : Context) (r : Restated) : Ending Fault Temporal :=
  match r.check with
  | .error e => .error e
  | .ok () => orInvalid do
      let instant ← instantOfText c.zone r.text
      ofOption (Temporal.instant? instant r.dateOnly)

/-- The local fields of the current instant. -/
def today (c : Context) : Checked Civil :=
  localFields c c.now

/-- The current instant to the second. -/
def now (c : Context) : Checked Temporal := do
  let instant ← mul (c.now / millisPerSecond) millisPerSecond
  ofOption (Temporal.instant? instant false)

def startOfToday (c : Context) : Checked Temporal := do
  let day ← today c
  let instant ← instantOfLocal c.zone (← midnight day)
  ofOption (Temporal.instant? instant true)

def readKeyword (c : Context) (t : Text) : Ending Fault Temporal :=
  orInvalid (if t == "now".toList then now c else startOfToday c)

def readMonthDay (c : Context) (s : Shape) : Checked Restated :=
  if byteLength s.firstToken = 5 then do
    done (ShapeRule.restateMonthDay (← today c).year s)
  else done (.unchanged s)

def restateTimeOfDay (c : Context) (s : Shape) : Checked Restated := do
  let today ← today c
  let weekday ← entry weekdayAbbreviations today.weekday
  let month ← entry monthAbbreviations (← unsigned 18446744073709551616 (today.month - 1))
  done <| .unchanged <| .ofText <|
    weekday.toList ++ ' ' :: month.toList ++ ' ' :: Text.ofNatPadded 2 today.day ++
      ' ' :: Text.ofIntPadded 4 today.year ++ ' ' :: s.text

/-- What a rule makes of a text of its shape. Three rules compute with the current instant. The
others compute with doubles alone, and cut texts where a cut inside a character gives none. -/
def readRule (c : Context) (s : Shape) : ShapeRule → Ending Fault Recognition
  | .keyword => (readKeyword c s.text).map .value
  | .monthDay => (orInvalid (readMonthDay c s)).map .restated
  | .timeOfDay => (orInvalid (restateTimeOfDay c s)).map .restated
  | rule => rule.read c s

/-- The value of a text. -/
def toDate (c : Context) (t : Text) : Ending Fault Temporal :=
  let shape := Shape.ofText t
  match ShapeRule.first? shape with
  | none => readRestated c (.unchanged shape)
  | some rule => (readRule c shape rule).bind fun
    | .value v => .ok v
    | .restated r => readRestated c r

theorem readingInstant_inRange (z : Zone) (r : WallReading) :
    (readingInstant z r >>= fun n => if inRange n then done n else refused) =
      ofOption ((r.instant? z).filter inRange) := by
  unfold readingInstant WallReading.instant?
  cases r.offset with
  | some offset =>
    dsimp only
    rw [offsetMillis_eq, done_bind]
    rw [subOrRefuse_inRange, Option.filter_some]
  | none =>
    dsimp only
    rw [instantOfLocal_eq]
    exact ofOption_filter _ _

theorem instantOfText_eq (z : Zone) (t : Text) :
    instantOfText z t = ofOption (instantOfText? z t) := by
  unfold instantOfText instantOfText? wallReading?
  rw [isoRead_eq, looseRead_eq, orElse_ofOption]
  cases Iso.read? (trim t) <|> Loose.read? (trim t) with
  | none => rfl
  | some r => exact readingInstant_inRange z r

variable {c : Context}

theorem readRestated_eq (c : Context) (r : Restated) :
    readRestated c r = .ofExcept (r.read c) := by
  unfold readRestated Restated.read
  cases r.check with
  | error e => rfl
  | ok _ =>
    dsimp only
    rw [instantOfText_eq, orInvalid_ofInstant]

theorem today_eq (c : Context) : today c = .orStop c.today? :=
  localFields_eq c c.now

theorem fields_of_today? {today : Civil} (h : c.today? = some today) :
    ∃ wall, fitsWord wall = true ∧ today = Civil.ofMillis wall := by
  obtain ⟨hword, rfl⟩ := Context.localFields?_eq_some_iff.mp h
  exact ⟨_, hword, rfl⟩

theorem readKeyword_eq (c : Context) (t : Text) : readKeyword c t = ShapeRule.readKeyword c t := by
  unfold readKeyword ShapeRule.readKeyword
  split_ifs
  · rw [now, mul_eq_word, orInvalid_orStop_bind]
    exact congrArg (Ending.bind _) (funext fun n => orInvalid_ofInstant (some n) false)
  · rw [startOfToday, today_eq, orInvalid_orStop_bind]
    cases htoday : c.today? with
    | none => rfl
    | some today =>
      obtain ⟨wall, hword, rfl⟩ := fields_of_today? htoday
      rw [Ending.orStop_some, Ending.bind_ok, midnight_eq hword, orInvalid_orStop_bind,
        Option.bind_some]
      refine congrArg (Ending.bind _) (funext fun midnight => ?_)
      rw [instantOfLocal_eq, orInvalid_ofInstant]

theorem readMonthDay_eq (c : Context) (s : Shape) :
    orInvalid (readMonthDay c s) = ShapeRule.readMonthDay c s := by
  unfold readMonthDay ShapeRule.readMonthDay
  split_ifs
  · rw [today_eq, orInvalid_orStop_bind]
    rfl
  · rfl

theorem restateTimeOfDay_eq (c : Context) (s : Shape) : orInvalid (restateTimeOfDay c s) =
    (Ending.orStop c.today?).map fun today => ShapeRule.restateTimeOfDay today s := by
  rw [restateTimeOfDay, today_eq, orInvalid_orStop_bind]
  cases htoday : c.today? with
  | none => rfl
  | some today =>
    obtain ⟨wall, -, rfl⟩ := fields_of_today? htoday
    obtain ⟨hm, hm', -, -⟩ := Civil.ofMillis_bounds wall
    have hday : (Civil.ofMillis wall).weekday < 7 := Civil.weekday_ofMillis_lt wall
    have hmonth : (Civil.ofMillis wall).month - 1 < 12 := by omega
    have hindex : unsigned 18446744073709551616 ((Civil.ofMillis wall).month - 1) =
        done ((Civil.ofMillis wall).month - 1) := by
      rw [unsigned_eq (by omega) (by omega)]
      exact congrArg done (Int.toNat_sub _ 1)
    rw [Ending.orStop_some, Ending.bind_ok, Ending.map_ok, entry_eq hday, done_bind, hindex,
      done_bind, entry_eq hmonth, done_bind, ShapeRule.restateTimeOfDay,
      Civil.weekdayAbbreviation, Civil.monthAbbreviation, List.getElem?_eq_getElem hday,
      List.getElem?_eq_getElem hmonth]
    rfl

theorem readRule_eq (c : Context) (s : Shape) (rule : ShapeRule) :
    readRule c s rule = rule.read c s := by
  cases rule with
  | keyword => rw [readRule, readKeyword_eq, ShapeRule.read]
  | monthDay => rw [readRule, readMonthDay_eq, ShapeRule.read]
  | timeOfDay =>
    rw [readRule, restateTimeOfDay_eq, ShapeRule.read]
    cases c.today? <;> rfl
  | _ => rfl

theorem toDate_eq (c : Context) (t : Text) :
    toDate c t = (Dates.toDate c (.text t)).result := by
  rw [Dates.result_toDate_text]
  unfold toDate
  dsimp only
  cases ShapeRule.first? (Shape.ofText t) with
  | none => exact readRestated_eq c _
  | some rule =>
    dsimp only
    rw [readRule_eq]
    cases rule.read c (Shape.ofText t) with
    | error e => rfl
    | stopped => rfl
    | ok recognition =>
      cases recognition with
      | value v => rfl
      | restated r => exact readRestated_eq c r

theorem readRule_ne_stopped (h : inRange c.now = true) (s : Shape) (rule : ShapeRule) :
    rule.read c s ≠ .stopped := by
  have htoday := c.today?_of_inRange h
  have hmidnight : c.today.midnight? = some _ :=
    Civil.midnight?_ofMillis (c.zone.natAbs_wallAt_lt h)
  have hnow := word?_eq_some_iff.mpr ⟨fitsWord_of_inRange (inRange_floor h), rfl⟩
  cases rule with
  | intervalSequence =>
    rw [ShapeRule.read]
    exact Ending.map_ne_stopped Ending.ofExcept_ne_stopped
  | keyword =>
    rw [ShapeRule.read, ShapeRule.readKeyword, htoday, Option.bind_some, hmidnight, hnow]
    simp only [Ending.orStop_some, Ending.bind_ok]
    apply Ending.map_ne_stopped
    split_ifs
    · exact Ending.ofExcept_ne_stopped
    · exact Ending.ofExcept_ne_stopped
  | monthDay =>
    rw [ShapeRule.read, ShapeRule.readMonthDay, htoday]
    split_ifs <;> simp
  | timeOfDay =>
    rw [ShapeRule.read, htoday]
    simp
  | _ => simp [ShapeRule.read]

theorem toDate_ne_stopped (h : inRange c.now = true) (t : Text) :
    (Dates.toDate c (.text t)).result ≠ .stopped := by
  rw [Dates.result_toDate_text]
  cases ShapeRule.first? (Shape.ofText t) with
  | none => exact Ending.ofExcept_ne_stopped
  | some rule =>
    dsimp only
    have hrule := readRule_ne_stopped h (Shape.ofText t) rule
    split
    · simp
    · next hread => exact absurd hread hrule
    · simp
    · exact Ending.ofExcept_ne_stopped

/-- A clock in range lets no step stop the reading of a text, whatever its characters are. It gives
a value in range, or it fails for the form of the text or for its day and month. -/
theorem toDate_of_clock (h : inRange c.now = true) (t : Text) :
    toDate c t = (Dates.toDate c (.text t)).result ∧
      ((∃ v, (Dates.toDate c (.text t)).result = .ok v ∧ |v.millis| ≤ maxInstant) ∨
        (Dates.toDate c (.text t)).result = .error .invalidDate ∨
        (Dates.toDate c (.text t)).result = .error .invalidDayMonth) := by
  refine ⟨toDate_eq c t, ?_⟩
  cases hresult : (Dates.toDate c (.text t)).result with
  | ok v =>
    have hrange := Dates.inRange_of_toDate_text hresult
    simp only [inRange, Bool.and_eq_true, decide_eq_true_eq] at hrange
    exact .inl ⟨v, rfl, abs_le.mpr hrange⟩
  | error e =>
    obtain rfl | rfl := Dates.eq_of_toDate_text_error hresult
    · exact .inr (.inl rfl)
    · exact .inr (.inr rfl)
  | stopped => exact absurd hresult (toDate_ne_stopped h t)

theorem toDate_of_clock_latest :
    let c : Context := ⟨.fixed ⟨840, by decide⟩, .fixed maxInstant⟩
    inRange c.now = true ∧
      toDate c "13:45".toList = .ok (.instant (maxInstant - 900000) false) ∧
      toDate c "12-mar-202é".toList = .error .invalidDate := by
  intro c
  have hclock : inRange c.now = true := by decide
  have htime : (Dates.toDate c (.text "13:45".toList)).result =
      .ok (.instant (maxInstant - 900000) false (by decide)) := by decide +kernel
  have hcut : (Dates.toDate c (.text "12-mar-202é".toList)).result = .error .invalidDate := by
    decide +kernel
  refine ⟨hclock, ?_, ?_⟩
  · rw [(toDate_of_clock hclock "13:45".toList).1, htime]
  · rw [(toDate_of_clock hclock "12-mar-202é".toList).1, hcut]

end Checked

end Coercion
