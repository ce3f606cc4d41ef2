import Coercion.Dates.Rendering
import Coercion.Dates.Truncation
import Coercion.Reading.Temporal

namespace Coercion.Dates

def toDate (c : Context) (input : DateInput) : Report Temporal :=
  .reported (readDate c input)

def ofDate {α : Type} (c : Context) (input : DateInput) (find : Temporal → Ending Fault α) :
    Report α :=
  .reported do
    let v ← readDate c input
    .ofEnding (find v)

def ofFields? {α : Type} (c : Context) (input : DateInput) (find : Civil → Option α) : Report α :=
  ofDate c input fun v => .orStop (find (v.fields c))

def ofFields {α : Type} (c : Context) (input : DateInput) (find : Civil → α) : Report α :=
  ofFields? c input fun fields => some (find fields)

def year (c : Context) (input : DateInput) : Report Int :=
  ofFields c input Civil.year

def quarter (c : Context) (input : DateInput) : Report Nat :=
  ofFields c input Civil.quarter

def month (c : Context) (input : DateInput) : Report Nat :=
  ofFields c input Civil.month

def week (c : Context) (input : DateInput) : Report Nat :=
  ofFields c input Civil.week

def weekIso (c : Context) (input : DateInput) : Report Nat :=
  ofFields? c input Civil.weekIso?

def day (c : Context) (input : DateInput) : Report Nat :=
  ofFields c input Civil.day

def dayOfMonth (c : Context) (input : DateInput) : Report Nat :=
  day c input

/-- The weekday, counted from the number that Sunday is given, which is one by default. -/
def dayOfWeek (c : Context) (input : DateInput) (sunday : Option Int) : Report Int :=
  ofFields? c input fun fields => word? (fields.weekday + sunday.getD 1)

def dayOfYear (c : Context) (input : DateInput) : Report Nat :=
  ofFields c input Civil.ordinal

def weekdayName (c : Context) (input : DateInput) : Report Text :=
  ofFields c input Civil.weekdayAbbreviation

def hour (c : Context) (input : DateInput) : Report Nat :=
  ofFields c input Civil.hour

def minute (c : Context) (input : DateInput) : Report Nat :=
  ofFields c input Civil.minute

def second (c : Context) (input : DateInput) : Report Nat :=
  ofFields c input Civil.second

def subsecond (_ : DateInput) : Report Nat :=
  pure 0

/-- The text of an input by a pattern, or in full. -/
def toText (c : Context) (pattern : Option Text) (input : DateInput) : Report Text :=
  ofDate c input fun v =>
    let fields := v.fields c
    let offset := if v.isInterval then .utc else c.zone.offsetAt v.millis
    .ok <| match pattern with
      | some pattern => Rendering.byPattern pattern fields
      | none => Rendering.full offset fields

/-- The text of an input in UTC, and of a date without time as the local date at midnight. -/
def dateGmt (c : Context) (input : DateInput) : Report Text :=
  ofDate c input fun v =>
    .ok <| if v.isDateOnly then Rendering.gmtDate (c.localFields v.millis)
      else Rendering.gmt (.ofMillis v.millis)

def isDaylight (c : Context) (input : DateInput) : Report Bool :=
  ofDate c input fun v => .ok (v.isDaylight c)

/-- The milliseconds of an input in the unit of a name, if it is one with a length. -/
def interval (c : Context) (unit : Text) (input : DateInput) : Report (Option Double) :=
  ofDate c input fun v => .ok (intervalToUnit? unit (.ofInt v.millis))

def truncateTo (c : Context) (u : TimeUnit) (input : DateInput) : Report Temporal :=
  ofDate c input fun v => .ofExcept (v.truncate c u)

/-- An input truncated to the unit of a name. Intervals fail even where the name is unknown. -/
def dateTruncate (c : Context) (unit : Text) (input : DateInput) : Report (Option Temporal) :=
  ofDate c input fun v =>
    match TimeUnit.ofName? unit with
    | some u => (Ending.ofExcept (v.truncate c u)).map some
    | none => if v.isInterval then .error .intervalTruncate else .ok none

def partOf (c : Context) (u : TimeUnit) (input : DateInput) : Report Int :=
  ofFields? c input fun fields => u.part? fields

def datePart (c : Context) (unit : Text) (input : DateInput) : Report (Option Int) :=
  match TimeUnit.ofName? unit with
  | some u => some <$> partOf c u input
  | none => pure none

def ofTimestamp (seconds : Double) (find : Int → Text) : Report Text :=
  .reported (.ofExcept ((instantOfMillis (seconds.mul (.ofInt 1000))).map fun v => find v.millis))

def dateOfTimestamp (c : Context) (seconds : Double) : Report Text :=
  ofTimestamp seconds fun millis => Rendering.shortDate (c.localFields millis)

def longDateOfTimestamp (c : Context) (seconds : Double) : Report Text :=
  ofTimestamp seconds fun millis => Rendering.longDate (c.localFields millis)

def timeOfTimestamp (c : Context) (seconds : Double) : Report Text :=
  ofTimestamp seconds fun millis => Rendering.shortTime (c.localFields millis)

def gmtOfTimestamp (seconds : Double) : Report Text :=
  ofTimestamp seconds fun millis => Rendering.gmt (.ofMillis millis)

section

variable {α : Type} {c : Context} {input : DateInput} (find : Temporal → Ending Fault α)

theorem result_ofDate {v : Temporal} (h : (readDate c input).result = .ok v) :
    (ofDate c input find).result = find v := by
  rw [ofDate, Report.result_reported, Report.result_bind, h]
  rfl

theorem result_ofDate_value (v : Temporal) : (ofDate c (.value v) find).result = find v :=
  result_ofDate find rfl

end

end Coercion.Dates
