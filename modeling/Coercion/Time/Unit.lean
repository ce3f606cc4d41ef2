import Coercion.Calendar.Civil
import Coercion.Double.Basic
import Coercion.Text

namespace Coercion

open Calendar

/-- A unit of time. -/
inductive TimeUnit
  | second
  | minute
  | hour
  | day
  | week
  | isoWeek
  | month
  | quarter
  | year
  deriving DecidableEq

namespace TimeUnit

def all : List TimeUnit :=
  [second, minute, hour, day, week, isoWeek, month, quarter, year]

def rank : TimeUnit → Nat
  | second => 0
  | minute => 1
  | hour => 2
  | day => 3
  | week => 4
  | isoWeek => 5
  | month => 6
  | quarter => 7
  | year => 8

def finer (a b : TimeUnit) : TimeUnit :=
  if b.rank < a.rank then b else a

def name : TimeUnit → String
  | second => "second"
  | minute => "minute"
  | hour => "hour"
  | day => "day"
  | week => "week"
  | isoWeek => "iso-week"
  | month => "month"
  | quarter => "quarter"
  | year => "year"

def plural (u : TimeUnit) : String :=
  u.name ++ "s"

def spellings : TimeUnit → List String
  | second => ["second", "seconds", "sec", "secs"]
  | minute => ["minute", "minutes", "min", "mins"]
  | hour => ["hour", "hours", "hr", "hrs"]
  | day => ["day", "days"]
  | week => ["week", "weeks", "wk", "wks"]
  | isoWeek => ["iso-week", "iso-wk"]
  | month => ["month", "months", "mo", "mos"]
  | quarter => ["quarter", "quarters", "qtr", "qtrs"]
  | year => ["year", "years", "yr", "yrs"]

def ofName? (t : Text) : Option TimeUnit :=
  all.find? fun u => u.spellings.any fun s => Text.sameLetters s.toList t

def measuresIntervals : TimeUnit → Bool
  | second | minute | hour | day | month | year => true
  | week | isoWeek | quarter => false

/-- The length of a unit in milliseconds. Months and years have their mean length of the
Gregorian calendar, and weeks of the year have none. -/
def millis? : TimeUnit → Option Int
  | second => some millisPerSecond
  | minute => some millisPerMinute
  | hour => some millisPerHour
  | day => some millisPerDay
  | week => some (7 * millisPerDay)
  | isoWeek => none
  | month => some 2629746000
  | quarter => some 7889238000
  | year => some 31556952000

def quantity? (u : TimeUnit) (millis : Double) : Option Double :=
  u.millis?.map fun length => millis.div (.ofInt length)

end TimeUnit

/-- A text that names no unit. -/
structure UnknownUnit where
  name : Text
  deriving DecidableEq

def UnknownUnit.message (u : UnknownUnit) : String :=
  "'" ++ String.ofList u.name ++ "' is not a known date unit"

def TimeUnit.read (t : Text) : Except UnknownUnit TimeUnit :=
  match ofName? t with
  | some u => .ok u
  | none => .error ⟨t⟩

def intervalToUnit? (name : Text) (millis : Double) : Option Double :=
  (TimeUnit.ofName? name).bind fun u => u.quantity? millis

end Coercion
