import Coercion.Calendar.Day
import Coercion.Word

namespace Coercion

namespace Calendar

def millisPerSecond : Int := 1000
def millisPerMinute : Int := 60000
def millisPerHour : Int := 3600000
def millisPerDay : Int := 86400000

/-- Instants lie at most this far from the epoch: a hundred million days. -/
def maxInstant : Int := 100000000 * millisPerDay

def inRange (millis : Int) : Bool :=
  -maxInstant ≤ millis && millis ≤ maxInstant

def carriedMillis (year month0 day hour minute second : Int) : Int :=
  carriedDay year month0 day * millisPerDay + hour * millisPerHour + minute * millisPerMinute +
    second * millisPerSecond

end Calendar

/-- A wall clock reading. Weekdays count from Sunday, which is zero, and the ordinal counts the
days of the year from one. -/
structure Civil where
  year : Int
  month : Nat
  day : Nat
  hour : Nat
  minute : Nat
  second : Nat
  millisecond : Nat
  weekday : Nat
  ordinal : Nat
  deriving DecidableEq

namespace Civil

open Calendar

def ofMillis (millis : Int) : Civil :=
  let days := millis / millisPerDay
  let time := millis % millisPerDay
  let date := dateOfDay days
  { year := date.year
    month := date.month
    day := date.day
    hour := (time / millisPerHour).toNat
    minute := (time % millisPerHour / millisPerMinute).toNat
    second := (time % millisPerMinute / millisPerSecond).toNat
    millisecond := (time % millisPerSecond).toNat
    weekday := ((days + 4) % 7).toNat
    ordinal := (days - carriedDay date.year 0 1 + 1).toNat }

def toMillis (c : Civil) : Int :=
  carriedMillis c.year (c.month - 1) c.day c.hour c.minute c.second + c.millisecond

def midnight (c : Civil) : Int :=
  carriedMillis c.year (c.month - 1) c.day 0 0 0

def midnight? (c : Civil) : Option Int :=
  word? c.midnight

def toMillis? (c : Civil) : Option Int :=
  c.midnight?.bind fun _ => word? c.toMillis

def isoWeekday (c : Civil) : Nat :=
  if c.weekday = 0 then 7 else c.weekday

def quarter (c : Civil) : Nat :=
  (c.month - 1) / 3 + 1

def week (c : Civil) : Nat :=
  (c.ordinal + 7 - c.isoWeekday) / 7

def thursday (c : Civil) : Int :=
  carriedDay c.year (c.month - 1) (c.day + 4 - c.isoWeekday) * millisPerDay

/-- The week number of ISO 8601. A week belongs to the year of its Thursday. -/
def weekIso (c : Civil) : Nat :=
  ((ofMillis c.thursday).ordinal + 6) / 7

def weekIso? (c : Civil) : Option Nat :=
  if fitsWord c.thursday then some c.weekIso else none

end Civil

end Coercion
