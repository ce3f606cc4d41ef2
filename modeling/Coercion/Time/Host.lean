import Coercion.Calendar.Civil
import Coercion.Text

namespace Coercion

/-- A yearly transition: the time of day, in seconds, on a weekday of a month. Weekdays count from
Sunday, and the fifth week stands for the last. -/
structure Transition where
  month : Nat
  week : Nat
  weekday : Nat
  time : Int
  deriving DecidableEq

namespace Transition

open Calendar

def day (t : Transition) (year : Int) : Int :=
  let first := carriedDay year (t.month - 1) 1
  let day := first + (t.weekday - (first + 4)) % 7 + 7 * (t.week - 1)
  if day < first + daysInMonth year t.month then day else day - 7

def reading (t : Transition) (year : Int) : Int :=
  t.day year * 86400 + t.time

end Transition

/-- Daylight saving time: the two offsets east of UTC in seconds. It starts at a standard reading
and ends at a daylight reading. -/
structure DaylightRule where
  standard : Int
  daylight : Int
  starts : Transition
  ends : Transition
  deriving DecidableEq

inductive Resolution
  | unique (offset : Int)
  | repeated (first second : Int)
  | skipped
  deriving DecidableEq

namespace DaylightRule

def yearOf (seconds : Int) : Int :=
  (Calendar.dateOfDay (seconds / 86400)).year

def inEffect (r : DaylightRule) (instant : Int) : Bool :=
  let year := yearOf instant
  let start := r.starts.reading year - r.standard
  let stop := r.ends.reading year - r.daylight
  if start < stop then start ≤ instant && instant < stop
  else instant < stop || start ≤ instant

def offsetAt (r : DaylightRule) (instant : Int) : Int :=
  if r.inEffect instant then r.daylight else r.standard

def resolve (r : DaylightRule) (wall : Int) : Resolution :=
  let year := yearOf wall
  let start := r.starts.reading year
  let stop := r.ends.reading year
  let gap := r.daylight - r.standard
  if start < stop then
    if wall ≤ start then .unique r.standard
    else if wall < start + gap then .skipped
    else if wall < stop - gap then .unique r.daylight
    else if wall ≤ stop then .repeated r.standard r.daylight
    else .unique r.standard
  else
    if wall < stop - gap then .unique r.daylight
    else if wall ≤ stop then .repeated r.standard r.daylight
    else if wall < start then .unique r.standard
    else if wall < start + gap then .skipped
    else .unique r.daylight

end DaylightRule

/-- Local time on the host. -/
inductive HostZone
  | constant (offset : Int)
  | daylight (rule : DaylightRule)
  deriving DecidableEq

namespace HostZone

def utc : HostZone := .constant 0

def offsetAt : HostZone → Int → Int
  | constant offset, _ => offset
  | daylight rule, instant => rule.offsetAt instant

def resolve : HostZone → Int → Resolution
  | constant offset, _ => .unique offset
  | daylight rule, wall => rule.resolve wall

def readName? (t : Text) : Option Text :=
  if 3 ≤ (t.takeWhile Char.isAlpha).length then some (t.dropWhile Char.isAlpha) else none

def readAfter? (mark : Char) : Text → Option (Nat × Text)
  | [] => some (0, [])
  | c :: t =>
    if c = mark then
      let (digits, rest) := Text.splitDigits t
      if digits.isEmpty then none else some (Text.toNat digits, rest)
    else some (0, c :: t)

def readClock? (maxHours : Nat) (t : Text) : Option (Int × Text) := do
  let (negative, unsigned) := Text.splitSign t
  let (digits, rest) := Text.splitDigits unsigned
  let (minutes, rest) ← readAfter? ':' rest
  let (seconds, rest) ← readAfter? ':' rest
  let hours := Text.toNat digits
  if digits.isEmpty || maxHours < hours || 60 ≤ minutes || 60 ≤ seconds then none
  let total : Int := hours * 3600 + minutes * 60 + seconds
  some (if negative then -total else total, rest)

def readTransition? (t : Text) : Option (Transition × Text) := do
  let rest ← match t with
    | ',' :: 'M' :: rest => some rest
    | _ => none
  let (month, rest) := Text.splitDigits rest
  let (week, rest) ← readAfter? '.' rest
  let (weekday, rest) ← readAfter? '.' rest
  let (time, rest) ← match rest with
    | '/' :: rest => readClock? 167 rest
    | rest => some (7200, rest)
  let month := Text.toNat month
  if month < 1 || 12 < month || week < 1 || 5 < week || 6 < weekday then none
  some (⟨month, week, weekday, time⟩, rest)

def readDaylight? (standard : Int) (t : Text) : Option HostZone := do
  let rest ← readName? t
  let (west, rest) ← match rest with
    | ',' :: _ => some (standard - 3600, rest)
    | _ => readClock? 24 rest
  let (starts, rest) ← readTransition? rest
  let (ends, rest) ← readTransition? rest
  if rest.isEmpty then some (.daylight ⟨-standard, -west, starts, ends⟩) else none

def read? (t : Text) : Option HostZone := do
  let rest ← readName? t
  let (west, rest) ← readClock? 24 rest
  if rest.isEmpty then some (.constant (-west)) else readDaylight? west rest

def ofText (t : Text) : HostZone :=
  (read? t).getD utc

end HostZone

end Coercion
