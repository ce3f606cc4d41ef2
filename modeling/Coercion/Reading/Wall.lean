import Coercion.Time.Zone

namespace Coercion

open Calendar

inductive Meridiem
  | am
  | pm
  deriving DecidableEq

structure DayTime where
  hour : Nat
  minute : Nat
  second : Nat
  millisecond : Nat
  deriving DecidableEq

namespace DayTime

def midnight : DayTime := ⟨0, 0, 0, 0⟩

def checked? (t : DayTime) (meridiem : Option Meridiem) : Option DayTime :=
  let hour := match meridiem with
    | none => if t.hour < 24 then some t.hour else none
    | some half =>
      if 1 ≤ t.hour ∧ t.hour ≤ 12 then
        some (t.hour % 12 + (if half = Meridiem.pm then 12 else 0))
      else none
  if t.minute < 60 ∧ t.second < 60 then hour.map fun hour => { t with hour := hour } else none

end DayTime

/-- A year, a month and a day, not yet checked against each other. -/
structure YearMonthDay where
  year : Int
  month : Nat
  day : Nat
  deriving DecidableEq

/-- A wall clock reading in milliseconds, and the offset it was read with if the text states
one. -/
structure WallReading where
  wall : Int
  offset : Option Offset
  deriving DecidableEq

namespace WallReading

def of? (date : YearMonthDay) (time : DayTime) (offset : Option Offset) : Option WallReading :=
  if 1 ≤ date.month ∧ date.month ≤ 12 ∧ 1 ≤ date.day ∧ date.day ≤ 31 then
    some
      ⟨carriedMillis date.year (date.month - 1) date.day time.hour time.minute time.second +
        time.millisecond, offset⟩
  else none

def instant? (r : WallReading) (z : Zone) : Option Int :=
  match r.offset with
  | some offset => some (r.wall - offset.millis)
  | none => z.instantOfLocal? r.wall

end WallReading

def fixedDigits? (count : Nat) (t : Text) : Option (Nat × Text) :=
  let digits := t.take count
  if digits.length = count ∧ digits.all Char.isDigit then some (Text.toNat digits, t.drop count)
  else none

def fraction : Text → Nat × Text
  | '.' :: t =>
    let (digits, rest) := Text.splitDigits t
    (Text.toNat ((digits ++ ['0', '0', '0']).take 3), rest)
  | t => (0, t)

def seconds? : Text → Option (Nat × Nat × Text)
  | ':' :: t => do
    let (second, rest) ← fixedDigits? 2 t
    let (millisecond, rest) := fraction rest
    some (second, millisecond, rest)
  | t => some (0, 0, t)

end Coercion
