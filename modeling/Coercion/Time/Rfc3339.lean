import Coercion.Calendar.Civil
import Coercion.Text.Bytes

namespace Coercion.Rfc3339

open Calendar

/-- Why a text is no instant. -/
inductive Fault
  | tooShort
  | invalid
  | outOfRange
  | tooLong
  deriving DecidableEq

def Fault.message : Fault → String
  | tooShort => "premature end of input"
  | invalid => "input contains invalid characters"
  | outOfRange => "input is out of range"
  | tooLong => "trailing input"

def digits (count : Nat) (t : Text) : Except Fault (Nat × Text) :=
  let head := t.take count
  if Text.byteLength t < count then .error .tooShort
  else if head.length == count && head.all Char.isDigit then
    .ok (Text.toNat head, t.drop count)
  else .error .invalid

def field (low high : Nat) (t : Text) : Except Fault (Nat × Text) := do
  let (n, rest) ← digits 2 t
  if low ≤ n && n ≤ high then .ok (n, rest) else .error .outOfRange

def mark (marks : List Char) : Text → Except Fault Text
  | [] => .error .tooShort
  | c :: t => if marks.contains c then .ok t else .error .invalid

def fraction : Text → Except Fault (Nat × Text)
  | '.' :: t =>
    let (digits, rest) := Text.splitDigits t
    if !digits.isEmpty then .ok (Text.toNat ((digits ++ ['0', '0', '0']).take 3), rest)
    else if rest.isEmpty then .error .tooShort
    else .error .invalid
  | t => .ok (0, t)

def offset : Text → Except Fault (Int × Text)
  | [] => .error .tooShort
  | c :: t =>
    if c == 'Z' || c == 'z' then .ok (0, t)
    else if c == '+' || c == '-' || c == '\u2212' then do
      let (hours, rest) ← digits 2 t
      let rest ← mark [':'] rest
      let (minutes, rest) ← field 0 59 rest
      let total : Int := hours * 60 + minutes
      .ok (if c == '+' then total else -total, rest)
    else .error .invalid

def read (t : Text) : Except Fault Int := do
  let (year, rest) ← digits 4 t
  let rest ← mark ['-'] rest
  let (month, rest) ← field 1 12 rest
  let rest ← mark ['-'] rest
  let (day, rest) ← field 1 31 rest
  let rest ← mark ['T', 't', ' '] rest
  let (hour, rest) ← field 0 23 rest
  let rest ← mark [':'] rest
  let (minute, rest) ← field 0 59 rest
  let rest ← mark [':'] rest
  let (second, rest) ← field 0 60 rest
  let (millisecond, rest) ← fraction rest
  let (offset, rest) ← offset rest
  if offset ≤ -1440 || 1440 ≤ offset then .error .outOfRange
  else if !rest.isEmpty then .error .tooLong
  else if !isValidDate day month year then .error .outOfRange
  else
    .ok (carriedMillis year (month - 1) day hour minute second + millisecond -
      offset * millisPerMinute)

end Coercion.Rfc3339
