import Coercion.Calendar.Civil
import Coercion.Text

namespace Coercion

/-- An offset of at most fourteen hours. East of UTC it is positive. -/
structure Offset where
  minutes : Int
  inRange : -840 ≤ minutes ∧ minutes ≤ 840
  deriving DecidableEq

/-- Why a text or a number is no offset. -/
inductive OffsetFault
  | malformed
  | outOfRange (minutes : Int)
  deriving DecidableEq

def OffsetFault.message : OffsetFault → String
  | malformed => "timezone offsets are written Z, UTC, +hh:mm or -hh:mm"
  | outOfRange minutes =>
    "invalid timezone offset " ++ toString (minutes.tdiv 60) ++ ":" ++
      toString (minutes.natAbs % 60)

namespace Offset

def utc : Offset := ⟨0, by decide⟩

def ofMinutes (minutes : Int) : Except OffsetFault Offset :=
  if h : -840 ≤ minutes ∧ minutes ≤ 840 then .ok ⟨minutes, h⟩ else .error (.outOfRange minutes)

def ofSeconds? (seconds : Int) : Option Offset :=
  (ofMinutes (seconds.tdiv 60)).toOption

def millis (o : Offset) : Int :=
  o.minutes * Calendar.millisPerMinute

def clockText (o : Offset) (separator : Text) : Text :=
  let minutes := o.minutes.natAbs
  (if o.minutes < 0 then '-' else '+') :: Text.ofNatPadded 2 (minutes / 60) ++ separator ++
    Text.ofNatPadded 2 (minutes % 60)

def text (o : Offset) : Text :=
  if o.minutes = 0 then ['Z'] else o.clockText [':']

def gmtText (o : Offset) : Text :=
  "GMT".toList ++ o.clockText []

def readClock (negative : Bool) (t : Text) : Except OffsetFault Offset :=
  let digits := t.erase ':'
  let minutes := Text.toNat (digits.drop 2)
  if (digits.length == 2 || digits.length == 4) && digits.all Char.isDigit && minutes < 60 then
    let total : Int := Text.toNat (digits.take 2) * 60 + minutes
    ofMinutes (if negative then -total else total)
  else .error .malformed

def read (t : Text) : Except OffsetFault Offset :=
  if t == ['Z'] || Text.sameLetters t "utc".toList then .ok utc
  else
    match t with
    | '-' :: rest => readClock true rest
    | '+' :: rest => readClock false rest
    | _ => .error .malformed

end Offset

end Coercion
