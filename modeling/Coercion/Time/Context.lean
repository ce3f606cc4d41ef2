import Coercion.Time.Rfc3339
import Coercion.Time.Zone

namespace Coercion

/-- Where the current instant comes from: the clock of the host, with its reading, or an instant
in milliseconds. -/
inductive Clock
  | system (reading : Int)
  | fixed (millis : Int)
  deriving DecidableEq

namespace Clock

def now : Clock → Int
  | system reading => reading
  | fixed millis => millis

def text : Clock → Text
  | system _ => "system".toList
  | fixed millis => Text.ofInt millis

def readMillis? (t : Text) : Option Int :=
  let (negative, digits) := Text.splitSign t
  let millis : Int := if negative then -(Text.toNat digits) else Text.toNat digits
  if Text.isNumeral digits && fitsWord millis then some millis else none

def read (reading : Int) (t : Text) : Except Rfc3339.Fault Clock :=
  if Text.sameLetters t "system".toList then .ok (system reading)
  else
    match readMillis? t with
    | some millis => .ok (fixed millis)
    | none => (Rfc3339.read t).map fixed

end Clock

/-- What temporal functions take from their surroundings. -/
structure Context where
  zone : Zone
  clock : Clock
  deriving DecidableEq

namespace Context

def now (c : Context) : Int :=
  c.clock.now

def localFields (c : Context) (instant : Int) : Civil :=
  Civil.ofMillis (c.zone.wallAt instant)

def localFields? (c : Context) (instant : Int) : Option Civil :=
  if fitsWord (c.zone.wallAt instant) then some (c.localFields instant) else none

def today? (c : Context) : Option Civil :=
  c.localFields? c.now

end Context

end Coercion
