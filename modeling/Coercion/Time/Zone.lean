import Coercion.Time.Host
import Coercion.Time.Offset
import Coercion.Word

namespace Coercion

open Calendar

/-- The local zone: that of the host, or a constant offset. -/
inductive Zone
  | host (rule : HostZone)
  | fixed (offset : Offset)
  deriving DecidableEq

namespace Zone

/-- The milliseconds that the host's rule covers, those of the years up to 262143 before and
262142 after the year zero. -/
def hostKnows (millis : Int) : Bool :=
  -8334601228800000 ≤ millis && millis ≤ 8210266876799999

def offsetAt : Zone → Int → Offset
  | fixed offset, _ => offset
  | host rule, instant =>
    if hostKnows instant then
      (Offset.ofSeconds? (rule.offsetAt (instant / millisPerSecond))).getD .utc
    else .utc

def resolved? (rule : HostZone) (wall : Int) : Option Int :=
  let offset := match rule.resolve (wall / millisPerSecond) with
    | .unique offset => some offset
    | .repeated first _ => some first
    | .skipped => none
  offset.filter fun offset => hostKnows (wall - offset * millisPerSecond)

def offsetOfLocal : Zone → Int → Offset
  | fixed offset, _ => offset
  | host rule, wall =>
    if hostKnows wall then
      ((resolved? rule wall).bind Offset.ofSeconds?).getD
        (offsetAt (host rule) (wall - millisPerDay))
    else .utc

def wallAt (z : Zone) (instant : Int) : Int :=
  instant + (z.offsetAt instant).millis

def instantOfLocal? (z : Zone) (wall : Int) : Option Int :=
  let instant := wall - (z.offsetOfLocal wall).millis
  if inRange instant then some instant else none

def text : Zone → Text
  | host _ => "local".toList
  | fixed offset => offset.text

def read (rule : HostZone) (t : Text) : Except OffsetFault Zone :=
  if Text.sameLetters t "local".toList then .ok (.host rule)
  else (Offset.read t).map .fixed

end Zone

end Coercion
