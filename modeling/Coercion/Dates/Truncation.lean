import Coercion.Fault
import Coercion.Time.Temporal

namespace Coercion

open Calendar

namespace TimeUnit

def start (c : Civil) : TimeUnit → Int
  | year => carriedMillis c.year 0 1 0 0 0
  | quarter => carriedMillis c.year (3 * (c.quarter - 1)) 1 0 0 0
  | month => carriedMillis c.year (c.month - 1) 1 0 0 0
  | week | isoWeek => carriedMillis c.year (c.month - 1) (c.day - c.isoWeekday + 1) 0 0 0
  | day => carriedMillis c.year (c.month - 1) c.day 0 0 0
  | hour => carriedMillis c.year (c.month - 1) c.day c.hour 0 0
  | minute => carriedMillis c.year (c.month - 1) c.day c.hour c.minute 0
  | second => carriedMillis c.year (c.month - 1) c.day c.hour c.minute c.second

def startsDays : TimeUnit → Bool
  | day | week | isoWeek | month | quarter | year => true
  | hour | minute | second => false

def part? (c : Civil) : TimeUnit → Option Int
  | year => some c.year
  | quarter => some c.quarter
  | month => some c.month
  | week => some c.week
  | isoWeek => c.weekIso?.map Int.ofNat
  | day => some c.day
  | hour => some c.hour
  | minute => some c.minute
  | second => some c.second

end TimeUnit

namespace Temporal

def truncate (c : Context) (u : TimeUnit) : Temporal → Except Fault Temporal
  | interval _ => .error .intervalTruncate
  | instant millis _ _ =>
    ofInstant (c.zone.instantOfLocal? (u.start (c.localFields millis))) u.startsDays

/-- Whether daylight saving time is in effect: the offset of an instant is not the lesser one of
the first days of January and July of its year. -/
def isDaylight (c : Context) : Temporal → Bool
  | interval _ => false
  | instant millis _ _ =>
    let year := (c.localFields millis).year
    let january := c.zone.offsetOfLocal (carriedMillis year 0 1 0 0 0)
    let july := c.zone.offsetOfLocal (carriedMillis year 6 1 0 0 0)
    min january.minutes july.minutes != (c.zone.offsetAt millis).minutes

end Temporal

end Coercion
