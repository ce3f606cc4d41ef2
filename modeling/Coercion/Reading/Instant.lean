import Coercion.Reading.Iso
import Coercion.Reading.Loose

namespace Coercion

def wallReading? (t : Text) : Option WallReading :=
  Iso.read? t <|> Loose.read? t

/-- The instant of a text, if it is in range. A text without an offset is local to the zone. -/
def instantOfText? (z : Zone) (t : Text) : Option Int :=
  ((wallReading? (Text.trim t)).bind (WallReading.instant? · z)).filter Calendar.inRange

end Coercion
