import Coercion.Double.Text
import Coercion.Time.Unit

namespace Coercion

/-- A number of milliseconds and the unit it is written in. -/
structure Duration where
  millis : Int
  unit : TimeUnit
  deriving DecidableEq

namespace Duration

def inUnit? (d : Duration) (u : TimeUnit) : Option Double :=
  u.quantity? (.ofInt d.millis)

def text (d : Duration) : Text :=
  ((d.inUnit? d.unit).getD .zero).text ++ ' ' :: d.unit.plural.toList

end Duration

end Coercion
