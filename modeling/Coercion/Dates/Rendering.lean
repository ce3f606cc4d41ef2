import Coercion.Calendar.Names
import Coercion.Time.Temporal

namespace Coercion.Rendering

def meridiem (c : Civil) : Text :=
  (if c.hour < 12 then "AM" else "PM").toList

def hour12 (c : Civil) : Text :=
  Text.ofNatPadded 2 (c.hour % 12)

def yearInCentury (c : Civil) : Text :=
  let year := Text.ofInt c.year
  if 4 ≤ year.length then (year.drop 2).take 2 else []

def monthTokens (c : Civil) (pattern : Text) : List (String × Text) :=
  if Text.occurs "MON".toList pattern then
    [("MONTH", c.monthName), ("MON", c.monthName.take 3)]
  else [("MM", Text.ofNatPadded 2 c.month)]

/-- The other tokens and their texts. -/
def tokens (c : Civil) : List (String × Text) :=
  [("HH12", hour12 c), ("HH24", Text.ofNatPadded 2 c.hour), ("HH", hour12 c),
    ("MI", Text.ofNatPadded 2 c.minute), ("SS", Text.ofNatPadded 2 c.second),
    ("DD", Text.ofNatPadded 2 c.day), ("DAY", c.weekdayName), ("DY", c.weekdayName.take 3),
    ("YYYY", Text.ofInt c.year), ("YY", yearInCentury c), ("AM", meridiem c), ("PM", meridiem c)]

def byPattern (pattern : Text) (c : Civil) : Text :=
  (monthTokens c pattern ++ tokens c).foldl
    (fun t (token, text) => Text.replaceFirst token.toList text t) pattern

def full (offset : Offset) (c : Civil) : Text :=
  c.weekdayAbbreviation ++ ' ' :: c.monthAbbreviation ++ ' ' :: Text.ofNatPadded 2 c.day ++
    ' ' :: Text.ofIntPadded 4 c.year ++ ' ' :: Temporal.timeText c ++ ' ' :: offset.gmtText

def underscored (c : Civil) (time : Text) : Text :=
  Text.ofIntPadded 4 c.year ++ '_' :: Text.ofNatPadded 2 c.month ++
    '_' :: Text.ofNatPadded 2 c.day ++ ' ' :: time ++ " GMT".toList

def gmt (c : Civil) : Text :=
  underscored c (Temporal.timeText c)

def gmtDate (c : Civil) : Text :=
  underscored c "00:00:00".toList

def lowerMonth (c : Civil) : Text :=
  c.monthAbbreviation.map Char.toLower

/-- The date of a reading as `d-mmm-yy`, the day with a space in front if it has one digit. -/
def shortDate (c : Civil) : Text :=
  (Text.ofNat c.day).leftpad 2 ' ' ++ '-' :: lowerMonth c ++
    '-' :: (Text.ofIntPadded 4 c.year).drop 2

def longDate (c : Civil) : Text :=
  Text.ofNatPadded 2 c.day ++ '-' :: lowerMonth c ++ '-' :: Text.ofIntPadded 4 c.year

def shortTime (c : Civil) : Text :=
  Text.ofNatPadded 2 c.hour ++ ':' :: Text.ofNatPadded 2 c.minute

end Coercion.Rendering
