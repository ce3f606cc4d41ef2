import Coercion.Calendar.Civil
import Coercion.Text

namespace Coercion

namespace Calendar

def monthNames : List String :=
  ["JANUARY", "FEBRUARY", "MARCH", "APRIL", "MAY", "JUNE", "JULY", "AUGUST", "SEPTEMBER",
    "OCTOBER", "NOVEMBER", "DECEMBER"]

def monthAbbreviations : List String :=
  ["Jan", "Feb", "Mar", "Apr", "May", "Jun", "Jul", "Aug", "Sep", "Oct", "Nov", "Dec"]

def weekdayNames : List String :=
  ["SUNDAY", "MONDAY", "TUESDAY", "WEDNESDAY", "THURSDAY", "FRIDAY", "SATURDAY"]

def weekdayAbbreviations : List String :=
  ["Sun", "Mon", "Tue", "Wed", "Thu", "Fri", "Sat"]

/-- The position of a text in a list of names, up to letter case. -/
def position? (names : List String) (t : Text) : Option Nat :=
  names.findIdx? fun name => Text.sameLetters name.toList t

/-- The month from 1 to 12 that a three-letter abbreviation names. -/
def monthOfAbbreviation? (t : Text) : Option Nat :=
  (position? monthAbbreviations t).map (· + 1)

end Calendar

namespace Civil

open Calendar

def monthName (c : Civil) : Text :=
  (monthNames[c.month - 1]?.getD "").toList

def monthAbbreviation (c : Civil) : Text :=
  (monthAbbreviations[c.month - 1]?.getD "").toList

def weekdayName (c : Civil) : Text :=
  (weekdayNames[c.weekday]?.getD "").toList

def weekdayAbbreviation (c : Civil) : Text :=
  (weekdayAbbreviations[c.weekday]?.getD "").toList

end Civil

end Coercion
