import Coercion.Calendar.Names
import Coercion.Double.Literal
import Coercion.Text.Bytes

namespace Coercion

/-- A trimmed text, its tokens between single spaces, and whether it has no time of day. -/
structure Shape where
  text : Text
  tokens : List Text
  dateOnly : Bool
  deriving DecidableEq

namespace Shape

def ofText (t : Text) : Shape :=
  let t := Text.trim t
  ⟨t, Text.split (· == ' ') t, !t.contains ':'⟩

def firstToken (s : Shape) : Text :=
  s.tokens.headD []

def has (s : Shape) (position : Nat) (c : Char) : Bool :=
  Text.hasAt position c s.text

def slice (s : Shape) (start stop : Nat) : Text :=
  Text.slice start stop s.text

def sliceFrom (s : Shape) (start : Nat) : Text :=
  Text.sliceFrom start s.text

end Shape

def numberOf (t : Text) : Double :=
  let t := Text.trim t
  let (negative, unsigned) := Text.splitSign t
  if t.isEmpty then .zero
  else if unsigned == "Infinity".toList then .infinite negative
  else ((Literal.read? t).map Literal.toDouble).getD .nan

def monthNumberOf (t : Text) : Double :=
  if t.isEmpty then .zero
  else .ofInt (((Calendar.monthOfAbbreviation? t).map Int.ofNat).getD (-1))

end Coercion
