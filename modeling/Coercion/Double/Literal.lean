import Coercion.Double.Basic
import Coercion.Text

namespace Coercion

/-- A decimal literal: sign, digits before and after the point, and exponent of ten. -/
structure Literal where
  negative : Bool
  whole : Text
  fraction : Text
  exponent : Int
  deriving DecidableEq

namespace Literal

def readExponent? (t : Text) : Option Int :=
  let (negative, digits) := Text.splitSign t
  if Text.isNumeral digits then
    some (if negative then -(Text.toNat digits) else Text.toNat digits)
  else none

def splitFraction : Text → Text × Text
  | '.' :: t => Text.splitDigits t
  | t => ([], t)

def read? (t : Text) : Option Literal :=
  let (negative, unsigned) := Text.splitSign t
  let (whole, afterWhole) := Text.splitDigits unsigned
  let (fraction, rest) := splitFraction afterWhole
  if whole.isEmpty && fraction.isEmpty then none
  else
    match rest with
    | [] => some ⟨negative, whole, fraction, 0⟩
    | mark :: r =>
      if mark == 'e' || mark == 'E' then
        (readExponent? r).map fun exponent => ⟨negative, whole, fraction, exponent⟩
      else none

def significand (l : Literal) : Nat :=
  Text.toNat (l.whole ++ l.fraction)

def scale (l : Literal) : Int :=
  l.exponent - l.fraction.length

def toDouble (l : Literal) : Double :=
  let point := (Text.ofNat l.significand).length + l.scale
  if l.significand = 0 then .ofRank l.negative 0
  else if 310 < point then .infinite l.negative
  else if point < -330 then .ofRank l.negative 0
  else .ofRatio l.negative (l.significand * Nat.pow 10 l.scale.toNat)
      (Nat.pow 10 (-l.scale).toNat)

end Literal

def Double.read? (t : Text) : Option Double :=
  let (negative, word) := Text.splitSign t
  if Text.sameLetters word "inf".toList || Text.sameLetters word "infinity".toList then
    some (.infinite negative)
  else if Text.sameLetters word "nan".toList then some .nan
  else (Literal.read? t).map Literal.toDouble

end Coercion
