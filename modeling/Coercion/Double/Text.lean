import Coercion.Double.Shortest

namespace Coercion

/-- How a number is written: which of two shortest decimals is taken, where the point may stand for
the digits to be written around it, and the words for zero with a sign and for infinity. -/
structure NumberStyle where
  tie : Tie
  positional : Int → Bool
  negativeZero : Text
  infinity : Text

namespace NumberStyle

def exponential : NumberStyle where
  tie := .even
  positional := fun point => -6 < point && point ≤ 21
  negativeZero := "0".toList
  infinity := "Infinity".toList

def plain : NumberStyle where
  tie := .up
  positional := fun _ => true
  negativeZero := "-0".toList
  infinity := "inf".toList

end NumberStyle

namespace Shortest

def positionalText (s : Shortest) : Text :=
  let places := s.point.toNat
  if s.point ≤ 0 then "0.".toList ++ List.replicate (-s.point).toNat '0' ++ s.digits
  else if s.digits.length ≤ places then
    s.digits ++ List.replicate (places - s.digits.length) '0'
  else s.digits.take places ++ ['.'] ++ s.digits.drop places

def exponentText (s : Shortest) : Text :=
  let exponent := s.point - 1
  let fraction := s.digits.drop 1
  s.digits.take 1 ++ (if fraction.isEmpty then [] else '.' :: fraction) ++
    ['e', if exponent < 0 then '-' else '+'] ++ Text.ofNat exponent.natAbs

end Shortest

def Double.textIn (style : NumberStyle) : Double → Text
  | nan => "NaN".toList
  | infinite negative => Text.sign negative ++ style.infinity
  | finite negative rank =>
    if rank.val = 0 then (if negative then style.negativeZero else "0".toList)
    else
      let s := Shortest.ofRank style.tie rank
      Text.sign negative ++ (if style.positional s.point then s.positionalText else s.exponentText)

def Double.text (x : Double) : Text :=
  x.textIn .exponential

end Coercion
