import Coercion.Double.Basic
import Coercion.Text

namespace Coercion

/-- Which of two decimals to take when a number lies in the middle between them. -/
inductive Tie
  | even
  | up
  deriving DecidableEq

def Tie.round : Tie → Nat → Nat → Nat
  | even, num, den => roundHalfEven num den
  | up, num, den => (2 * num + den) / (2 * den)

/-- The decimal `0.d₁d₂…dₖ × 10 ^ point`, with no zero in front or at the end. -/
structure Shortest where
  digits : Text
  point : Int
  deriving DecidableEq

namespace Shortest

def halves : Nat := 2 * Double.one

def lower (rank : Nat) : Nat :=
  Layout.double.units (rank - 1) + Layout.double.units rank

def upper (rank : Nat) : Nat :=
  Layout.double.units rank + Layout.double.units (rank + 1)

def readsBack (rank significand : Nat) (exponent : Int) : Bool :=
  let value := significand * Nat.pow 10 exponent.toNat * halves
  let below := lower rank * Nat.pow 10 (-exponent).toNat
  let above := upper rank * Nat.pow 10 (-exponent).toNat
  (below < value && value < above) || (rank % 2 == 0 && below ≤ value && value ≤ above)

def ofSignificand (significand : Nat) (exponent : Int) : Shortest :=
  let digits := Text.ofNat significand
  ⟨(digits.reverse.dropWhile (· == '0')).reverse, digits.length + exponent⟩

def onGrid? (tie : Tie) (rank : Nat) (exponent : Int) : Option Shortest :=
  let num := Layout.double.units rank * Nat.pow 10 (-exponent).toNat
  let den := Double.one * Nat.pow 10 exponent.toNat
  let low := num / den
  let nearest := tie.round num den
  let other := if nearest = low then low + 1 else low
  if readsBack rank nearest exponent then some (ofSignificand nearest exponent)
  else if readsBack rank other exponent then some (ofSignificand other exponent)
  else none

def pointOf (rank : Nat) : Int :=
  (Text.ofNat (Layout.double.units rank * Nat.pow 10 400 / Double.one)).length - 400

def ofRank (tie : Tie) (rank : Nat) : Shortest :=
  let found := (List.range 17).findSome? fun k : Nat => onGrid? tie rank (pointOf rank - (k + 1))
  found.getD ⟨[], 0⟩

end Shortest

end Coercion
