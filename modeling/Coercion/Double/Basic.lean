import Coercion.Double.Layout

namespace Coercion

/-- A double precision number. A finite one has the magnitude of its rank. -/
inductive Double
  | nan
  | infinite (negative : Bool)
  | finite (negative : Bool) (rank : Fin Layout.double.count)
  deriving DecidableEq

namespace Double

def one : Nat := Layout.double.unitsInOne

def ofRank (negative : Bool) (rank : Nat) : Double :=
  if h : rank < Layout.double.count then finite negative ⟨rank, h⟩ else infinite negative

def ofRatio (negative : Bool) (num den : Nat) : Double :=
  ofRank negative (Layout.double.nearest num den)

def ofInt (n : Int) : Double :=
  ofRatio (n < 0) n.natAbs 1

def zero : Double := ofInt 0

def magnitude (rank : Fin Layout.double.count) : Nat :=
  Layout.double.units rank

def signed (negative : Bool) (units : Nat) : Int :=
  if negative then -units else units

def isNaN : Double → Bool
  | nan => true
  | _ => false

def isFinite : Double → Bool
  | finite _ _ => true
  | _ => false

def le : Double → Double → Bool
  | nan, _ => false
  | _, nan => false
  | infinite true, _ => true
  | _, infinite false => true
  | infinite false, _ => false
  | _, infinite true => false
  | finite n a, finite m b => signed n (magnitude a) ≤ signed m (magnitude b)

/-- Whether a number lies between `-bound` and `bound`. -/
def within (bound : Int) (x : Double) : Bool :=
  le (ofInt (-bound)) x && le x (ofInt bound)

def isPositive (x : Double) : Bool :=
  le zero x && !le x zero

def isZero (x : Double) : Bool :=
  le zero x && le x zero

def add : Double → Double → Double
  | nan, _ => nan
  | _, nan => nan
  | infinite n, infinite m => if n = m then infinite n else nan
  | infinite n, finite _ _ => infinite n
  | finite _ _, infinite m => infinite m
  | finite n a, finite m b =>
    let sum := signed n (magnitude a) + signed m (magnitude b)
    if sum = 0 then ofRank (n && m) 0 else ofRatio (sum < 0) sum.natAbs one

def mul : Double → Double → Double
  | nan, _ => nan
  | _, nan => nan
  | infinite n, infinite m => infinite (n ^^ m)
  | infinite n, finite m b => if magnitude b = 0 then nan else infinite (n ^^ m)
  | finite n a, infinite m => if magnitude a = 0 then nan else infinite (n ^^ m)
  | finite n a, finite m b => ofRatio (n ^^ m) (magnitude a * magnitude b) (one * one)

def div : Double → Double → Double
  | nan, _ => nan
  | _, nan => nan
  | infinite _, infinite _ => nan
  | infinite n, finite m _ => infinite (n ^^ m)
  | finite n _, infinite m => ofRank (n ^^ m) 0
  | finite n a, finite m b =>
    if magnitude b = 0 then (if magnitude a = 0 then nan else infinite (n ^^ m))
    else ofRatio (n ^^ m) (magnitude a) (magnitude b)

def trunc : Double → Double
  | finite negative rank => ofRatio negative (magnitude rank / one) 1
  | x => x

/-- The integer part of a finite number, and zero for the others. -/
def toInt : Double → Int
  | finite negative rank => signed negative (magnitude rank / one)
  | _ => 0

/-- The integer that a number is, if it is one. -/
def integer? : Double → Option Int
  | finite negative rank =>
    if magnitude rank % one = 0 then some (signed negative (magnitude rank / one)) else none
  | _ => none

def toSingle : Double → Double
  | finite negative rank =>
    let r := Layout.single.nearest (magnitude rank) one
    if r < Layout.single.count then
      ofRatio negative (Layout.single.units r) Layout.single.unitsInOne
    else infinite negative
  | x => x

def toBits : Double → Nat
  | nan => Layout.double.count + 1 <<< 51
  | infinite negative => negative.toNat <<< 63 + Layout.double.count
  | finite negative rank => negative.toNat <<< 63 + rank

def ofBits (bits : Nat) : Double :=
  let negative := bits.testBit 63
  let rank := bits % 1 <<< 63
  if rank ≤ Layout.double.count then ofRank negative rank else nan

def ofSingleBits (bits : Nat) : Double :=
  let negative := bits.testBit 31
  let rank := bits % 1 <<< 31
  if rank < Layout.single.count then
    ofRatio negative (Layout.single.units rank) Layout.single.unitsInOne
  else if rank = Layout.single.count then infinite negative
  else nan

end Double

end Coercion
