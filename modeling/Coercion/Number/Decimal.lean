import Coercion.Number.Expansion

namespace Coercion

/-- The number `unscaled / 10 ^ scale`, written with a precision of up to 39 digits. -/
@[ext]
structure Decimal where
  unscaled : Int
  precision : Nat
  scale : Nat
  precision_inRange : 1 ≤ precision ∧ precision ≤ 39
  scale_le : scale ≤ precision
  deriving DecidableEq

namespace Decimal

def coerce (r : Raw) (precision scale : Nat) : Except Fault Decimal :=
  match r.finite with
  | .error e => .error e
  | .ok x =>
    if hp : ¬(1 ≤ precision ∧ precision ≤ 39) then .error .invalidPrecision
    else if hs : precision < scale then .error .invalidScale
    else
      let e := Expansion.ofRaw r x
      let wholeDigits := if x.isZero then 0 else max 1 e.whole.length
      if precision - scale < wholeDigits then .error .decimalOverflow
      else
        let fraction := e.fraction.take scale
        let fraction := fraction ++ List.replicate (scale - fraction.length) '0'
        .ok ⟨Double.signed e.negative (Text.toNat (e.whole ++ fraction)), precision, scale,
          Decidable.not_not.mp hp, Nat.not_lt.mp hs⟩

def set (d : Decimal) (r : Raw) : Except Fault Decimal :=
  coerce r d.precision d.scale

def isNegative (d : Decimal) : Bool :=
  d.unscaled < 0

def text (d : Decimal) : Text :=
  let digits := Text.ofNatPadded (d.scale + 1) d.unscaled.natAbs
  let places := digits.length - d.scale
  let fraction := digits.drop places
  Text.sign d.isNegative ++ digits.take places ++ (if fraction.isEmpty then [] else '.' :: fraction)

end Decimal

end Coercion
