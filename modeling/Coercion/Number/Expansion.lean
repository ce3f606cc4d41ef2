import Coercion.Number.Raw

namespace Coercion

/-- A decimal expansion. The whole digits start with no zero, and zero has no sign. -/
structure Expansion where
  negative : Bool
  whole : Text
  fraction : Text
  deriving DecidableEq

namespace Expansion

def place (negative : Bool) (digits : Text) (point : Int) : Expansion :=
  let places := point.toNat
  let (whole, fraction) :=
    if point ≤ 0 then ([], List.replicate (-point).toNat '0' ++ digits)
    else if digits.length ≤ places then
      (digits ++ List.replicate (places - digits.length) '0', [])
    else (digits.take places, digits.drop places)
  let whole := whole.dropWhile (· == '0')
  ⟨negative && (!whole.isEmpty || fraction.any (· != '0')), whole, fraction⟩

def maxExponent : Int := 400

def ofLiteral (l : Literal) : Expansion :=
  place l.negative (l.whole ++ l.fraction)
    (l.whole.length + max (-maxExponent) (min maxExponent l.exponent))

def ofDouble : Double → Expansion
  | .finite negative rank =>
    let s := if rank.val = 0 then ⟨[], 0⟩ else Shortest.ofRank .even rank
    place negative s.digits s.point
  | _ => place false [] 0

def ofRaw (r : Raw) (x : Double) : Expansion :=
  match r with
  | .text t => ((Literal.read? (Text.trim t)).map ofLiteral).getD (ofDouble x)
  | _ => ofDouble x

end Expansion

end Coercion
