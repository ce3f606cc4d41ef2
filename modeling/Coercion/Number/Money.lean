import Coercion.Number.Currency
import Coercion.Number.Expansion
import Coercion.Word

namespace Coercion

/-- An amount of money. -/
structure Money where
  cents : Int
  inRange : -99999999999999 ≤ cents ∧ cents ≤ 99999999999999
  deriving DecidableEq

namespace Money

def least : Money := ⟨-99999999999999, by decide⟩

def greatest : Money := ⟨99999999999999, by decide⟩

def ofCents? (cents : Int) : Option Money :=
  if h : -99999999999999 ≤ cents ∧ cents ≤ 99999999999999 then some ⟨cents, h⟩ else none

def toDouble (m : Money) : Double :=
  .div (.ofInt m.cents) (.ofInt 100)

def strip (t : Text) : Text :=
  t.filter fun c => c != ',' && !isCurrencySymbol c

def accumulate? (digits : Text) : Option Int :=
  digits.foldlM (fun (sum : Int) c =>
    let next := sum * 10 + (c.toNat - '0'.toNat : Nat)
    if fitsWord next then some next else none) 0

/-- The cents of an expansion: the digits up to the second after the point, and one more if the
third is at least five. -/
def centsOf? (e : Expansion) : Option Int :=
  (accumulate? (e.whole ++ (e.fraction ++ ['0', '0']).take 2)).map fun cents =>
    let cents := if e.fraction[2]?.any ('5' ≤ ·) then cents + 1 else cents
    if e.negative then -cents else cents

def coerce (r : Raw) : Except Fault Money :=
  let stripped := match r with
    | .text t => Raw.text (strip t)
    | r => r
  match stripped.finite with
  | .error e => .error e
  | .ok x =>
    if !(Double.le least.toDouble x && Double.le x greatest.toDouble) then
      .error .moneyOverflow
    else
      match (centsOf? (.ofRaw stripped x)).bind ofCents? with
      | some m => .ok m
      | none => .error .moneyOverflow

def text (m : Money) : Text :=
  let cents := m.cents.natAbs
  Text.sign (m.cents < 0) ++ Text.ofNat (cents / 100) ++ '.' :: Text.ofNatPadded 2 (cents % 100)

end Money

end Coercion
