import Coercion.Fault
import Coercion.Reading.Shape
import Coercion.Time.Temporal

namespace Coercion.IntervalText

open Calendar

def unit? (t : Text) : Option TimeUnit :=
  (TimeUnit.ofName? t).filter TimeUnit.measuresIntervals

def pairs : List Text → List (Text × Text)
  | quantity :: unit :: rest => (quantity, unit) :: pairs rest
  | _ => []

/-- Whether every second token is a unit and the last one is among them. -/
def recognizes (tokens : List Text) : Bool :=
  2 ≤ tokens.length && tokens.length % 2 == 0 &&
    (pairs tokens).all fun (_, unit) => (unit? unit).isSome

def scaled (quantity : Text) (unit : TimeUnit) : Except Fault Double :=
  match numberOf quantity, unit.millis? with
  | .nan, _ => .error .invalidDate
  | _, none => .error .invalidDate
  | x, some length => .ok (x.mul (.ofInt length))

def clockMillis (quantity : Text) : Except Fault Double :=
  let parts := (Text.split (· == ':') quantity).zip [TimeUnit.hour, .minute, .second]
  parts.foldlM (fun total (part, unit) => (scaled part unit).map total.add) .zero

def millisOf (quantity : Text) (unit : TimeUnit) : Except Fault Double :=
  if quantity.contains ':' then
    if unit = .hour then clockMillis quantity else .error .invalidDate
  else scaled quantity unit

/-- The total of the pairs so far and the finest of their units. -/
structure Total where
  millis : Double
  finest : TimeUnit
  deriving DecidableEq

def Total.add (total : Total) : Text × Text → Except Fault Total
  | (quantity, name) =>
    match unit? name with
    | none => .error .invalidDate
    | some unit =>
      (millisOf quantity unit).map fun millis =>
        ⟨total.millis.add millis, total.finest.finer unit⟩

def read (tokens : List Text) : Except Fault Temporal := do
  let total ← (pairs tokens).foldlM Total.add ⟨.zero, .year⟩
  let millis := total.millis.trunc
  if total.millis.isFinite && millis.within maxInstant then
    .ok (.interval ⟨millis.toInt, total.finest⟩)
  else .error .invalidDate

end Coercion.IntervalText
