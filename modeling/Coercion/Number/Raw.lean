import Coercion.Double.Literal
import Coercion.Double.Text
import Coercion.Fault

namespace Coercion

/-- A value as it comes to a numeric coercion. -/
inductive Raw
  | text (t : Text)
  | flag (b : Bool)
  | number (x : Double)

def Text.toDouble (t : Text) : Double :=
  let t := Text.trim t
  if t.isEmpty then .zero else (Double.read? t).getD .nan

namespace Raw

def toDouble : Raw → Double
  | text t => Text.toDouble t
  | flag b => .ofInt b.toNat
  | number x => x

def finite (r : Raw) : Except Fault Double :=
  match r.toDouble with
  | .nan => .error .notANumber
  | .infinite _ => .error .infinite
  | x => .ok x

theorem isFinite_of_finite {r : Raw} {x : Double} (h : r.finite = .ok x) : x.isFinite = true := by
  unfold finite at h
  split at h
  · cases h
  · cases h
  · obtain rfl := Except.ok.inj h
    cases hx : r.toDouble <;> simp_all [Double.isFinite]

def toText : Raw → Text
  | text t => t
  | flag b => (if b then "true" else "false").toList
  | number x => x.text

end Raw

end Coercion
