import Coercion.Reading.Instant
import Coercion.Reporting.Report

namespace Coercion

def instantOfMillis (x : Double) : Except Fault Temporal :=
  let whole := x.trunc
  if x.isFinite && whole.within Calendar.maxInstant then Temporal.ofInstant whole.toInt false
  else .error .invalidDate

namespace Restated

/-- The instant of a restated text, once its parts are checked. -/
def read (c : Context) (r : Restated) : Except Fault Temporal :=
  match r.check with
  | .error e => .error e
  | .ok () => Temporal.ofInstant (instantOfText? c.zone r.text) r.dateOnly

end Restated

def readText (c : Context) (t : Text) : Report Temporal := do
  let shape := Shape.ofText t
  match ShapeRule.first? shape with
  | none => .ofExcept ((Restated.unchanged shape).read c)
  | some rule =>
    let recognition ← .ofEnding (rule.read c shape)
    Report.emit (.recognized rule)
    match recognition with
    | .value v => pure v
    | .restated r => .ofExcept (r.read c)

def readDate (c : Context) : DateInput → Report Temporal
  | .value v => pure v
  | .millis x => .ofExcept (instantOfMillis x)
  | .text t => readText c t

end Coercion
