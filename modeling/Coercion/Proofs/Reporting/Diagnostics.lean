import Coercion.CommandLine.Log
import Coercion.Proofs.Reporting.Queries
import Coercion.Reporting.Numbers

namespace Coercion

namespace Report

variable {α : Type}

theorem bind_attempt {β : Type} {r : Report α} {x : Except Fault α} (h : r.result = .ofExcept x)
    (f : Except Fault α → Report β) :
    (attempt r >>= f) = ⟨r.events ++ (f x).events, (f x).result⟩ := by
  rw [attempt, h]
  cases x <;> rfl

end Report

open Report

namespace Dates

variable {α : Type}

end Dates

/-- The calls that can fail: the coercions of numbers, the reading of a date and what is asked of
one, and the texts of timestamps. -/
inductive Call : Type → Type 1
  | guard (r : Raw) : Call Double
  | toInteger (width : IntegerWidth) (r : Raw) : Call BoundedInteger
  | toFloat (width : FloatWidth) (r : Raw) : Call SignificantFloat
  | toMoney (r : Raw) : Call Money
  | toDecimal (precision scale : Nat) (r : Raw) : Call Decimal
  | setDecimal (d : Decimal) (r : Raw) : Call Decimal
  | toDate (c : Context) (input : DateInput) : Call Temporal
  | ask {α : Type} (c : Context) (input : DateInput) (q : Dates.Query α) : Call α
  | dateOfTimestamp (c : Context) (seconds : Double) : Call Text
  | longDateOfTimestamp (c : Context) (seconds : Double) : Call Text
  | timeOfTimestamp (c : Context) (seconds : Double) : Call Text
  | gmtOfTimestamp (seconds : Double) : Call Text

namespace Call

variable {α : Type}

def report : Call α → Report α
  | guard r => Numbers.guard r
  | toInteger width r => Numbers.toInteger width r
  | toFloat width r => Numbers.toFloat width r
  | toMoney r => Numbers.toMoney r
  | toDecimal precision scale r => Numbers.toDecimal precision scale r
  | setDecimal d r => Numbers.setDecimal d r
  | toDate c input => Dates.toDate c input
  | ask c input q => q.report c input
  | dateOfTimestamp c seconds => Dates.dateOfTimestamp c seconds
  | longDateOfTimestamp c seconds => Dates.longDateOfTimestamp c seconds
  | timeOfTimestamp c seconds => Dates.timeOfTimestamp c seconds
  | gmtOfTimestamp seconds => Dates.gmtOfTimestamp seconds

end Call

end Coercion
