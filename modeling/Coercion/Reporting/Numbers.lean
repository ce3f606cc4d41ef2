import Coercion.Number.Bits
import Coercion.Number.Decimal
import Coercion.Number.Money
import Coercion.Number.Significant
import Coercion.Reporting.Report

namespace Coercion.Numbers

def guard (r : Raw) : Report Double :=
  .reported (.ofExcept r.finite)

def toInteger (width : IntegerWidth) (r : Raw) : Report BoundedInteger :=
  .reported (.ofExcept (BoundedInteger.coerce width r))

def toFloat (width : FloatWidth) (r : Raw) : Report SignificantFloat :=
  .reported (.ofExcept (SignificantFloat.coerce width r))

def toMoney (r : Raw) : Report Money :=
  .reported (.ofExcept (Money.coerce r))

def toDecimal (precision scale : Nat) (r : Raw) : Report Decimal :=
  .reported (.ofExcept (Decimal.coerce r precision scale))

def setDecimal (d : Decimal) (r : Raw) : Report Decimal :=
  .reported (.ofExcept (d.set r))

/-- The result of a bit operation, and why it does not fit the width it came from. -/
structure BitResult where
  result : Int
  failure : Option Fault
  deriving DecidableEq

def bitResults (v : BoundedInteger) (ops : List BitOperation) : List BitResult :=
  ops.map fun op => ⟨v.bitwise op, none⟩

/-- The results of bit operations each on the result of the one before, as long as that fits the
width. -/
def chainedBitResults (v : BoundedInteger) : List BitOperation → Report (List BitResult)
  | [] => pure []
  | op :: ops => do
    let result := v.bitwise op
    match ← Report.attempt (toInteger v.width (.number (.ofInt result))) with
    | .ok next => return ⟨result, none⟩ :: (← chainedBitResults next ops)
    | .error fault => return ⟨result, some fault⟩ :: (← chainedBitResults v ops)

def decimalResults (d : Decimal) : List Raw → Report (List (Except Fault Decimal))
  | [] => pure []
  | r :: rs => do
    match ← Report.attempt (setDecimal d r) with
    | .ok next => return .ok next :: (← decimalResults next rs)
    | .error fault => return .error fault :: (← decimalResults d rs)

end Coercion.Numbers
