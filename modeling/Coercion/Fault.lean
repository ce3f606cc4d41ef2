namespace Coercion

/-- The causes for which a coercion fails. The first violated precondition is reported. -/
inductive Fault
  | notANumber
  | infinite
  | integerOverflow
  | unsafeInteger
  | moneyOverflow
  | invalidDate
  | invalidDayMonth
  | decimalOverflow
  | invalidPrecision
  | invalidScale
  | intervalTruncate
  deriving DecidableEq

namespace Fault

def message : Fault → String
  | notANumber => "Not a Number!"
  | infinite => "Number is Infinity!"
  | integerOverflow => "Integer overflow!"
  | unsafeInteger => "Integer cannot be safely represented!"
  | moneyOverflow => "Money overflow!"
  | invalidDate => "Invalid Date!"
  | invalidDayMonth => "Invalid Day/Month!"
  | decimalOverflow => "Decimal overflow!"
  | invalidPrecision => "Precision must be between 1 and 39!"
  | invalidScale => "Scale cannot be more than precision!"
  | intervalTruncate => "Date truncate only works on absolute dates!"

def code : Fault → String
  | notANumber => "E_US100F_4111"
  | infinite => "E_US1069_4201"
  | integerOverflow => "E_US1068_4200"
  | unsafeInteger => "E_JSunsafeInt"
  | moneyOverflow => "E_US1131_4401"
  | invalidDate => "E_US10CE_4302"
  | invalidDayMonth => "E_US10D1_4305"
  | decimalOverflow => "E_US2535_9525_DECOVF_ERROR"
  | invalidPrecision => "E_DECIMAL_PRECISION"
  | invalidScale => "E_DECIMAL_SCALE"
  | intervalTruncate => "E_US10D9_4313"

def kind : Fault → String
  | notANumber => "NotANumber"
  | infinite => "Infinite"
  | integerOverflow => "IntegerOverflow"
  | unsafeInteger => "UnsafeInteger"
  | moneyOverflow => "MoneyOverflow"
  | invalidDate => "InvalidDate"
  | invalidDayMonth => "InvalidDayMonth"
  | decimalOverflow => "DecimalOverflow"
  | invalidPrecision => "InvalidPrecision"
  | invalidScale => "InvalidScale"
  | intervalTruncate => "IntervalTruncate"

end Fault

end Coercion
