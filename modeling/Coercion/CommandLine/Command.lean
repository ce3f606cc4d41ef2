import Coercion.CommandLine.Grammar
import Coercion.Number.Bits
import Coercion.Number.Raw

namespace Coercion.CommandLine

/-- The fields that a command reads off a date. -/
inductive Field
  | year
  | quarter
  | month
  | week
  | weekIso
  | day
  | dayOfMonth
  | dayOfWeek
  | dayOfYear
  | dow
  | hour
  | minute
  | second
  | subsecond
  deriving DecidableEq

/-- The bit operations of the command line, without their operand. -/
inductive BitVerb
  | and
  | andNot
  | or
  | xor
  | not
  | clear
  | flip
  | set
  | shift
  | test
  deriving DecidableEq

inductive TimestampStyle
  | short
  | long
  | time
  deriving DecidableEq

inductive Command
  | guard (value : Text)
  | ifNull (value : Text) (fallback : Double)
  | integer (width : Nat) (value : Text)
  | bit (verb : BitVerb) (value : Text) (operand : Option Int)
  | float (width : Nat) (value : Text)
  | money (value : Text)
  | decimal (precision scale : Nat) (value : Text)
  | date (value : Text)
  | field (field : Field) (value : Text) (sunday : Option Int)
  | toText (value : Text) (pattern : Option Text)
  | truncate (unit value : Text)
  | part (unit value : Text)
  | interval (unit value : Text)
  | intervalToUnit (unit : Text) (millis : Double)
  | dateGmt (value : Text)
  | gmtTimestamp (seconds : Double)
  | timestamp (style : TimestampStyle) (seconds : Double)
  | isDaylight (value : Text)

def readInteger? (low high : Int) (t : Text) : Option Int :=
  let (negative, digits) := Text.splitSign t
  let n : Int := if negative then -(Text.toNat digits) else Text.toNat digits
  if Text.isNumeral digits ∧ low ≤ n ∧ n ≤ high then some n else none

def readSigned? (width : IntegerWidth) (t : Text) : Option Int :=
  readInteger? width.least width.greatest t

def readByte? (t : Text) : Option Nat :=
  (readInteger? 0 255 t).map Int.toNat

def readWord? {α : Type} (words : List (String × α)) (t : Text) : Option α :=
  (words.find? fun (word, _) => word.toList == t).map Prod.snd

def fieldWords : List (String × Field) :=
  [("year", .year), ("quarter", .quarter), ("month", .month), ("week", .week),
    ("week-iso", .weekIso), ("day", .day), ("day-of-month", .dayOfMonth),
    ("day-of-week", .dayOfWeek), ("day-of-year", .dayOfYear), ("dow", .dow), ("hour", .hour),
    ("minute", .minute), ("second", .second), ("millisecond", .subsecond),
    ("microsecond", .subsecond), ("nanosecond", .subsecond)]

def bitWords : List (String × BitVerb) :=
  [("and", .and), ("and-not", .andNot), ("or", .or), ("xor", .xor), ("not", .not),
    ("clear", .clear), ("flip", .flip), ("set", .set), ("shift", .shift), ("test", .test)]

def styleWords : List (String × TimestampStyle) :=
  [("date", .short), ("date4", .long), ("time", .time)]

namespace Taken

def read? {α : Type} (m : Taken) (name : String) (reader : Text → Option α) (default : α) :
    Option α :=
  match m.value? name with
  | some t => reader t
  | none => some default

def at? (m : Taken) (index : Nat) : Option Text :=
  m.positionals[index]?

end Taken

/-- A command by name: its grammar, and the command that its arguments make up if they are
complete and can be read. -/
structure CommandRule where
  name : String
  options : List OptionRule
  positionals : List Bool
  build : Taken → Option Command

def widthOption : OptionRule := ⟨"width", some 'w', false⟩

def valueRule (name : String) (hyphens : Bool) (build : Text → Command) : CommandRule :=
  ⟨name, [], [hyphens], fun m => (m.at? 0).map build⟩

def unitRule (name : String) (build : Text → Text → Command) : CommandRule :=
  ⟨name, [], [false, false], fun m => do return build (← m.at? 0) (← m.at? 1)⟩

def commandRules : List CommandRule :=
  [valueRule "guard" true .guard,
    ⟨"if-null", [], [true, true], fun m => do
      return .ifNull (← m.at? 0) (← Double.read? (← m.at? 1))⟩,
    ⟨"int", [widthOption], [true], fun m => do
      return .integer (← m.read? "width" readByte? 4) (← m.at? 0)⟩,
    ⟨"bit", [], [false, true, true], fun m => do
      let verb ← readWord? bitWords (← m.at? 0)
      let value ← m.at? 1
      match m.at? 2 with
      | none => return .bit verb value none
      | some t => return .bit verb value (some (← readSigned? .four t))⟩,
    ⟨"float", [widthOption], [true], fun m => do
      return .float (← m.read? "width" readByte? 8) (← m.at? 0)⟩,
    valueRule "money" true .money,
    ⟨"decimal", [⟨"precision", some 'p', false⟩, ⟨"scale", some 's', false⟩], [true], fun m => do
      return .decimal (← m.read? "precision" readByte? 39) (← m.read? "scale" readByte? 0)
        (← m.at? 0)⟩,
    valueRule "date" false .date,
    ⟨"field", [⟨"offset", none, true⟩], [false, false], fun m => do
      let sunday ← m.read? "offset" (fun t => (readSigned? .eight t).map some) none
      return .field (← readWord? fieldWords (← m.at? 0)) (← m.at? 1) sunday⟩,
    ⟨"to-char", [⟨"format", some 'f', false⟩], [false], fun m => do
      return .toText (← m.at? 0) (m.value? "format")⟩,
    unitRule "trunc" .truncate,
    unitRule "part" .part,
    unitRule "interval" .interval,
    ⟨"interval-to-unit", [], [false, true], fun m => do
      return .intervalToUnit (← m.at? 0) (← Double.read? (← m.at? 1))⟩,
    valueRule "date-gmt" false .dateGmt,
    ⟨"gmt-timestamp", [], [true], fun m => do
      return .gmtTimestamp (← Double.read? (← m.at? 0))⟩,
    ⟨"timestamp", [⟨"style", some 's', false⟩], [true], fun m => do
      let style ← m.read? "style" (readWord? styleWords) .long
      return .timestamp style (← Double.read? (← m.at? 0))⟩,
    valueRule "is-dst" false .isDaylight]

def sharedOptions : List OptionRule :=
  [⟨"timezone", none, false⟩, ⟨"now", none, false⟩, ⟨"log-format", none, false⟩]

/-- A command and the shared options around it. -/
structure Request where
  timezone : Option Text
  now : Option Text
  jsonLog : Bool
  command : Command

namespace Request

def jsonWords : List (String × Bool) :=
  [("text", false), ("json", true)]

def read? (before : Taken) (name : Text) (rest : List Text) : Option Request := do
  let rule ← commandRules.find? fun rule => rule.name.toList == name
  let taken ← (Grammar.mk (rule.options ++ sharedOptions) rule.positionals).takeAll? rest
  let command ← rule.build taken
  let jsonBefore ← before.read? "log-format" (readWord? jsonWords) false
  let json ← taken.read? "log-format" (readWord? jsonWords) jsonBefore
  let shared (name : String) := taken.value? name <|> before.value? name
  return ⟨shared "timezone", shared "now", json, command⟩

end Request

inductive Demand
  | version
  | request (r : Request)

def Demand.read? (arguments : List Text) : Option Demand := do
  match ← (Grammar.mk sharedOptions []).takeOpening? .empty arguments with
  | .version => return .version
  | .command before name rest => return .request (← Request.read? before name rest)

end Coercion.CommandLine
