import Coercion.CommandLine.Command
import Coercion.CommandLine.LogFilter
import Coercion.Fallback
import Coercion.Reporting.Dates
import Coercion.Reporting.Numbers

namespace Coercion.CommandLine

/-- What a program takes from its surroundings: its name and version, the variables that stand in
for the options of zone and clock, those for the filter of the log and the zone of the host, and the
reading of the host's clock. -/
structure Surroundings where
  name : Text
  version : Text
  timezone : Option Text
  now : Option Text
  logFilter : Option Text
  hostZone : Option Text
  reading : Int

inductive Failure
  | coercion (fault : Fault)
  | width (fault : InvalidWidth)
  | zone (given : Text) (fault : OffsetFault)
  | clock (given : Text) (fault : Rfc3339.Fault)
  | needlessOperand
  | missingOperand
  | noPosition (operand : Int)
  deriving DecidableEq

namespace Failure

def messages : Failure → String × List String
  | coercion fault => (fault.message, [])
  | width fault => (fault.message, [])
  | zone given fault =>
    ("Invalid --timezone value '" ++ String.ofList given ++ "'", [fault.message])
  | clock given fault =>
    ("Invalid --now value '" ++ String.ofList given ++ "'",
      ["expected 'system', milliseconds since the epoch or an RFC 3339 instant: " ++
        fault.message, fault.message])
  | needlessOperand => ("The not operation takes no operand", [])
  | missingOperand => ("This bit operation requires an operand", [])
  | noPosition operand =>
    (toString operand ++ " is not a bit position between 0 and 31", [])

def causeLines : List String → List String
  | [] => []
  | [cause] => ["    " ++ cause]
  | causes => causes.mapIdx fun i cause => "    " ++ toString i ++ ": " ++ cause

def text (f : Failure) : String :=
  let (message, causes) := f.messages
  "Error: " ++ message ++
    (if causes.isEmpty then "" else "\n\nCaused by:\n" ++ "\n".intercalate (causeLines causes))

end Failure

def bitOperation (verb : BitVerb) (operand : Option Int) : Except Failure BitOperation :=
  match verb, operand with
  | .not, none => .ok .not
  | .not, some _ => .error .needlessOperand
  | _, none => .error .missingOperand
  | .and, some n => .ok (.and n)
  | .andNot, some n => .ok (.andNot n)
  | .or, some n => .ok (.or n)
  | .xor, some n => .ok (.xor n)
  | .shift, some n => .ok (.shift n)
  | .clear, some n => position .clear n
  | .flip, some n => position .flip n
  | .set, some n => position .set n
  | .test, some n => position .test n
where
  position (build : Nat → BitOperation) (n : Int) : Except Failure BitOperation :=
    if 0 ≤ n ∧ n < 32 then .ok (build n.toNat) else .error (.noPosition n)

def fieldText (c : Context) (value : DateInput) (sunday : Option Int) : Field → Report Text
  | .year => Text.ofInt <$> Dates.year c value
  | .quarter => Text.ofNat <$> Dates.quarter c value
  | .month => Text.ofNat <$> Dates.month c value
  | .week => Text.ofNat <$> Dates.week c value
  | .weekIso => Text.ofNat <$> Dates.weekIso c value
  | .day => Text.ofNat <$> Dates.day c value
  | .dayOfMonth => Text.ofNat <$> Dates.dayOfMonth c value
  | .dayOfWeek => Text.ofInt <$> Dates.dayOfWeek c value sunday
  | .dayOfYear => Text.ofNat <$> Dates.dayOfYear c value
  | .dow => Dates.weekdayName c value
  | .hour => Text.ofNat <$> Dates.hour c value
  | .minute => Text.ofNat <$> Dates.minute c value
  | .second => Text.ofNat <$> Dates.second c value
  | .subsecond => Text.ofNat <$> Dates.subsecond value

/-- The diagnostics of a command and its text, or why it fails. -/
structure Execution where
  events : List Event
  result : Ending Failure Text

namespace Execution

def ofReport (r : Report Text) : Execution :=
  ⟨r.events, r.result.mapError .coercion⟩

def failed (f : Failure) : Execution :=
  ⟨[], .error f⟩

def optionalText {α : Type} (text : α → Text) : Option α → Text
  | some a => text a
  | none => "null".toList

def plainText (x : Double) : Text :=
  x.textIn .plain

def of (c : Context) : Command → Execution
  | .guard value => ofReport (plainText <$> Numbers.guard (.text value))
  | .ifNull value fallback =>
    ofReport do
      let x ← (Numbers.guard (.text value)).attempt
      return plainText (ifNull x fallback)
  | .integer width value =>
    match IntegerWidth.ofBytes width with
    | .ok width => ofReport (BoundedInteger.text <$> Numbers.toInteger width (.text value))
    | .error fault => failed (.width fault)
  | .bit verb value operand =>
    let v := Numbers.toInteger .four (.text value)
    ⟨v.events, do
      let v ← v.result.mapError .coercion
      let op ← .ofExcept (bitOperation verb operand)
      return Text.ofInt (v.bitwise op)⟩
  | .float width value =>
    match FloatWidth.ofBytes width with
    | .ok width => ofReport (SignificantFloat.text <$> Numbers.toFloat width (.text value))
    | .error fault => failed (.width fault)
  | .money value => ofReport (Money.text <$> Numbers.toMoney (.text value))
  | .decimal precision scale value =>
    ofReport (Decimal.text <$> Numbers.toDecimal precision scale (.text value))
  | .date value => ofReport (Temporal.isoText c <$> Dates.toDate c (.text value))
  | .field field value sunday => ofReport (fieldText c (.text value) sunday field)
  | .toText value pattern => ofReport (Dates.toText c pattern (.text value))
  | .truncate unit value =>
    ofReport (optionalText (Temporal.isoText c) <$> Dates.dateTruncate c unit (.text value))
  | .part unit value => ofReport (optionalText Text.ofInt <$> Dates.datePart c unit (.text value))
  | .interval unit value =>
    ofReport (optionalText plainText <$> Dates.interval c unit (.text value))
  | .intervalToUnit unit millis =>
    ⟨[], .ok (optionalText plainText (intervalToUnit? unit millis))⟩
  | .dateGmt value => ofReport (Dates.dateGmt c (.text value))
  | .gmtTimestamp seconds => ofReport (Dates.gmtOfTimestamp seconds)
  | .timestamp .short seconds => ofReport (Dates.dateOfTimestamp c seconds)
  | .timestamp .long seconds => ofReport (Dates.longDateOfTimestamp c seconds)
  | .timestamp .time seconds => ofReport (Dates.timeOfTimestamp c seconds)
  | .isDaylight value =>
    ofReport ((fun b => (if b then "true" else "false").toList) <$>
      Dates.isDaylight c (.text value))

end Execution

/-- What a program leaves behind: its exit code, its output, the text of its failure and its
log. -/
structure Outcome where
  exit : Nat
  output : Text
  error : Option String
  jsonLog : Bool
  log : List Entry

namespace Outcome

def usage : Outcome := ⟨2, [], none, false, []⟩

def context (s : Surroundings) (r : Request) : Except Failure Context := do
  let host := HostZone.ofText (s.hostZone.getD [])
  let zone := (r.timezone <|> s.timezone).getD "local".toList
  let now := (r.now <|> s.now).getD "system".toList
  let zone ← (Zone.read host zone).mapError (.zone zone)
  let clock ← (Clock.read s.reading now).mapError (.clock now)
  return ⟨zone, clock⟩

def ofRequest (s : Surroundings) (r : Request) : Outcome :=
  match context s r with
  | .error f => ⟨1, [], some f.text, r.jsonLog, []⟩
  | .ok c =>
    let execution := Execution.of c r.command
    let filter := LogFilter.ofText s.logFilter
    let log := (Entry.ofContext c :: execution.events.map Entry.ofEvent).filter
      (filter.allows s.name)
    match execution.result with
    | .ok t => ⟨0, t ++ ['\n'], none, r.jsonLog, log⟩
    | .error f => ⟨1, [], some f.text, r.jsonLog, log⟩
    | .stopped => ⟨101, [], none, r.jsonLog, log⟩

def of (s : Surroundings) (arguments : List Text) : Outcome :=
  match Demand.read? arguments with
  | some .version => ⟨0, s.name ++ [' '] ++ s.version ++ ['\n'], none, false, []⟩
  | some (.request r) => ofRequest s r
  | none => usage

end Outcome

end Coercion.CommandLine
