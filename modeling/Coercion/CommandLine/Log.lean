import Coercion.Reporting.Report
import Coercion.Text
import Coercion.Time.Context

namespace Coercion.CommandLine

inductive Level
  | error
  | warn
  | info
  | debug
  | trace
  deriving DecidableEq

namespace Level

def all : List Level :=
  [error, warn, info, debug, trace]

def rank : Level → Nat
  | error => 1
  | warn => 2
  | info => 3
  | debug => 4
  | trace => 5

def name : Level → String
  | error => "ERROR"
  | warn => "WARN"
  | info => "INFO"
  | debug => "DEBUG"
  | trace => "TRACE"

end Level

/-- The parts of the program that write to the log: what runs commands, what reports faults, and
what recognizes the shapes of dates. -/
inductive Source
  | command
  | faults
  | shapes
  deriving DecidableEq

def Source.path (program : Text) : Source → Text
  | command => program
  | faults => program ++ "::error".toList
  | shapes => program ++ "::parser".toList

/-- An entry of the log: a level, a source and named texts, beside fields whose values are not
written. -/
structure Entry where
  level : Level
  source : Source
  fields : List (String × Text)
  unwritten : List String
  deriving DecidableEq

namespace Entry

def ofContext (c : Context) : Entry :=
  ⟨.debug, .command,
    [("message", "date context".toList), ("zone", c.zone.text), ("clock", c.clock.text)], []⟩

def ofEvent : Event → Entry
  | .failed fault =>
    ⟨.warn, .faults,
      [("message", fault.message.toList), ("code", fault.code.toList),
        ("kind", fault.kind.toList)], []⟩
  | .recognized rule =>
    ⟨.trace, .shapes,
      [("message", "date shape recognized".toList), ("rule", rule.name.toList)], ["outcome"]⟩

def hasField (e : Entry) (name : Text) : Bool :=
  (e.fields.map Prod.fst ++ e.unwritten).any fun field => field.toList == name

def quoted (t : Text) : String :=
  let escaped (c : Char) : Text :=
    if c == '"' || c == '\\' then ['\\', c]
    else if c.toNat < 0x20 then
      "\\u".toList ++ (Nat.toDigits 16 c.toNat).leftpad 4 '0'
    else [c]
  String.ofList ('"' :: t.flatMap escaped ++ ['"'])

def json (e : Entry) : String :=
  let fields := e.fields.map fun (name, t) => quoted name.toList ++ ":" ++ quoted t
  "\x7b\"level\":" ++ quoted e.level.name.toList ++ ",\"fields\":\x7b" ++
    ",".intercalate fields ++ "\x7d\x7d"

def line (e : Entry) : String :=
  let fields := e.fields.map fun (name, t) => name ++ "=" ++ quoted t
  e.level.name ++ " " ++ " ".intercalate fields

end Entry

end Coercion.CommandLine
