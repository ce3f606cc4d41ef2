import Coercion.CommandLine.Log
import Coercion.CommandLine.Pattern
import Coercion.Double.Literal

namespace Coercion.CommandLine

/-- How much is written: nothing, or the levels up to one. -/
inductive Verbosity
  | off
  | upTo (last : Level)
  deriving DecidableEq

namespace Verbosity

def all : List Verbosity :=
  off :: Level.all.map upTo

def rank : Verbosity → Nat
  | off => 0
  | upTo last => last.rank

def name : Verbosity → String
  | off => "OFF"
  | upTo last => last.name

def full : Verbosity := upTo .trace

def allows (v : Verbosity) (l : Level) : Bool :=
  l.rank ≤ v.rank

def read? (t : Text) : Option Verbosity :=
  let digits := if t.head? == some '+' then t.tail else t
  if Text.isNumeral digits then all.find? fun v => v.rank == Text.toNat digits
  else all.find? fun v => Text.sameLetters v.name.toList t

def readOrFull? (t : Text) : Option Verbosity :=
  if t.isEmpty then some full else read? t

end Verbosity

/-- What a directive asks of the fields of an entry: one of a name, with a value if one is given. -/
structure FieldTest where
  name : Text
  value : Option Text
  deriving DecidableEq

def FieldTest.read? (t : Text) : Option FieldTest :=
  match Text.split (· == '=') t with
  | name :: value :: _ =>
    if (Double.read? value).isSome || Pattern.isWellFormed value then some ⟨name, some value⟩
    else none
  | _ => if t.isEmpty then none else some ⟨t, none⟩

/-- A verbosity for the entries whose source has a path that starts with a text, that happen within
a span and that have a field, as far as a directive names these. -/
structure Directive where
  source : Option Text
  span : Option Text
  field : Option FieldTest
  verbosity : Verbosity
  deriving DecidableEq

namespace Directive

def ofVerbosity (v : Verbosity) : Directive :=
  ⟨none, none, none, v⟩

def isAbout (program : Text) (e : Entry) (d : Directive) : Bool :=
  d.span.isNone && d.source.all (·.isPrefixOf (e.source.path program)) &&
    d.field.all fun f => f.value.isNone && e.hasField f.name

/-- What directives are compared by, from the front: how long the start of the path is that a
directive names, whether it names a field, and the letters of that. -/
def precision (d : Directive) : List Nat :=
  (d.source.map fun t => t.length + 1).getD 0 ::
    (d.field.map fun f => f.name.map Char.toNat).getD []

def isLessPrecise (d e : Directive) : Bool :=
  List.lex d.precision e.precision fun m n => m < n

abbrev Places := List (Char × Char)

namespace Places

def text (p : Places) : Text :=
  p.map Prod.snd

def cut (test : Char → Bool) (p : Places) : Text × Places :=
  (text (p.takeWhile fun (c, _) => !test c), p.dropWhile fun (c, _) => !test c)

end Places

def isOpening (c : Char) : Bool :=
  let n := c.toNat
  c.isAlphanum || "[-:_".toList.contains c ||
    (0xC0 ≤ n && n < 0x2000 && n != 0xD7 && n != 0xF7) || (0x3041 ≤ n && n < 0xE000) ||
    (0xF900 ≤ n && n < 0xFE00) || (0x10000 ≤ n && n < 0x1D000) || 0x20000 ≤ n

def readEnd? (tail : Text) : Places → Option Verbosity
  | [] => some .full
  | ('=', _) :: p => Verbosity.readOrFull? (Places.text p ++ tail)
  | _ => none

def readBrackets? (source : Option Text) (tail : Text) (p : Places) : Option Directive :=
  let (span, p) := Places.cut (fun c => c == ']' || c == '\x7b') p
  match p with
  | (']', _) :: p => (readEnd? tail p).map fun v => ⟨source, some span, none, v⟩
  | ('\x7b', _) :: p =>
    let (field, p) := Places.cut (· == '\x7d') p
    match p with
    | ('\x7d', _) :: (']', _) :: p => do
      let field ← FieldTest.read? field
      let v ← readEnd? tail p
      some ⟨source, if span.isEmpty then none else some span, some field, v⟩
    | _ => none
  | _ => none

/-- Reads a directive: a verbosity, or a source with a verbosity after an equals sign or with
brackets. A source alone is written in full. -/
def read? (t : Text) : Option Directive :=
  let trimmed := Text.trim t
  let tail := t.drop trimmed.length
  let (source, p) := Places.cut (fun c => c == '=' || c == '[') (trimmed.zip t)
  let source? := if source.isEmpty then none else some source
  if !trimmed.head?.any isOpening then none
  else
    match p with
    | [] => some (((Verbosity.read? t).map ofVerbosity).getD ⟨some t, none, none, .full⟩)
    | ('[', _) :: p => readBrackets? source? tail p
    | _ :: p =>
      (Verbosity.readOrFull? (Places.text p ++ tail)).map fun v => ⟨source?, none, none, v⟩

def decisive? (directives : List Directive) : Option Directive :=
  directives.foldl (fun best d => if best.any d.isLessPrecise then best else some d) none

end Directive

abbrev LogFilter := List Directive

namespace LogFilter

def read? (t : Text) : Option LogFilter :=
  ((Text.split (· == ',') t).filter fun part => !part.isEmpty).mapM Directive.read?

def ofText (t : Option Text) : LogFilter :=
  (t.bind read?).getD [.ofVerbosity (.upTo .warn)]

def allows (filter : LogFilter) (program : Text) (e : Entry) : Bool :=
  (Directive.decisive? (filter.filter (·.isAbout program e))).any (·.verbosity.allows e.level)

end LogFilter

end Coercion.CommandLine
