import Coercion.Text

namespace Coercion.CommandLine

structure OptionRule where
  name : String
  letter : Option Char
  hyphens : Bool
  deriving DecidableEq

/-- The options and the positional arguments, each with whether it may start with a hyphen. -/
structure Grammar where
  options : List OptionRule
  positionals : List Bool
  deriving DecidableEq

inductive Form
  | escape
  | long (name : Text) (value : Option Text)
  | short (letters : Text)
  | plain
  deriving DecidableEq

def Form.of : Text → Form
  | ['-', '-'] => .escape
  | '-' :: '-' :: t =>
    let value := t.dropWhile (· != '=')
    .long (t.takeWhile (· != '=')) (if value.isEmpty then none else some (value.drop 1))
  | '-' :: c :: t => .short (c :: t)
  | _ => .plain

/-- The arguments taken so far: the values of options, the positional arguments, an option that
waits for its value, and whether only positional arguments follow. -/
structure Taken where
  values : List (String × Text)
  positionals : List Text
  pending : Option OptionRule
  escaped : Bool
  deriving DecidableEq

namespace Taken

def empty : Taken := ⟨[], [], none, false⟩

def value? (m : Taken) (name : String) : Option Text :=
  m.values.lookup name

def set? (m : Taken) (o : OptionRule) (t : Text) : Option Taken :=
  if (m.value? o.name).isSome then none
  else some { m with values := m.values ++ [(o.name, t)], pending := none }

def start? (m : Taken) (o : OptionRule) (value : Option Text) : Option Taken :=
  if m.pending.isSome then none
  else
    match value with
    | some t => m.set? o t
    | none => some { m with pending := some o }

end Taken

/-- What a command line starts with: a command after the options in front of it and with the
arguments after it, or a request for the version. -/
inductive Opening
  | command (before : Taken) (name : Text) (rest : List Text)
  | version
  deriving DecidableEq

namespace Grammar

def ofName? (g : Grammar) (name : Text) : Option OptionRule :=
  g.options.find? fun o => o.name.toList == name

def ofLetter? (g : Grammar) (letter : Char) : Option OptionRule :=
  g.options.find? fun o => o.letter == some letter

def nextTakesHyphens (g : Grammar) (m : Taken) : Bool :=
  g.positionals[m.positionals.length]? == some true

def place? (g : Grammar) (m : Taken) (t : Text) : Option Taken :=
  if m.positionals.length < g.positionals.length then
    some { m with positionals := m.positionals ++ [t] }
  else none

def give? (g : Grammar) (m : Taken) (t : Text) : Option Taken :=
  match m.pending with
  | some o => m.set? o t
  | none => g.place? m t

def take? (g : Grammar) (m : Taken) (t : Text) : Option Taken :=
  if m.escaped then g.place? m t
  else if m.pending.any OptionRule.hyphens then g.give? m t
  else
    match Form.of t with
    | .escape => some { m with escaped := true }
    | .long name value =>
      match g.ofName? name with
      | some o => m.start? o value
      | none => if g.nextTakesHyphens m && name != "help".toList then g.give? m t else none
    | .short letters =>
      let known (c : Char) := c == 'h' || (g.ofLetter? c).isSome
      if g.nextTakesHyphens m && !letters.all known then g.give? m t
      else
        match letters with
        | [] => none
        | c :: rest =>
          (g.ofLetter? c).bind fun o =>
            m.start? o <| match rest with
              | [] => none
              | '=' :: value => some value
              | value => some value
    | .plain => g.give? m t

def takeAll? (g : Grammar) (arguments : List Text) : Option Taken :=
  (arguments.foldlM g.take? Taken.empty).filter (·.pending.isNone)

def takeOpening? (g : Grammar) : Taken → List Text → Option Opening
  | _, [] => none
  | m, t :: rest =>
    if m.pending.isSome || m.escaped then (g.take? m t).bind (g.takeOpening? · rest)
    else
      match Form.of t with
      | .plain => some (.command m t rest)
      | .short ('V' :: _) => some .version
      | .long name none =>
        if name == "version".toList then some .version
        else (g.take? m t).bind (g.takeOpening? · rest)
      | _ => (g.take? m t).bind (g.takeOpening? · rest)

end Grammar

end Coercion.CommandLine
