import Coercion.Text

namespace Coercion.CommandLine.Pattern

/-- What a character of a pattern follows: the start of an alternative, an item, a backslash, the
start of a group or its options, the start of a set with or without its circumflex, a member of a
set, or a backslash in a set. -/
inductive Place
  | start
  | item
  | escape
  | group
  | options
  | set
  | negatedSet
  | member
  | memberEscape
  deriving DecidableEq

/-- A place with the numbers of the groups and the sets that are open. -/
structure Scan where
  place : Place
  groups : Nat
  sets : Nat
  deriving DecidableEq

def isEscapable (c : Char) : Bool :=
  if c.isAlphanum then "adfnprstuvwxzADPSUW".toList.contains c
  else c.toNat < 0x80 && c != '<' && c != '>'

namespace Scan

def initial : Scan := ⟨.start, 0, 0⟩

def nextItem? (s : Scan) (c : Char) : Option Scan :=
  match c with
  | '\\' => some { s with place := .escape }
  | '(' => some { s with place := .group, groups := s.groups + 1 }
  | ')' => if s.groups = 0 then none else some { s with place := .item, groups := s.groups - 1 }
  | '|' => some { s with place := .start }
  | '[' => some { s with place := .set, sets := 1 }
  | '\x7b' => none
  | c => if "*+?".toList.contains c && s.place != .item then none
    else some { s with place := .item }

def nextMember (s : Scan) (c : Char) : Scan :=
  match c with
  | '\\' => { s with place := .memberEscape }
  | '[' => { s with place := .set, sets := s.sets + 1 }
  | ']' => { s with place := if s.sets = 1 then .item else .member, sets := s.sets - 1 }
  | _ => { s with place := .member }

def next? (s : Scan) (c : Char) : Option Scan :=
  match s.place with
  | .start => s.nextItem? c
  | .item => s.nextItem? c
  | .escape => if isEscapable c then some { s with place := .item } else none
  | .group => if c == '?' then some { s with place := .options } else s.nextItem? c
  | .options =>
    if c == ')' then some { s with place := .start, groups := s.groups - 1 }
    else if c == ':' || c == '>' then some { s with place := .start }
    else if c.isAlphanum || "-<_".toList.contains c then some s
    else none
  | .set =>
    if c == '^' then some { s with place := .negatedSet }
    else if c == ']' then some { s with place := .member }
    else some (s.nextMember c)
  | .negatedSet => some (if c == ']' then { s with place := .member } else s.nextMember c)
  | .member => some (s.nextMember c)
  | .memberEscape => if isEscapable c then some { s with place := .member } else none

def isFinal (s : Scan) : Bool :=
  s.groups == 0 && s.sets == 0 && s.place != .escape

end Scan

def isWellFormed (t : Text) : Bool :=
  (t.foldlM Scan.next? Scan.initial).any Scan.isFinal

end Coercion.CommandLine.Pattern
