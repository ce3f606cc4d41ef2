import Coercion.Calendar.Names
import Coercion.Reading.Wall

namespace Coercion.Loose

open Calendar

def number? (most : Nat) (t : Text) : Option Nat :=
  if Text.isNumeral t && t.length ≤ most then some (Text.toNat t) else none

def year? (t : Text) : Option Int :=
  (number? 6 t).map fun n =>
    if t.length ≤ 2 then (if n < 50 then n + 2000 else n + 1900) else n

def month? (t : Text) : Option Nat :=
  monthOfAbbreviation? (t.take 3)

def isWeekday (t : Text) : Bool :=
  (position? weekdayAbbreviations (t.take 3)).isSome

def time? (t : Text) : Option DayTime := do
  let (hour, rest) := Text.splitDigits t
  let hour ← number? 2 hour
  let rest ← match rest with
    | ':' :: rest => some rest
    | _ => none
  let (minute, rest) ← fixedDigits? 2 rest
  let (second, millisecond, rest) ← seconds? rest
  if rest.isEmpty then some ⟨hour, minute, second, millisecond⟩ else none

def date? (t : Text) : Option YearMonthDay := do
  let separator ← t.find? fun c => !c.isAlphanum
  if separator != '/' && separator != '-' && separator != '.' then none
  else
    match Text.split (· == separator) t with
    | [first, second, third] =>
      match month? second with
      | some month => do
        let year ← year? third
        let day ← number? 2 first
        some ⟨year, month, day⟩
      | none =>
        if first.length = 4 then do
          let year ← year? first
          let month ← number? 2 second
          let day ← number? 2 third
          some ⟨year, month, day⟩
        else do
          let year ← year? third
          let month ← number? 2 first
          let day ← number? 2 second
          some ⟨year, month, day⟩
    | _ => none

def namedDate? (month : Nat) : List Text → Option YearMonthDay
  | [only] => if 2 < only.length then (year? only).map fun year => ⟨year, month, 1⟩ else none
  | [first, second] => do
    let (year, day) := if 2 < first.length then (first, second) else (second, first)
    let year ← year? year
    let day ← number? 2 day
    some ⟨year, month, day⟩
  | _ => none

/-- What the tokens of a text have stated. -/
structure Fields where
  date : Option YearMonthDay
  month : Option Nat
  numbers : List Text
  time : Option DayTime
  meridiem : Option Meridiem
  offset : Option Offset
  deriving DecidableEq

namespace Fields

def empty : Fields := ⟨none, none, [], none, none, none⟩

def meridiem? (t : Text) : Option Meridiem :=
  if Text.sameLetters t "am".toList then some .am
  else if Text.sameLetters t "pm".toList then some .pm
  else none

def namesUtc (t : Text) : Bool :=
  t == ['Z'] || Text.sameLetters t "gmt".toList || Text.sameLetters t "utc".toList

def startsWithUtc (t : Text) : Bool :=
  Text.sameLetters (t.take 3) "gmt".toList || Text.sameLetters (t.take 3) "utc".toList

def startsWithSign (t : Text) : Bool :=
  t.head? == some '+' || t.head? == some '-'

def withOffset? (f : Fields) (t : Text) : Option Fields :=
  (Offset.read t).toOption.map fun offset => { f with offset := some offset }

/-- Takes in a token. Nothing but numbers and offsets is stated twice, and only after a time does
a sign start an offset. -/
def add? (f : Fields) (t : Text) : Option Fields :=
  match meridiem? t with
  | some half => if f.meridiem.isNone then some { f with meridiem := some half } else none
  | none =>
    if namesUtc t then some { f with offset := some .utc }
    else if startsWithUtc t then f.withOffset? (t.drop 3)
    else if startsWithSign t && f.time.isSome then f.withOffset? t
    else if t.contains ':' then
      if f.time.isNone then (time? t).map fun time => { f with time := some time } else none
    else if t.all Char.isAlpha then
      match month? t with
      | some month => if f.month.isNone then some { f with month := some month } else none
      | none => if isWeekday t then some f else none
    else if t.all Char.isDigit then some { f with numbers := f.numbers ++ [t] }
    else if f.date.isNone then (date? t).map fun date => { f with date := some date }
    else none

def date? (f : Fields) : Option YearMonthDay :=
  match f.date with
  | some date => if f.month.isNone && f.numbers.isEmpty then some date else none
  | none => f.month.bind fun month => namedDate? month f.numbers

def time? (f : Fields) : Option DayTime :=
  match f.time with
  | some time => time.checked? f.meridiem
  | none => if f.meridiem.isNone then some .midnight else none

end Fields

/-- The tokens of a text up to a parenthesis, which starts a comment. -/
def tokens (t : Text) : List Text :=
  ((Text.split (fun c => c == ' ' || c == ',' || c == '\t') t).filter (!·.isEmpty)).takeWhile
    (·.head? != some '(')

def read? (t : Text) : Option WallReading := do
  let fields ← (tokens t).foldlM Fields.add? .empty
  let date ← fields.date?
  let time ← fields.time?
  WallReading.of? date time fields.offset

end Coercion.Loose
