import Coercion.Reading.Wall

namespace Coercion.Iso

def year? : Text → Option (Int × Text)
  | '+' :: t => (fixedDigits? 6 t).map fun (n, rest) => (n, rest)
  | '-' :: t => (fixedDigits? 6 t).map fun (n, rest) => (-n, rest)
  | t => (fixedDigits? 4 t).map fun (n, rest) => (n, rest)

def time? (t : Text) : Option (DayTime × Text) := do
  let (hour, rest) ← fixedDigits? 2 t
  let rest ← match rest with
    | ':' :: rest => some rest
    | _ => none
  let (minute, rest) ← fixedDigits? 2 rest
  let (second, millisecond, rest) ← seconds? rest
  let time ← DayTime.checked? ⟨hour, minute, second, millisecond⟩ none
  some (time, rest)

def offset? (t : Text) : Option (Option Offset) :=
  if t.isEmpty then some none
  else if t == ['Z'] || t == ['z'] then some (some .utc)
  else (Offset.read t).toOption.map some

def dateReading? (date : YearMonthDay) (rest : Text) : Option WallReading :=
  if rest.isEmpty then WallReading.of? date .midnight (some .utc) else none

/-- The date and time of a text: a year, and perhaps a month, a day, and a time with its offset. -/
def read? (t : Text) : Option WallReading := do
  let (year, rest) ← year? t
  match rest with
  | '-' :: rest =>
    let (month, rest) ← fixedDigits? 2 rest
    match rest with
    | '-' :: rest =>
      let (day, rest) ← fixedDigits? 2 rest
      match rest with
      | [] => dateReading? ⟨year, month, day⟩ []
      | mark :: rest =>
        if mark == 'T' || mark == 't' || mark == ' ' then do
          let (time, rest) ← time? rest
          let offset ← offset? rest
          WallReading.of? ⟨year, month, day⟩ time offset
        else none
    | rest => dateReading? ⟨year, month, 1⟩ rest
  | rest => dateReading? ⟨year, 1, 1⟩ rest

end Coercion.Iso
