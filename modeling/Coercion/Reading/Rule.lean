import Coercion.Ending
import Coercion.Reading.Interval

namespace Coercion

open Calendar

/-- A rule, named for the shape that it recognizes. -/
inductive ShapeRule
  | intervalSequence
  | keyword
  | dayMonthNameYear
  | monthDayYear
  | yearMonthDay
  | dottedYearMonthDay
  | underscoredYearMonthDay
  | monthDay
  | packedMonthDayYear
  | timeOfDay
  | packedYearMonthDay
  | dottedDayMonthYear
  | yearMonthNameDay
  | monthNameDayYear
  deriving DecidableEq

/-- A text for the readers of dates, with the day, month and year to check first. A day of zero
stands for nothing to check. -/
structure Restated where
  text : Text
  day : Double
  month : Double
  year : Double
  dateOnly : Bool
  deriving DecidableEq

namespace Restated

def unchanged (s : Shape) : Restated :=
  ⟨s.text, .zero, .zero, .zero, s.dateOnly⟩

def check (r : Restated) : Except Fault Unit :=
  if r.day.isNaN || r.month.isNaN || r.year.isNaN then .error .invalidDate
  else if !r.day.isPositive then .ok ()
  else
    match r.day.integer?, r.month.integer?, r.year.integer? with
    | some day, some month, some year =>
      if isValidDate (clampWord day) (clampWord month) (clampWord year) then .ok ()
      else .error .invalidDayMonth
    | _, _, _ => .error .invalidDayMonth

end Restated

/-- What a rule makes of a text: a value, or a text to read on. -/
inductive Recognition
  | value (v : Temporal)
  | restated (r : Restated)
  deriving DecidableEq

namespace ShapeRule

def all : List ShapeRule :=
  [intervalSequence, keyword, dayMonthNameYear, monthDayYear, yearMonthDay, dottedYearMonthDay,
    underscoredYearMonthDay, monthDay, packedMonthDayYear, timeOfDay, packedYearMonthDay,
    dottedDayMonthYear, yearMonthNameDay, monthNameDayYear]

def name : ShapeRule → String
  | intervalSequence => "interval sequence"
  | keyword => "keyword"
  | dayMonthNameYear => "dd-mmm-yyyy"
  | monthDayYear => "mm/dd/yyyy"
  | yearMonthDay => "yyyy-mm-dd"
  | dottedYearMonthDay => "yyyy.mm.dd"
  | underscoredYearMonthDay => "yyyy_mm_dd"
  | monthDay => "mm/dd"
  | packedMonthDayYear => "mmddyy"
  | timeOfDay => "hh:mm"
  | packedYearMonthDay => "yyyymmdd"
  | dottedDayMonthYear => "dd.mm.yyyy"
  | yearMonthNameDay => "yyyy-mmm-dd"
  | monthNameDayYear => "mmm-dd-yyyy"

def isNumberOfBytes (bytes : Nat) (t : Text) : Bool :=
  Text.byteLength t == bytes && (numberOf t).isFinite

def partIsNumber (index bytes : Nat) (s : Shape) : Bool :=
  (Text.split (· == 'T') s.text)[index]?.any (isNumberOfBytes bytes)

/-- Whether the text of a shape is the one of a rule. -/
def recognizes (s : Shape) : ShapeRule → Bool
  | intervalSequence => IntervalText.recognizes s.tokens
  | keyword => s.text == "now".toList || s.text == "today".toList
  | dayMonthNameYear => s.has 2 '-' && s.has 6 '-'
  | monthDayYear => (s.has 2 '/' && s.has 5 '/') || (s.has 2 '-' && s.has 5 '-')
  | yearMonthDay => s.has 4 '-' && s.has 7 '-'
  | dottedYearMonthDay => s.has 4 '.' && s.has 7 '.'
  | underscoredYearMonthDay => s.has 4 '_' && s.has 7 '_'
  | monthDay => s.has 2 '/' || s.has 2 '-'
  | packedMonthDayYear => isNumberOfBytes 6 s.firstToken
  | timeOfDay => s.has 2 ':'
  | packedYearMonthDay => isNumberOfBytes 8 s.firstToken || partIsNumber 0 8 s
  | dottedDayMonthYear => s.has 2 '.' && s.has 5 '.'
  | yearMonthNameDay => s.has 4 '-' && s.has 8 '-'
  | monthNameDayYear => s.has 3 '-' && s.has 6 '-'

def first? (s : Shape) : Option ShapeRule :=
  all.find? (recognizes s)

def readKeyword (c : Context) (t : Text) : Ending Fault Temporal :=
  if t == "now".toList then
    (Ending.orStop (word? (c.now / millisPerSecond * millisPerSecond))).bind fun now =>
      .ofExcept (Temporal.ofInstant now false)
  else
    (Ending.orStop (c.today?.bind Civil.midnight?)).bind fun midnight =>
      .ofExcept (Temporal.ofInstant (c.zone.instantOfLocal? midnight) true)

def withMidnight (t : Text) : Text :=
  Text.slice 0 10 t ++ " 00:00:00".toList ++ Text.sliceFrom 10 t

def restateDayMonthNameYear (s : Shape) : Restated :=
  { text := s.text
    day := numberOf (s.slice 0 2)
    month := monthNumberOf (s.slice 3 6)
    year := numberOf (s.slice 7 11)
    dateOnly := s.dateOnly }

def restateMonthDayYear (s : Shape) : Restated :=
  let text :=
    if Text.byteLength s.firstToken = 8 then s.slice 0 6 ++ "20".toList ++ s.sliceFrom 6
    else s.text
  { text := text
    day := numberOf (s.slice 3 5)
    month := numberOf (s.slice 0 2)
    year := numberOf (Text.slice 6 10 text)
    dateOnly := s.dateOnly }

def restateYearMonthDay (s : Shape) (text : Text) : Restated :=
  { text := text
    day := numberOf (s.slice 8 10)
    month := numberOf (s.slice 5 7)
    year := numberOf (s.slice 0 4)
    dateOnly := s.dateOnly }

def restateMonthDay (year : Int) (s : Shape) : Restated :=
  { text := s.slice 0 5 ++ s.slice 2 3 ++ Text.ofInt year ++ s.sliceFrom 5
    day := numberOf (s.slice 3 5)
    month := numberOf (s.slice 0 2)
    year := .ofInt year
    dateOnly := s.dateOnly }

def readMonthDay (c : Context) (s : Shape) : Ending Fault Restated :=
  if Text.byteLength s.firstToken = 5 then
    (Ending.orStop c.today?).map fun today => restateMonthDay today.year s
  else .ok (.unchanged s)

def restatePackedMonthDayYear (s : Shape) : Restated :=
  { text := s.slice 0 2 ++ '/' :: s.slice 2 4 ++ "/20".toList ++ s.sliceFrom 4
    day := numberOf (s.slice 2 4)
    month := numberOf (s.slice 0 2)
    year := numberOf ("20".toList ++ s.slice 4 6)
    dateOnly := s.dateOnly }

def restateTimeOfDay (today : Civil) (s : Shape) : Restated :=
  .unchanged (.ofText
    (today.weekdayAbbreviation ++ ' ' :: today.monthAbbreviation ++
      ' ' :: Text.ofNatPadded 2 today.day ++ ' ' :: Text.ofIntPadded 4 today.year ++
      ' ' :: s.text))

def restatePackedYearMonthDay (s : Shape) : Restated :=
  let timed := partIsNumber 1 6 s
  let text :=
    if timed then s.slice 0 11 ++ ':' :: s.slice 11 13 ++ ':' :: s.sliceFrom 13 else s.text
  let hyphenated :=
    Text.slice 0 4 text ++ '-' :: Text.slice 4 6 text ++ '-' :: Text.sliceFrom 6 text
  let dateOnly := s.dateOnly && !timed
  { text := if dateOnly then withMidnight hyphenated else hyphenated
    day := numberOf (Text.slice 6 8 text)
    month := numberOf (Text.slice 4 6 text)
    year := numberOf (Text.slice 0 4 text)
    dateOnly := dateOnly }

def restateDottedDayMonthYear (s : Shape) : Restated :=
  { text := s.slice 3 5 ++ '/' :: s.slice 0 2 ++ '/' :: s.sliceFrom 6
    day := numberOf (s.slice 0 2)
    month := numberOf (s.slice 3 5)
    year := numberOf (s.slice 6 10)
    dateOnly := s.dateOnly }

def restateYearMonthNameDay (s : Shape) : Restated :=
  { text := s.slice 9 11 ++ '-' :: s.slice 5 8 ++ '-' :: s.slice 0 4 ++ s.sliceFrom 11
    day := numberOf (s.slice 9 11)
    month := monthNumberOf (s.slice 5 8)
    year := numberOf (s.slice 0 4)
    dateOnly := s.dateOnly }

def restateMonthNameDayYear (s : Shape) : Restated :=
  { text := s.slice 4 6 ++ '-' :: s.slice 0 3 ++ s.sliceFrom 6
    day := numberOf (s.slice 4 6)
    month := monthNumberOf (s.slice 0 3)
    year := numberOf (s.slice 7 11)
    dateOnly := s.dateOnly }

def read (c : Context) (s : Shape) : ShapeRule → Ending Fault Recognition
  | intervalSequence => (Ending.ofExcept (IntervalText.read s.tokens)).map .value
  | keyword => (readKeyword c s.text).map .value
  | dayMonthNameYear => .ok (.restated (restateDayMonthNameYear s))
  | monthDayYear => .ok (.restated (restateMonthDayYear s))
  | yearMonthDay =>
    .ok (.restated (restateYearMonthDay s (if s.dateOnly then withMidnight s.text else s.text)))
  | dottedYearMonthDay => .ok (.restated (restateYearMonthDay s s.text))
  | underscoredYearMonthDay =>
    .ok (.restated (restateYearMonthDay s
      (s.slice 0 4 ++ '.' :: s.slice 5 7 ++ '.' :: s.sliceFrom 8)))
  | monthDay => (readMonthDay c s).map .restated
  | packedMonthDayYear => .ok (.restated (restatePackedMonthDayYear s))
  | timeOfDay => (Ending.orStop c.today?).map fun today => .restated (restateTimeOfDay today s)
  | packedYearMonthDay => .ok (.restated (restatePackedYearMonthDay s))
  | dottedDayMonthYear => .ok (.restated (restateDottedDayMonthYear s))
  | yearMonthNameDay => .ok (.restated (restateYearMonthNameDay s))
  | monthNameDayYear => .ok (.restated (restateMonthNameDayYear s))

end ShapeRule

end Coercion
