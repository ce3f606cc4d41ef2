import Coercion.Fault
import Coercion.Time.Context
import Coercion.Time.Duration

namespace Coercion

open Calendar

/-- An instant in milliseconds since the epoch, with the note that it was given without a time of
day, or an interval. -/
inductive Temporal
  | instant (millis : Int) (dateOnly : Bool)
      (inRange : Calendar.inRange millis = true := by first | assumption | decide)
  | interval (duration : Duration)
  deriving DecidableEq

namespace Temporal

def instant? (millis : Int) (dateOnly : Bool) : Option Temporal :=
  if h : inRange millis = true then some (instant millis dateOnly h) else none

def ofInstant (millis : Option Int) (dateOnly : Bool) : Except Fault Temporal :=
  match millis.bind (instant? · dateOnly) with
  | some v => .ok v
  | none => .error .invalidDate

theorem ofInstant_some {n : Int} (h : inRange n = true) (dateOnly : Bool) :
    ofInstant (some n) dateOnly = .ok (instant n dateOnly) := by
  simp only [ofInstant, Option.bind_some, instant?, dif_pos h]

theorem ofInstant_none (dateOnly : Bool) : ofInstant none dateOnly = .error .invalidDate := rfl

theorem ofInstant_of_not_inRange {n : Int} (h : ¬inRange n = true) (dateOnly : Bool) :
    ofInstant (some n) dateOnly = .error .invalidDate := by
  simp only [ofInstant, Option.bind_some, instant?, dif_neg h]

theorem eq_of_ofInstant_error {millis : Option Int} {dateOnly : Bool} {e : Fault}
    (h : ofInstant millis dateOnly = .error e) : e = .invalidDate := by
  unfold ofInstant at h
  split at h
  · cases h
  · exact (Except.error.inj h).symm

theorem ofInstant_eq_ok_iff {millis : Option Int} {dateOnly : Bool} {v : Temporal} :
    ofInstant millis dateOnly = .ok v ↔
      ∃ (n : Int) (h : inRange n = true), millis = some n ∧ v = instant n dateOnly := by
  constructor
  · intro h
    cases millis with
    | none => cases h
    | some n =>
      by_cases hn : inRange n = true
      · rw [ofInstant_some hn] at h
        exact ⟨n, hn, rfl, (Except.ok.inj h).symm⟩
      · rw [ofInstant_of_not_inRange hn] at h
        cases h
  · rintro ⟨n, hn, rfl, rfl⟩
    exact ofInstant_some hn dateOnly

def isInterval : Temporal → Bool
  | instant _ _ _ => false
  | interval _ => true

def isDateOnly : Temporal → Bool
  | instant _ dateOnly _ => dateOnly
  | interval _ => false

def millis : Temporal → Int
  | instant millis _ _ => millis
  | interval duration => duration.millis

def duration? : Temporal → Option Duration
  | instant _ _ _ => none
  | interval duration => some duration

def fields (c : Context) : Temporal → Civil
  | instant millis _ _ => c.localFields millis
  | interval duration => Civil.ofMillis duration.millis

def add? (v : Temporal) (d : Duration) : Option Temporal :=
  let sum := v.millis + d.millis
  if !fitsWord sum then none
  else
    match v with
    | instant _ dateOnly _ => instant? sum dateOnly
    | interval own => some (interval ⟨sum, own.unit⟩)

def yearText (year : Int) : Text :=
  if 0 ≤ year && year ≤ 9999 then Text.ofNatPadded 4 year.natAbs
  else (if year < 0 then '-' else '+') :: Text.ofNatPadded 6 year.natAbs

def dateText (c : Civil) : Text :=
  yearText c.year ++ '-' :: Text.ofNatPadded 2 c.month ++ '-' :: Text.ofNatPadded 2 c.day

def timeText (c : Civil) : Text :=
  Text.ofNatPadded 2 c.hour ++ ':' :: Text.ofNatPadded 2 c.minute ++
    ':' :: Text.ofNatPadded 2 c.second

def isoText (c : Context) : Temporal → Text
  | interval duration => duration.text
  | instant millis true _ => dateText (c.localFields millis)
  | instant millis false _ =>
    let fields := Civil.ofMillis millis
    dateText fields ++ 'T' :: timeText fields ++ ['Z']

end Temporal

/-- A value as it comes to a temporal function: a text, milliseconds since the epoch, or a value
read before. -/
inductive DateInput
  | text (t : Text)
  | millis (x : Double)
  | value (v : Temporal)

end Coercion
