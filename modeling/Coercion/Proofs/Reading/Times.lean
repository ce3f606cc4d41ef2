import Coercion.Proofs.Calendar.Readings
import Coercion.Proofs.Reading.Parts
import Coercion.Proofs.Text.Joining
import Coercion.Reading.Iso
import Coercion.Reading.Loose

namespace Coercion

open Calendar Text

theorem fixedDigits?_append {k : Nat} {a : Text} (ha : IsDigits k a) (t : Text) :
    fixedDigits? k (a ++ t) = some (toNat a, t) := by
  have hall : a.all Char.isDigit = true := List.all_eq_true.mpr ha.isNumber
  obtain rfl := ha.length_eq
  simp [fixedDigits?, hall]

theorem fixedDigits?_ofNatPadded {k n : Nat} (hk : 0 < k) (h : n < 10 ^ k)
    (t : Text) : fixedDigits? k (ofNatPadded k n ++ t) = some (n, t) := by
  simpa using fixedDigits?_append (isDigits_ofNatPadded hk h) t

theorem Loose.number?_ofNatPadded {k n : Nat} (hk : 0 < k) (h : n < 10 ^ k) :
    Loose.number? k (ofNatPadded k n) = some n := by
  have hlen := length_ofNatPadded hk h
  have hne : ofNatPadded k n ≠ [] := by
    intro he
    simp [he] at hlen
    omega
  have hnum := (isNumeral_iff _).mpr ⟨hne, isNumber_ofNatPadded k n⟩
  simp [Loose.number?, hnum, hlen]

/-- A time of day as it is written, `hh:mm` or `hh:mm:ss`. -/
inductive WrittenTime
  | minute (hour minute : Nat)
  | second (hour minute second : Nat)
  deriving DecidableEq

namespace WrittenTime

def text : WrittenTime → Text
  | minute h m => ofNatPadded 2 h ++ ':' :: ofNatPadded 2 m
  | second h m s => ofNatPadded 2 h ++ ':' :: ofNatPadded 2 m ++ ':' :: ofNatPadded 2 s

def dayTime : WrittenTime → DayTime
  | minute h m => ⟨h, m, 0, 0⟩
  | second h m s => ⟨h, m, s, 0⟩

/-- The milliseconds of a time since midnight. -/
def millis (w : WrittenTime) : Int :=
  w.dayTime.hour * millisPerHour + w.dayTime.minute * millisPerMinute +
    w.dayTime.second * millisPerSecond

/-- Whether a day has such a time. -/
def IsValid (w : WrittenTime) : Prop :=
  w.dayTime.hour < 24 ∧ w.dayTime.minute < 60 ∧ w.dayTime.second < 60

def ofCivil (c : Civil) : WrittenTime := .second c.hour c.minute c.second

instance (w : WrittenTime) : Decidable w.IsValid := inferInstanceAs (Decidable (_ ∧ _))

variable {w : WrittenTime}

theorem isDigit_of_mem {c : Char} (h : c ∈ w.text) :
    c.isDigit = true ∨ c = ':' := by
  have hnum (n : Nat) (h : c ∈ ofNatPadded 2 n) : c.isDigit = true := isNumber_ofNatPadded 2 n c h
  cases w <;> simp only [text, List.mem_append, List.mem_cons] at h <;> grind

theorem checked?_dayTime (h : w.IsValid) : w.dayTime.checked? none = some w.dayTime := by
  obtain ⟨hh, hm, hs⟩ := h
  simp [DayTime.checked?, hh, hm, hs]

theorem seconds?_of_head {t : Text} (ht : t.head? ≠ some ':') : seconds? t = some (0, 0, t) := by
  unfold seconds?
  split
  · simp at ht
  · rfl

theorem fraction_of_head {t : Text} (ht : t.head? ≠ some '.') : fraction t = (0, t) := by
  unfold fraction
  split
  · simp at ht
  · rfl

theorem iso_time? (h : w.IsValid) {t : Text} (hcolon : t.head? ≠ some ':')
    (hpoint : t.head? ≠ some '.') : Iso.time? (w.text ++ t) = some (w.dayTime, t) := by
  have hchecked := checked?_dayTime h
  obtain ⟨hh, hm, hs⟩ := h
  cases w with
  | minute hour minute =>
    dsimp only [dayTime] at hh hm hchecked
    simp only [text, dayTime, Iso.time?, List.append_assoc, List.cons_append,
      fixedDigits?_ofNatPadded (k := 2) (n := hour) (by decide) (by omega),
      fixedDigits?_ofNatPadded (k := 2) (n := minute) (by decide) (by omega),
      seconds?_of_head hcolon, Option.bind_eq_bind, Option.bind_some, hchecked]
  | second hour minute second =>
    dsimp only [dayTime] at hh hm hs hchecked
    simp only [text, dayTime, Iso.time?, List.append_assoc, List.cons_append, seconds?,
      fixedDigits?_ofNatPadded (k := 2) (n := hour) (by decide) (by omega),
      fixedDigits?_ofNatPadded (k := 2) (n := minute) (by decide) (by omega),
      fixedDigits?_ofNatPadded (k := 2) (n := second) (by decide) (by omega),
      fraction_of_head hpoint, Option.bind_eq_bind, Option.bind_some, hchecked]

theorem loose_time? (h : w.IsValid) : Loose.time? w.text = some w.dayTime := by
  obtain ⟨hh, hm, hs⟩ := h
  have hsplit (n : Nat) (t : Text) :
      splitDigits (ofNatPadded 2 n ++ ':' :: t) = (ofNatPadded 2 n, ':' :: t) :=
    splitDigits_append (isNumber_ofNatPadded 2 n) (by simp)
  cases w with
  | minute hour minute =>
    dsimp only [dayTime] at hh hm
    have hminute := fixedDigits?_ofNatPadded (k := 2) (n := minute) (by decide) (by omega) []
    rw [List.append_nil] at hminute
    simp [text, dayTime, Loose.time?, hsplit, hminute, seconds?,
      Loose.number?_ofNatPadded (k := 2) (n := hour) (by decide) (by omega)]
  | second hour minute second =>
    dsimp only [dayTime] at hh hm hs
    have hsecond := fixedDigits?_ofNatPadded (k := 2) (n := second) (by decide) (by omega) []
    rw [List.append_nil] at hsecond
    simp [text, dayTime, Loose.time?, hsplit, seconds?, fraction, hsecond,
      fixedDigits?_ofNatPadded (k := 2) (n := minute) (by decide) (by omega),
      Loose.number?_ofNatPadded (k := 2) (n := hour) (by decide) (by omega)]

/-- What stands behind a date: a time after a space, or nothing. -/
def suffix : Option WrittenTime → Text
  | none => []
  | some w => ' ' :: w.text

def suffixTime (w : Option WrittenTime) : DayTime := (w.map dayTime).getD .midnight

theorem startsWithDigit_text (w : WrittenTime) : StartsWithDigit w.text := by
  cases w with
  | minute h m =>
    obtain ⟨c, t, hct, hc⟩ := startsWithDigit_ofNatPadded (k := 2) (by decide) h
    exact ⟨c, _, by rw [text, hct, List.cons_append], hc⟩
  | second h m s =>
    obtain ⟨c, t, hct, hc⟩ := startsWithDigit_ofNatPadded (k := 2) (by decide) h
    exact ⟨c, _, by rw [text, hct, List.cons_append, List.cons_append], hc⟩

theorem contains_text (w : WrittenTime) : w.text.contains ':' = true := by
  cases w <;> simp [text]

/-- Hour and minute, and the seconds behind them in three characters if there are any. -/
theorem exists_text (h : w.IsValid) : ∃ hour minute t, IsDigits 2 hour ∧ IsDigits 2 minute ∧
    w.text = hour ++ ':' :: (minute ++ t) ∧ (t.length = 0 ∨ t.length = 3) := by
  have hdigits {n : Nat} (hn : n < 60) : IsDigits 2 (ofNatPadded 2 n) :=
    isDigits_ofNatPadded (by decide) (by omega)
  obtain ⟨hh, hm, hs⟩ := h
  cases w with
  | minute hour minute =>
    dsimp only [dayTime] at hh hm
    exact ⟨_, _, [], hdigits (hh.trans (by decide)), hdigits hm, by simp [text], .inl rfl⟩
  | second hour minute second =>
    dsimp only [dayTime] at hh hm hs
    refine ⟨_, _, ':' :: ofNatPadded 2 second, hdigits (hh.trans (by decide)), hdigits hm,
      by simp [text], .inr ?_⟩
    rw [List.length_cons, (hdigits hs).length_eq]

theorem isSolid_text (w : WrittenTime) : IsSolid w.text := by
  refine ⟨w.startsWithDigit_text.ne_nil, fun c hc => ?_⟩
  obtain hc | rfl := isDigit_of_mem hc
  · exact isBlank_of_isDigit hc
  · rfl

theorem not_mem_suffix (w : Option WrittenTime) : 'T' ∉ suffix w := by
  cases w with
  | none => simp [suffix]
  | some w =>
    intro h
    obtain h | h := List.mem_cons.mp h
    · simp at h
    · obtain h | h := isDigit_of_mem h <;> simp at h

theorem isAscii_text (w : WrittenTime) : IsAscii w.text := by
  intro c hc
  obtain hc | rfl := isDigit_of_mem hc
  · exact utf8Size_of_isDigit hc
  · decide

theorem isAscii_suffix (w : Option WrittenTime) : IsAscii (suffix w) := by
  cases w with
  | none => exact isAscii_nil
  | some w => exact isAscii_cons.mpr ⟨by decide, w.isAscii_text⟩

theorem trim_append (w : WrittenTime) {a : Text} (hne : a ≠ [])
    (ha : ∀ c ∈ a.head?, isBlank c = false) : trim (a ++ w.text) = a ++ w.text := by
  apply trim_of_ends
  · rwa [List.head?_append_of_ne_nil _ hne]
  · intro c hc
    rw [List.getLast?_append_of_ne_nil _ w.isSolid_text.ne_nil] at hc
    exact w.isSolid_text.isBlank_eq c (List.mem_of_mem_getLast? hc)

theorem trim_append_suffix {date : Text} (hne : date ≠ []) (hdate : IsDateText date)
    (w : Option WrittenTime) :
    trim (date ++ suffix w) = date ++ suffix w := by
  have hsolid := hdate.isSolid hne
  have hhead : ∀ c ∈ date.head?, isBlank c = false :=
    fun c hc => hsolid.isBlank_eq c (List.mem_of_mem_head? hc)
  cases w with
  | none =>
    rw [suffix, List.append_nil]
    exact trim_of_ends hhead fun c hc => hsolid.isBlank_eq c (List.mem_of_mem_getLast? hc)
  | some w =>
    have htrim := w.trim_append (a := date ++ [' ']) (by simp)
      (by rwa [List.head?_append_of_ne_nil _ hne])
    rwa [List.append_assoc] at htrim

end WrittenTime

theorem WallReading.of?_ofMillis_dayTime (wall : Int) (w : WrittenTime) (offset : Option Offset) :
    of? ⟨(Civil.ofMillis wall).year, (Civil.ofMillis wall).month, (Civil.ofMillis wall).day⟩
      w.dayTime offset = some ⟨wall / millisPerDay * millisPerDay + w.millis, offset⟩ := by
  obtain ⟨hm, hm', hd, hd'⟩ := Civil.ofMillis_bounds wall
  have hwhole : w.dayTime.millisecond = 0 := by
    cases w <;> rfl
  rw [of?, if_pos ⟨hm, hm', hd, hd'⟩, carriedMillis, Civil.carriedDay_ofMillis, hwhole,
    WrittenTime.millis]
  simp only [Option.some.injEq, mk.injEq, and_true]
  omega

theorem WallReading.of?_ofMillis (wall : Int) (offset : Option Offset) :
    of? ⟨(Civil.ofMillis wall).year, (Civil.ofMillis wall).month, (Civil.ofMillis wall).day⟩
      (WrittenTime.ofCivil (Civil.ofMillis wall)).dayTime offset =
        some ⟨wall / millisPerSecond * millisPerSecond, offset⟩ := by
  obtain ⟨hm, hm', hd, hd'⟩ := Civil.ofMillis_bounds wall
  rw [of?, if_pos ⟨hm, hm', hd, hd'⟩, ← Civil.carriedMillis_ofMillis]
  simp [WrittenTime.ofCivil, WrittenTime.dayTime]

end Coercion
