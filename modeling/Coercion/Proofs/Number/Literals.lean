import Coercion.Number.Raw
import Coercion.Proofs.Double.Values
import Coercion.Proofs.Reading.Parts

namespace Coercion

open Text

/-- A sign as a text writes it. -/
inductive SignMark
  | none
  | plus
  | minus

namespace SignMark

def text : SignMark → Text
  | none => []
  | plus => ['+']
  | minus => ['-']

def negative : SignMark → Bool
  | minus => true
  | _ => false

def ofNegative (negative : Bool) : SignMark :=
  if negative then minus else none

@[simp] theorem text_ofNegative (negative : Bool) : (ofNegative negative).text = sign negative := by
  cases negative <;> rfl

@[simp] theorem negative_ofNegative (negative : Bool) :
    (ofNegative negative).negative = negative := by
  cases negative <;> rfl

end SignMark

/-- The power of ten at the end of a number, as a text writes it. -/
structure WrittenPower where
  mark : Char
  sign : SignMark
  digits : Text
  mark_eq : mark = 'e' ∨ mark = 'E'
  digits_ne_nil : digits ≠ []
  digits_isNumber : IsNumber digits

namespace WrittenPower

def text (p : WrittenPower) : Text :=
  p.mark :: (p.sign.text ++ p.digits)

def exponent (p : WrittenPower) : Int :=
  Double.signed p.sign.negative (toNat p.digits)

end WrittenPower

/-- A number as a text writes it: a sign, digits around a point and a power of ten. The point and
the digits on one side of it may be left out. -/
structure WrittenNumber where
  sign : SignMark
  whole : Text
  pointed : Option Text
  power : Option WrittenPower
  whole_isNumber : IsNumber whole
  pointed_isNumber : ∀ digits ∈ pointed, IsNumber digits
  digits_ne_nil : whole ≠ [] ∨ ∃ digits ∈ pointed, digits ≠ []

namespace WrittenNumber

variable (w : WrittenNumber)

/-- The digits after the point. -/
def fraction : Text := w.pointed.getD []

/-- The exponent of ten, zero if none is written. -/
def exponent : Int := w.power.elim 0 WrittenPower.exponent

def powerText : Text := w.power.elim [] WrittenPower.text

def afterWhole : Text := w.pointed.elim [] ('.' :: ·) ++ w.powerText

def unsignedText : Text := w.whole ++ w.afterWhole

def text : Text := w.sign.text ++ w.unsignedText

/-- The number that a text stands for. -/
def value : ℚ :=
  Double.factor w.sign.negative *
    (toNat w.whole + toNat w.fraction / 10 ^ w.fraction.length) * 10 ^ w.exponent

def literal : Literal := ⟨w.sign.negative, w.whole, w.fraction, w.exponent⟩

theorem mem_text {c : Char} (h : c ∈ w.text) :
    c.isDigit = true ∨ c ∈ ['+', '-', '.', 'e', 'E'] := by
  have hsign {s : SignMark} (h : c ∈ s.text) : c ∈ ['+', '-', '.', 'e', 'E'] := by
    cases s <;> simp only [SignMark.text, List.mem_cons, List.not_mem_nil, or_false] at h <;>
      simp [h]
  have hfraction (h : c ∈ w.pointed.elim [] ('.' :: ·)) : c.isDigit = true ∨ c = '.' := by
    cases hpoint : w.pointed with
    | none => simp [hpoint] at h
    | some digits =>
      rw [hpoint] at h
      obtain rfl | h := List.mem_cons.mp h
      · exact .inr rfl
      · exact .inl (w.pointed_isNumber digits hpoint c h)
  have hpower (h : c ∈ w.powerText) : c.isDigit = true ∨ c ∈ ['+', '-', '.', 'e', 'E'] := by
    unfold powerText at h
    cases hpow : w.power with
    | none => simp [hpow] at h
    | some p =>
      rw [hpow] at h
      obtain rfl | h := List.mem_cons.mp h
      · obtain hmark | hmark := p.mark_eq <;> simp [hmark]
      · obtain h | h := List.mem_append.mp h
        · exact .inr (hsign h)
        · exact .inl (p.digits_isNumber c h)
  simp only [text, unsignedText, afterWhole, List.mem_append] at h
  obtain h | h | h | h := h
  · exact .inr (hsign h)
  · exact .inl (w.whole_isNumber c h)
  · obtain h | rfl := hfraction h
    · exact .inl h
    · simp
  · exact hpower h

theorem isBlank_of_mem_text {c : Char} (h : c ∈ w.text) : isBlank c = false := by
  have hmarks : ∀ d ∈ ['+', '-', '.', 'e', 'E'], isBlank d = false := by simp [isBlank]
  obtain hc | hc := w.mem_text h
  · exact isBlank_of_isDigit hc
  · exact hmarks c hc

theorem trim_text : trim w.text = w.text :=
  trim_of_ends (fun _ hc => w.isBlank_of_mem_text (List.mem_of_mem_head? hc))
    fun _ hc => w.isBlank_of_mem_text (List.mem_of_mem_getLast? hc)

theorem fraction_isNumber : IsNumber w.fraction := by
  have h := w.pointed_isNumber
  unfold fraction
  cases hpoint : w.pointed with
  | none => exact fun c hc => absurd hc List.not_mem_nil
  | some digits => exact h digits hpoint

theorem exists_unsignedText : ∃ c t, w.unsignedText = c :: t ∧ (c.isDigit = true ∨ c = '.') := by
  have hwhole := w.whole_isNumber
  have hne := w.digits_ne_nil
  unfold unsignedText
  cases hw : w.whole with
  | cons c t => exact ⟨c, _, rfl, .inl (hwhole c (by simp [hw]))⟩
  | nil =>
    obtain ⟨digits, hdigits, -⟩ := hne.resolve_left (not_not.mpr hw)
    rw [List.nil_append, afterWhole, Option.mem_def.mp hdigits]
    exact ⟨'.', _, rfl, .inr rfl⟩

end WrittenNumber

theorem splitSign_append (s : SignMark) {c : Char} {t : Text} (hc : c.isDigit = true ∨ c = '.') :
    splitSign (s.text ++ c :: t) = (s.negative, c :: t) := by
  cases s with
  | plus | minus => rfl
  | none =>
    obtain hc | rfl := hc
    · exact splitSign_of_isDigit hc
    · rfl

theorem WrittenNumber.splitSign_text (w : WrittenNumber) :
    splitSign w.text = (w.sign.negative, w.unsignedText) := by
  obtain ⟨c, t, hbody, hc⟩ := w.exists_unsignedText
  rw [text, hbody]
  exact splitSign_append w.sign hc

theorem exists_splitSign (t : Text) : ∃ s : SignMark, t = s.text ++ (splitSign t).2 ∧
    (splitSign t).1 = s.negative := by
  unfold splitSign
  split
  · exact ⟨.minus, rfl, rfl⟩
  · exact ⟨.plus, rfl, rfl⟩
  · exact ⟨.none, rfl, rfl⟩

theorem WrittenPower.readExponent? (p : WrittenPower) :
    Literal.readExponent? (p.sign.text ++ p.digits) = some p.exponent := by
  have hnumeral : isNumeral p.digits = true :=
    (isNumeral_iff _).mpr ⟨p.digits_ne_nil, p.digits_isNumber⟩
  obtain ⟨c, t, hdigits⟩ := List.exists_cons_of_ne_nil p.digits_ne_nil
  have hc := p.digits_isNumber c (by simp [hdigits])
  have hsplit := splitSign_append p.sign (t := t) (.inl hc)
  rw [← hdigits] at hsplit
  rw [Literal.readExponent?, hsplit]
  dsimp only
  rw [if_pos hnumeral]
  rfl

namespace Literal

theorem exists_power_of_readExponent? {mark : Char} {t : Text} {n : Int}
    (hmark : (mark == 'e' || mark == 'E') = true) (h : readExponent? t = some n) :
    ∃ p : WrittenPower, mark :: t = p.text ∧ p.exponent = n := by
  obtain ⟨s, ht, hs⟩ := exists_splitSign t
  unfold readExponent? at h
  dsimp only at h
  rw [Option.ite_none_right_eq_some] at h
  obtain ⟨hnumeral, h⟩ := h
  obtain ⟨hne, hnumber⟩ := (isNumeral_iff _).mp hnumeral
  refine ⟨⟨mark, s, (splitSign t).2, by simpa using hmark, hne, hnumber⟩, ?_, ?_⟩
  · exact congrArg (mark :: ·) ht
  · rw [← Option.some.inj h, hs]
    rfl

theorem splitFraction_of_head_ne {t : Text} (h : '.' ∉ t.head?) : splitFraction t = ([], t) := by
  unfold splitFraction
  split
  · exact absurd rfl h
  · rfl

end Literal

namespace WrittenNumber

variable (w : WrittenNumber)

theorem head_powerText : ∀ c ∈ w.powerText.head?, c.isDigit = false ∧ c ≠ '.' := by
  intro c hc
  unfold powerText at hc
  cases hp : w.power with
  | none => simp [hp] at hc
  | some p =>
    obtain rfl : p.mark = c := by simpa [hp, WrittenPower.text] using hc
    obtain hmark | hmark := p.mark_eq
    · rw [hmark]
      decide
    · rw [hmark]
      decide

theorem splitDigits_unsignedText : splitDigits w.unsignedText = (w.whole, w.afterWhole) := by
  refine splitDigits_append w.whole_isNumber fun c hc => ?_
  unfold afterWhole at hc
  cases hpoint : w.pointed with
  | none =>
    rw [hpoint] at hc
    exact (w.head_powerText c hc).1
  | some digits =>
    obtain rfl : '.' = c := by simpa [hpoint] using hc
    rfl

theorem splitFraction_afterWhole :
    Literal.splitFraction w.afterWhole = (w.fraction, w.powerText) := by
  have hdigits := splitDigits_append w.fraction_isNumber fun c hc => (w.head_powerText c hc).1
  unfold fraction at hdigits
  unfold afterWhole fraction
  cases hpoint : w.pointed with
  | none => exact Literal.splitFraction_of_head_ne fun hc => (w.head_powerText '.' hc).2 rfl
  | some digits =>
    rw [hpoint] at hdigits
    exact hdigits

theorem isEmpty_digits : (w.whole.isEmpty && w.fraction.isEmpty) = false := by
  rw [← Bool.not_eq_true, Bool.and_eq_true, List.isEmpty_iff, List.isEmpty_iff]
  rintro ⟨hwhole, hfraction⟩
  obtain hne | ⟨digits, hdigits, hne⟩ := w.digits_ne_nil
  · exact hne hwhole
  · rw [fraction, Option.mem_def.mp hdigits] at hfraction
    exact hne hfraction

end WrittenNumber

namespace Literal

theorem read?_text (w : WrittenNumber) : read? w.text = some w.literal := by
  rw [read?, w.splitSign_text]
  dsimp only
  rw [w.splitDigits_unsignedText]
  dsimp only
  rw [w.splitFraction_afterWhole]
  dsimp only
  rw [w.isEmpty_digits, if_neg Bool.false_ne_true]
  unfold WrittenNumber.literal WrittenNumber.exponent WrittenNumber.powerText
  cases w.power with
  | none => rfl
  | some p =>
    have hmark : (p.mark == 'e' || p.mark == 'E') = true := by simpa using p.mark_eq
    dsimp only [Option.elim, WrittenPower.text]
    rw [if_pos hmark, p.readExponent?]
    rfl

theorem exists_splitFraction (t : Text) : ∃ (pointed : Option Text) (rest : Text),
    splitFraction t = (pointed.getD [], rest) ∧ t = pointed.elim [] ('.' :: ·) ++ rest ∧
      ∀ digits ∈ pointed, IsNumber digits := by
  unfold splitFraction
  split
  · rename_i r
    obtain ⟨digits, rest, hsplit, rfl, hdigits⟩ := exists_splitDigits r
    exact ⟨some digits, rest, hsplit, rfl, by simpa using hdigits⟩
  · exact ⟨none, _, rfl, rfl, by simp⟩

theorem exists_text_of_read? {t : Text} {l : Literal} (h : read? t = some l) :
    ∃ w : WrittenNumber, t = w.text ∧ l = w.literal := by
  obtain ⟨s, ht, hs⟩ := exists_splitSign t
  obtain ⟨whole, u, hwhole, hu, hnumber⟩ := exists_splitDigits (splitSign t).2
  obtain ⟨pointed, rest, hfraction, hu', hpointed⟩ := exists_splitFraction u
  unfold read? at h
  dsimp only at h
  rw [hwhole] at h
  dsimp only at h
  rw [hfraction] at h
  dsimp only at h
  split_ifs at h with hempty
  have hne : whole ≠ [] ∨ ∃ digits ∈ pointed, digits ≠ [] := by
    by_contra hnone
    push Not at hnone
    refine hempty ?_
    rw [hnone.1]
    cases hp : pointed with
    | none => rfl
    | some digits =>
      rw [hnone.2 digits hp]
      rfl
  cases rest with
  | nil =>
    refine ⟨⟨s, whole, pointed, none, hnumber, hpointed, hne⟩, ?_, ?_⟩
    · rw [ht, hu, hu']
      rfl
    · rw [← Option.some.inj h, hs]
      rfl
  | cons mark r =>
    dsimp only at h
    split_ifs at h with hmark
    obtain ⟨n, hn, hl⟩ := Option.map_eq_some_iff.mp h
    obtain ⟨p, hp, hexponent⟩ := exists_power_of_readExponent? hmark hn
    refine ⟨⟨s, whole, pointed, some p, hnumber, hpointed, hne⟩, ?_, ?_⟩
    · rw [ht, hu, hu', hp]
      rfl
    · rw [← hl, hs, ← hexponent]
      rfl

end Literal

namespace Double

theorem read?_text (w : WrittenNumber) : read? w.text = some w.literal.toDouble := by
  obtain ⟨c, t, hbody, hc⟩ := w.exists_unsignedText
  have hlower : c.toLower = c := by
    obtain hc | rfl := hc
    · exact toLower_of_isDigit hc
    · rfl
  -- The words start with a letter.
  have hword {d : Char} {u : Text} (hd : d.toLower.isAlpha = true) :
      sameLetters w.unsignedText (d :: u) = false := by
    rw [hbody, sameLetters, beq_eq_false_iff_ne]
    intro heq
    have halpha : c.isAlpha = true := by
      rw [← hlower, (List.cons.inj heq).1]
      exact hd
    obtain hc | rfl := hc
    · simp [not_isAlpha_of_isDigit hc] at halpha
    · cases halpha
  rw [read?, w.splitSign_text]
  dsimp only
  rw [show "inf".toList = 'i' :: ['n', 'f'] from rfl, hword rfl,
    show "infinity".toList = 'i' :: "nfinity".toList from rfl, hword rfl,
    show "nan".toList = 'n' :: ['a', 'n'] from rfl, hword rfl, Literal.read?_text]
  rfl

theorem exists_text_of_read? {t : Text} {f : Double} (h : read? t = some f)
    (hfinite : f.isFinite = true) : ∃ w : WrittenNumber, t = w.text := by
  unfold read? at h
  dsimp only at h
  split_ifs at h with hinfinite hnan
  · rw [← Option.some.inj h] at hfinite
    cases hfinite
  · rw [← Option.some.inj h] at hfinite
    cases hfinite
  · obtain ⟨l, hl, -⟩ := Option.map_eq_some_iff.mp h
    obtain ⟨w, hw, -⟩ := Literal.exists_text_of_read? hl
    exact ⟨w, hw⟩

end Double

end Coercion
