import Coercion.Proofs.Checked.Zones
import Coercion.Proofs.Reading.IsoInversion

namespace Coercion

open Calendar Text

namespace Checked

/-- A text can be cut behind each of its parts in front. -/
theorem cut_append (a t : Text) : cut (byteLength a) (a ++ t) = done (a, t) := by
  induction a with
  | nil => cases t <;> rfl
  | cons c a ih =>
    obtain ⟨k, hk⟩ := Nat.exists_eq_add_one.mpr c.utf8Size_pos
    have hlen : byteLength (c :: a) = k + byteLength a + 1 := by
      rw [byteLength, hk]
      omega
    have hrest : k + byteLength a + 1 - c.utf8Size = byteLength a := by omega
    rw [hlen, List.cons_append, cut, if_pos (by omega), hrest, ih]
    rfl

def splitDigits (t : Text) : Checked (Text × Text) :=
  cut (byteLength (t.takeWhile Char.isDigit)) t

def after? (c : Char) : Text → Option Text
  | [] => none
  | d :: t => if d = c then some t else none

theorem after?_cases (c : Char) (t : Text) :
    (∃ u, t = c :: u ∧ after? c t = some u) ∨
      (∀ u, t = c :: u → False) ∧ after? c t = none := by
  cases t with
  | nil => exact .inr ⟨by simp, rfl⟩
  | cons d t =>
    by_cases hd : d = c
    · exact .inl ⟨t, by rw [hd], if_pos hd⟩
    · exact .inr ⟨fun u hu => hd (List.cons.inj hu).1, if_neg hd⟩

def parse (greatest : Nat) (t : Text) : Checked Nat :=
  if isNumeral t && toNat t ≤ greatest then done (toNat t) else refused

def fixedDigits (count : Nat) (t : Text) : Checked (Nat × Text) := do
  let (digits, _) ← splitDigits t
  if byteLength digits < count then refused
  else do
    let (digits, rest) ← cut count t
    done (← parse greatestWord.toNat digits, rest)

def digitsValue (digits : Text) : Checked Int :=
  digits.foldlM (fun value c => do add (← mul value 10) (← unsigned 256 (c.toNat - 48))) 0

/-- The milliseconds of a fraction of a second, if one follows. -/
def fraction : Text → Checked (Nat × Text)
  | '.' :: t => do
    let (digits, rest) ← splitDigits t
    let millisecond ← digitsValue ((digits ++ ['0', '0', '0']).take 3)
    done (millisecond.toNat, rest)
  | t => done (0, t)

/-- Two digits after a colon with their fraction, if a colon follows. -/
def seconds : Text → Checked (Nat × Nat × Text)
  | ':' :: t => do
    let (second, rest) ← fixedDigits 2 t
    let (millisecond, rest) ← fraction rest
    done (second, millisecond, rest)
  | t => done (0, 0, t)

def checkedHour (hour : Nat) : Option Meridiem → Checked Nat
  | none => if hour < 24 then done hour else refused
  | some half =>
    if 1 ≤ hour ∧ hour ≤ 12 then
      match half with
      | .am => done (hour % 12)
      | .pm => do done (← add (hour % 12 : Nat) 12).toNat
    else refused

def checkedTime (t : DayTime) (meridiem : Option Meridiem) : Checked DayTime := do
  let hour ← checkedHour t.hour meridiem
  if t.minute < 60 ∧ t.second < 60 then done { t with hour := hour } else refused

def signedOffset (negative : Bool) (hours minutes : Nat) : Checked Offset :=
  if 60 ≤ minutes then refused
  else do
    let hours ← fit (-32768) 32767 (hours * 60)
    let total ← fit (-32768) 32767 (hours + minutes)
    let total ← fit (-32768) 32767 ((if negative then -1 else 1) * total)
    ofOption (Offset.ofMinutes total).toOption

def readClock (negative : Bool) (t : Text) : Checked Offset := do
  let digits := t.erase ':'
  if (byteLength digits == 2 || byteLength digits == 4) && digits.all Char.isDigit then do
    let (hours, minutes) ← cut 2 digits
    let hours ← parse 32767 hours
    let minutes ← parse 32767 (if minutes.isEmpty then ['0'] else minutes)
    signedOffset negative hours minutes
  else refused

def readOffset (t : Text) : Checked Offset :=
  if t == ['Z'] || sameLetters t "utc".toList then done .utc
  else
    match t with
    | '-' :: rest => readClock true rest
    | '+' :: rest => readClock false rest
    | _ => refused

theorem splitDigits_eq (t : Text) : splitDigits t = done (Text.splitDigits t) := by
  have h := cut_append (t.takeWhile Char.isDigit) (t.dropWhile Char.isDigit)
  rwa [List.takeWhile_append_dropWhile] at h

theorem parse_eq {greatest : Nat} {t : Text} (h : isNumeral t = true)
    (hlen : 10 ^ t.length ≤ greatest) : parse greatest t = done (toNat t) := by
  have hlt := (toNat_lt (isNumber_of_isNumeral h)).trans_le hlen
  rw [parse, h, Bool.true_and, if_pos (decide_eq_true hlt.le)]

/-- A row of so many digits stands in front of a text, or its leading digits are fewer. -/
theorem leadingDigits_cases (count : Nat) (t : Text) :
    (∃ p u, IsDigits count p ∧ t = p ++ u) ∧ count ≤ byteLength (t.takeWhile Char.isDigit) ∨
      fixedDigits? count t = none ∧ byteLength (t.takeWhile Char.isDigit) < count := by
  have hnum : IsNumber (t.takeWhile Char.isDigit) := fun c hc => List.mem_takeWhile_imp hc
  rw [hnum.isWord.isAscii.byteLength_eq]
  obtain hlt | hle := Nat.lt_or_ge (t.takeWhile Char.isDigit).length count
  · refine .inr ⟨?_, hlt⟩
    cases hread : fixedDigits? count t with
    | none => rfl
    | some read =>
      obtain ⟨p, hp, rfl, -⟩ := fixedDigits?_eq_some hread
      rw [List.takeWhile_append_of_pos hp.isNumber, List.length_append, hp.length_eq] at hlt
      omega
  · refine .inl ⟨⟨(t.takeWhile Char.isDigit).take count,
      (t.takeWhile Char.isDigit).drop count ++ t.dropWhile Char.isDigit, ⟨?_, ?_⟩, ?_⟩, hle⟩
    · exact fun c hc => hnum c (List.mem_of_mem_take hc)
    · rw [List.length_take, Nat.min_eq_left hle]
    · rw [← List.append_assoc, List.take_append_drop, List.takeWhile_append_dropWhile]

theorem fixedDigits_eq {count : Nat} (h : 0 < count) (h' : count ≤ 18) (t : Text) :
    fixedDigits count t = ofOption (fixedDigits? count t) := by
  rw [fixedDigits, splitDigits_eq, done_bind, Text.splitDigits]
  dsimp only
  obtain ⟨⟨p, u, hp, rfl⟩, hle⟩ | ⟨hnone, hlt⟩ := leadingDigits_cases count t
  · have hcut := cut_append p u
    have hnumeral : isNumeral p = true :=
      (isNumeral_iff p).mpr ⟨List.length_pos_iff.mp (hp.length_eq ▸ h), hp.isNumber⟩
    have hword : 10 ^ p.length ≤ greatestWord.toNat := by
      rw [hp.length_eq]
      exact (Nat.pow_le_pow_right (by decide) h').trans (by decide)
    rw [hp.byteLength_eq] at hcut
    rw [if_neg (by omega), hcut, fixedDigits?_append hp, done_bind]
    dsimp only
    rw [parse_eq hnumeral hword, done_bind, ofOption_some]
  · rw [if_pos hlt, hnone, ofOption_none]

/-- The value is below a power of ten after each digit. -/
theorem digitsValue_eq {digits : Text} (h : IsNumber digits) (hlen : digits.length ≤ 18) :
    digitsValue digits = done (toNat digits : Int) := by
  have hfold (digits : Text) (value : Nat) (h : IsNumber digits)
      (hvalue : (value + 1) * 10 ^ digits.length ≤ 10 ^ 18) :
      digits.foldlM (fun value c => do add (← mul value 10) (← unsigned 256 (c.toNat - 48)))
        (value : Int) = done ((Nat.ofDigitChars 10 digits value : Nat) : Int) := by
    induction digits generalizing value with
    | nil => rfl
    | cons c digits ih =>
      have hc := (isDigit_iff c).mp (h c (by simp))
      -- One digit more leaves one power of ten less, so that the product below stays as it is.
      have hpos : 0 < 10 ^ digits.length := Nat.pow_pos (by decide)
      obtain ⟨d, hd⟩ : ∃ d, c.toNat = d + 48 := ⟨c.toNat - 48, by omega⟩
      have hnext : (10 * value + d + 1) * 10 ^ digits.length ≤ 10 ^ 18 := by
        refine le_trans ?_ hvalue
        rw [List.length_cons, pow_succ', ← Nat.mul_assoc]
        exact Nat.mul_le_mul_right _ (by omega)
      have hsmall : 10 * value + d + 1 ≤ 10 ^ 18 :=
        (Nat.le_mul_of_pos_right _ hpos).trans hnext
      have hdigit : unsigned 256 ((c.toNat : Int) - 48) = done d := by
        rw [unsigned_eq (by omega) (by omega)]
        exact congrArg done (by omega)
      have hstep : ((value : Int) * 10 + (d : Nat)) = ((10 * value + d : Nat) : Int) := by
        push_cast
        ring
      rw [List.foldlM_cons, mul_eq (by omega) (by omega), done_bind, hdigit, done_bind,
        add_eq (by omega) (by omega), done_bind, hstep,
        ih _ (fun e he => h e (by simp [he])) hnext, Nat.ofDigitChars_cons, hd]
      rfl
  exact hfold digits 0 h (by simpa using Nat.pow_le_pow_right (by decide) hlen)

theorem fraction_eq (t : Text) : fraction t = done (Coercion.fraction t) := by
  unfold fraction
  split
  · next t =>
    have hdigits : IsNumber ((t.takeWhile Char.isDigit ++ ['0', '0', '0']).take 3) := by
      intro c hc
      obtain hc | hc := List.mem_append.mp (List.mem_of_mem_take hc)
      · exact List.mem_takeWhile_imp hc
      · exact isNumber_replicate_zero 3 c hc
    rw [splitDigits_eq, done_bind, Text.splitDigits]
    dsimp only
    rw [digitsValue_eq hdigits ((List.length_take_le 3 _).trans (by decide)), done_bind,
      Int.toNat_natCast]
    rfl
  · next hpoint =>
    unfold Coercion.fraction
    split
    · exact absurd rfl (hpoint _)
    · rfl

theorem seconds_eq (t : Text) : seconds t = ofOption (seconds? t) := by
  unfold seconds
  split
  · next t =>
    rw [fixedDigits_eq (by decide) (by decide)]
    refine ofOption_bind fun ⟨second, rest⟩ _ => ?_
    dsimp only
    rw [fraction_eq, done_bind]
    rfl
  · next hcolon =>
    unfold seconds?
    split
    · exact absurd rfl (hcolon _)
    · rfl

theorem checkedHour_pm (hour : Nat) : checkedHour hour (some .pm) =
    if 1 ≤ hour ∧ hour ≤ 12 then done (hour % 12 + 12) else refused := by
  have hsum : add (hour % 12 : Nat) 12 = done ((hour % 12 : Nat) + 12 : Int) :=
    add_eq (by omega) (by omega)
  unfold checkedHour
  dsimp only
  rw [hsum]
  rfl

theorem checkedTime_eq (t : DayTime) (meridiem : Option Meridiem) :
    checkedTime t meridiem = ofOption (t.checked? meridiem) := by
  unfold checkedTime DayTime.checked?
  cases meridiem with
  | none =>
    unfold checkedHour
    split_ifs <;> rfl
  | some half =>
    cases half with
    | am =>
      unfold checkedHour
      split_ifs <;> rfl
    | pm =>
      rw [checkedHour_pm]
      split_ifs <;> simp [*]

theorem parse_minutes {m : Text} (h : IsNumber m) (hlen : m.length ≤ 4) :
    parse 32767 (if m.isEmpty then ['0'] else m) = done (toNat m) := by
  cases m with
  | nil => rfl
  | cons c m =>
    exact parse_eq ((isNumeral_iff _).mpr ⟨List.cons_ne_nil c m, h⟩)
      ((Nat.pow_le_pow_right (by decide) hlen).trans (by decide))

theorem signedOffset_eq (negative : Bool) {hours minutes : Nat} (h : hours < 100) :
    signedOffset negative hours minutes = ofOption (if minutes < 60 then
      Offset.ofMinutes (if negative then -((hours : Int) * 60 + minutes) else hours * 60 + minutes)
      else .error .malformed).toOption := by
  unfold signedOffset
  by_cases hminutes : 60 ≤ minutes
  · rw [if_pos hminutes, if_neg (by omega)]
    rfl
  · have hlt : minutes < 60 := by omega
    have hsum : fit (-32768) 32767 ((hours : Int) * 60 + minutes) =
        done ((hours : Int) * 60 + minutes) :=
      fit_eq (by omega) (by omega)
    rw [if_neg hminutes, if_pos hlt, fit_eq (by omega) (by omega), done_bind, hsum,
      done_bind]
    cases negative
    · rw [if_neg Bool.false_ne_true, if_neg Bool.false_ne_true, one_mul, hsum, done_bind]
    · rw [if_pos rfl, if_pos rfl, neg_one_mul, fit_eq (by omega) (by omega), done_bind]

theorem readClock_eq (negative : Bool) (t : Text) :
    readClock negative t = ofOption (Offset.readClock negative t).toOption := by
  unfold readClock Offset.readClock
  obtain ⟨digits, hdigits⟩ : ∃ digits, digits = t.erase ':' := ⟨_, rfl⟩
  dsimp only
  rw [← hdigits]
  cases hall : digits.all Char.isDigit with
  | false => simp [Except.toOption]
  | true =>
    have hnum : IsNumber digits := List.all_eq_true.mp hall
    rw [hnum.isWord.isAscii.byteLength_eq]
    cases hlen : (digits.length == 2 || digits.length == 4) with
    | false => rfl
    | true =>
      have htwo : digits.length = 2 ∨ digits.length = 4 := by simpa using hlen
      have htake : IsDigits 2 (digits.take 2) := by
        refine ⟨fun c hc => hnum c (List.mem_of_mem_take hc), ?_⟩
        rw [List.length_take]
        omega
      have hcut := cut_append (digits.take 2) (digits.drop 2)
      have hhours := toNat_lt htake.isNumber
      have hminutes : IsNumber (digits.drop 2) := fun c hc => hnum c (List.mem_of_mem_drop hc)
      have hminutes' : (digits.drop 2).length ≤ 4 := by
        rw [List.length_drop]
        omega
      rw [htake.byteLength_eq, List.take_append_drop] at hcut
      rw [htake.length_eq] at hhours
      rw [Bool.true_and, if_pos rfl, hcut, done_bind]
      dsimp only
      rw [parse_eq ((isNumeral_iff _).mpr ⟨htake.ne_nil, htake.isNumber⟩)
          (by rw [htake.length_eq]; decide), done_bind, parse_minutes hminutes hminutes', done_bind,
        signedOffset_eq negative hhours, Bool.true_and]
      simp only [decide_eq_true_eq]

theorem readOffset_eq (t : Text) : readOffset t = ofOption (Offset.read t).toOption := by
  by_cases hutc : (t == ['Z'] || sameLetters t "utc".toList) = true
  · unfold readOffset Offset.read
    rw [if_pos hutc, if_pos hutc]
    rfl
  · unfold readOffset
    rw [if_neg hutc]
    split
    · exact readClock_eq true _
    · exact readClock_eq false _
    · next hminus hplus =>
      unfold Offset.read
      rw [if_neg hutc]
      split
      · exact absurd rfl (hminus _)
      · exact absurd rfl (hplus _)
      · rfl

end Checked

end Coercion
