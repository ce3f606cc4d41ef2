import Coercion.Proofs.Checked.Iso

namespace Coercion

open Calendar Text

namespace Loose

/-- A year that is read has at most six digits. -/
theorem natAbs_year?_lt {t : Text} {year : Int} (h : year? t = some year) :
    year.natAbs < 1000000 := by
  unfold year? at h
  cases hn : number? 6 t with
  | none => simp [hn] at h
  | some n =>
    obtain ⟨-, hnum, hlen, rfl⟩ := number?_eq_some hn
    have hlt := (toNat_lt hnum).trans_le (Nat.pow_le_pow_right (by decide) hlen)
    have htwo (hshort : t.length ≤ 2) : toNat t < 100 :=
      (toNat_lt hnum).trans_le (Nat.pow_le_pow_right (by decide) hshort)
    rw [hn] at h
    obtain rfl := Option.some.inj h
    dsimp only
    split_ifs with hshort
    · omega
    · have := htwo hshort
      omega
    · omega

theorem DateParts.natAbs_year_lt {p q e : Text} {date : YearMonthDay} (h : DateParts p q e date) :
    date.year.natAbs < 1000000 := by
  cases h with
  | named _ hyear _ => exact natAbs_year?_lt hyear
  | yearFirst _ _ hyear _ _ => exact natAbs_year?_lt hyear
  | monthFirst _ _ hyear _ _ => exact natAbs_year?_lt hyear

theorem natAbs_namedDate?_lt {month : Nat} {numbers : List Text} {date : YearMonthDay}
    (h : namedDate? month numbers = some date) : date.year.natAbs < 1000000 := by
  unfold namedDate? at h
  split at h
  · split_ifs at h
    obtain ⟨year, hyear, rfl⟩ := Option.map_eq_some_iff.mp h
    exact natAbs_year?_lt hyear
  · simp only [Option.bind_eq_bind, Option.bind_eq_some_iff] at h
    obtain ⟨year, hyear, day, -, hdate⟩ := h
    obtain rfl := Option.some.inj hdate
    exact natAbs_year?_lt hyear
  · cases h

namespace Fields

variable {f g : Fields} {t : Text} {ts : List Text}

/-- No token leads to a year of more than six digits. -/
theorem Takes.natAbs_year_lt (h : Takes f t g)
    (hf : ∀ date ∈ f.date, date.year.natAbs < 1000000) :
    ∀ date ∈ g.date, date.year.natAbs < 1000000 := by
  cases h with
  | date _ hread =>
    rintro date ⟨⟩
    obtain ⟨s, p, q, e, -, -, -, -, hparts⟩ := date?_eq_some hread
    exact hparts.natAbs_year_lt
  | _ => exact hf

theorem natAbs_year_of_foldlM (h : ts.foldlM add? f = some g)
    (hf : ∀ date ∈ f.date, date.year.natAbs < 1000000) :
    ∀ date ∈ g.date, date.year.natAbs < 1000000 := by
  induction ts generalizing f with
  | nil => simpa [← Option.some.inj h] using hf
  | cons t ts ih =>
    obtain ⟨e, he, hg⟩ := foldlM_cons h
    exact ih hg (he.natAbs_year_lt hf)

theorem natAbs_date?_lt {date : YearMonthDay} (h : f.date? = some date)
    (hf : ∀ date ∈ f.date, date.year.natAbs < 1000000) : date.year.natAbs < 1000000 := by
  unfold Fields.date? at h
  split at h
  · next given hgiven =>
    split_ifs at h
    obtain rfl := Option.some.inj h
    exact hf given hgiven
  · obtain ⟨month, -, h⟩ := Option.bind_eq_some_iff.mp h
    exact natAbs_namedDate?_lt h

end Fields

end Loose

namespace Checked

/-- A number of at most `most` digits. -/
def number (most : Nat) (t : Text) : Checked Nat :=
  if isNumeral t && t.length ≤ most then parse greatestWord.toNat t else refused

def looseYear (t : Text) : Checked Int := do
  let n ← number 6 t
  if t.length ≤ 2 then (if n < 50 then add n 2000 else add n 1900) else done (n : Int)

def looseTime (t : Text) : Checked DayTime := do
  let (hour, rest) ← splitDigits t
  let hour ← number 2 hour
  let rest ← ofOption (after? ':' rest)
  let (minute, rest) ← fixedDigits 2 rest
  let (second, millisecond, rest) ← seconds rest
  if rest.isEmpty then done ⟨hour, minute, second, millisecond⟩ else refused

def looseDate (t : Text) : Checked YearMonthDay := do
  let separator ← ofOption (t.find? fun c => !c.isAlphanum)
  if separator != '/' && separator != '-' && separator != '.' then refused
  else
    match Text.split (· == separator) t with
    | [first, second, third] =>
      match Loose.month? second with
      | some month => do
        let year ← looseYear third
        let day ← number 2 first
        done ⟨year, month, day⟩
      | none =>
        if first.length = 4 then do
          let year ← looseYear first
          let month ← number 2 second
          let day ← number 2 third
          done ⟨year, month, day⟩
        else do
          let year ← looseYear third
          let month ← number 2 first
          let day ← number 2 second
          done ⟨year, month, day⟩
    | _ => refused

def namedDate (month : Nat) : List Text → Checked YearMonthDay
  | [only] =>
    if 2 < only.length then do done ⟨← looseYear only, month, 1⟩ else refused
  | [first, second] => do
    let (year, day) := if 2 < first.length then (first, second) else (second, first)
    let year ← looseYear year
    let day ← number 2 day
    done ⟨year, month, day⟩
  | _ => refused

def withOffset (f : Loose.Fields) (t : Text) : Checked Loose.Fields := do
  done { f with offset := some (← readOffset t) }

def addToken (f : Loose.Fields) (t : Text) : Checked Loose.Fields :=
  match Loose.Fields.meridiem? t with
  | some half => if f.meridiem.isNone then done { f with meridiem := some half } else refused
  | none =>
    if Loose.Fields.namesUtc t then done { f with offset := some .utc }
    else if Loose.Fields.startsWithUtc t then withOffset f (t.drop 3)
    else if Loose.Fields.startsWithSign t && f.time.isSome then withOffset f t
    else if t.contains ':' then
      if f.time.isNone then do done { f with time := some (← looseTime t) } else refused
    else if t.all Char.isAlpha then
      match Loose.month? t with
      | some month => if f.month.isNone then done { f with month := some month } else refused
      | none => if Loose.isWeekday t then done f else refused
    else if t.all Char.isDigit then done { f with numbers := f.numbers ++ [t] }
    else if f.date.isNone then do done { f with date := some (← looseDate t) }
    else refused

def fieldsDate (f : Loose.Fields) : Checked YearMonthDay :=
  match f.date with
  | some date => if f.month.isNone && f.numbers.isEmpty then done date else refused
  | none => do namedDate (← ofOption f.month) f.numbers

def fieldsTime (f : Loose.Fields) : Checked DayTime :=
  match f.time with
  | some time => checkedTime time f.meridiem
  | none => if f.meridiem.isNone then done .midnight else refused

def looseRead (t : Text) : Checked WallReading := do
  let fields ← (Loose.tokens t).foldlM addToken .empty
  let date ← fieldsDate fields
  let time ← fieldsTime fields
  wallReading date time fields.offset

theorem number_eq {most : Nat} (h : most ≤ 18) (t : Text) :
    number most t = ofOption (Loose.number? most t) := by
  unfold number Loose.number?
  split_ifs with hnumber
  · rw [Bool.and_eq_true, decide_eq_true_eq] at hnumber
    exact parse_eq hnumber.1
      ((Nat.pow_le_pow_right (by decide) (hnumber.2.trans h)).trans (by decide))
  · rfl

theorem looseYear_eq (t : Text) : looseYear t = ofOption (Loose.year? t) := by
  unfold looseYear Loose.year?
  rw [number_eq (by decide)]
  cases hn : Loose.number? 6 t with
  | none => rfl
  | some n =>
    obtain ⟨-, hnum, hlen, rfl⟩ := Loose.number?_eq_some hn
    have hlt := (toNat_lt hnum).trans_le (Nat.pow_le_pow_right (by decide) hlen)
    rw [ofOption_some, done_bind]
    change _ = done (if t.length ≤ 2 then (if (toNat t : Int) < 50 then _ else _) else _)
    split_ifs
    · exact add_eq (by omega) (by omega)
    · omega
    · omega
    · exact add_eq (by omega) (by omega)
    · rfl

theorem looseTime_eq (t : Text) : looseTime t = ofOption (Loose.time? t) := by
  unfold looseTime Loose.time?
  rw [splitDigits_eq, done_bind]
  dsimp only
  rw [number_eq (by decide)]
  refine ofOption_bind fun hour _ => ?_
  generalize (Text.splitDigits t).2 = rest
  obtain ⟨rest, rfl, hafter⟩ | ⟨hcolon, hafter⟩ := after?_cases ':' rest
  · rw [hafter, ofOption_some, done_bind, fixedDigits_eq (by decide) (by decide)]
    refine ofOption_bind fun ⟨minute, rest⟩ _ => ?_
    dsimp only
    rw [seconds_eq]
    refine ofOption_bind fun ⟨second, millisecond, rest⟩ _ => ?_
    dsimp only
    split_ifs <;> rfl
  · rw [hafter]
    split
    · exact absurd rfl (hcolon _)
    · rfl

/-- A year, a month and a day in three parts. -/
theorem dateParts_eq (year month day : Text) :
    (do
      let year ← looseYear year
      let month ← number 2 month
      let day ← number 2 day
      done (⟨year, month, day⟩ : YearMonthDay)) =
    ofOption (do
      let year ← Loose.year? year
      let month ← Loose.number? 2 month
      let day ← Loose.number? 2 day
      some ⟨year, month, day⟩) := by
  rw [looseYear_eq]
  refine ofOption_bind fun year _ => ?_
  rw [number_eq (by decide)]
  refine ofOption_bind fun month _ => ?_
  rw [number_eq (by decide)]
  exact ofOption_bind fun day _ => rfl

/-- A year and a day in two parts. -/
theorem dayParts_eq (year day : Text) (month : Nat) :
    (do
      let year ← looseYear year
      let day ← number 2 day
      done (⟨year, month, day⟩ : YearMonthDay)) =
    ofOption (do
      let year ← Loose.year? year
      let day ← Loose.number? 2 day
      some ⟨year, month, day⟩) := by
  rw [looseYear_eq]
  refine ofOption_bind fun year _ => ?_
  rw [number_eq (by decide)]
  exact ofOption_bind fun day _ => rfl

theorem looseDate_eq (t : Text) : looseDate t = ofOption (Loose.date? t) := by
  unfold looseDate Loose.date?
  refine ofOption_bind fun separator _ => ?_
  split_ifs
  · rfl
  · generalize Text.split (· == separator) t = parts
    match parts with
    | [first, second, third] =>
      dsimp only
      cases Loose.month? second with
      | some month => exact dayParts_eq third first month
      | none =>
        dsimp only
        split_ifs
        · exact dateParts_eq first second third
        · exact dateParts_eq third first second
    | [] | [_] | [_, _] | _ :: _ :: _ :: _ :: _ => rfl

theorem namedDate_eq (month : Nat) (numbers : List Text) :
    namedDate month numbers = ofOption (Loose.namedDate? month numbers) := by
  match numbers with
  | [only] =>
    unfold namedDate Loose.namedDate?
    dsimp only
    split_ifs
    · rw [looseYear_eq]
      exact ofOption_map fun _ _ => rfl
    · rfl
  | [first, second] =>
    unfold namedDate Loose.namedDate?
    dsimp only
    split_ifs
    · exact dayParts_eq first second month
    · exact dayParts_eq second first month
  | [] | _ :: _ :: _ :: _ => rfl

theorem withOffset_eq (f : Loose.Fields) (t : Text) :
    withOffset f t = ofOption (f.withOffset? t) := by
  unfold withOffset Loose.Fields.withOffset?
  rw [readOffset_eq]
  exact ofOption_map fun _ _ => rfl

theorem addToken_eq (f : Loose.Fields) (t : Text) : addToken f t = ofOption (f.add? t) := by
  unfold addToken Loose.Fields.add?
  cases Loose.Fields.meridiem? t with
  | some half =>
    dsimp only
    split_ifs <;> rfl
  | none =>
    dsimp only
    split_ifs
    · rfl
    · exact withOffset_eq f _
    · exact withOffset_eq f t
    · rw [looseTime_eq]
      exact ofOption_map fun _ _ => rfl
    · rfl
    · cases Loose.month? t <;> rfl
    · cases Loose.month? t <;> rfl
    · cases Loose.month? t <;> rfl
    · cases Loose.month? t <;> rfl
    · rfl
    · rw [looseDate_eq]
      exact ofOption_map fun _ _ => rfl
    · rfl

theorem fieldsDate_eq (f : Loose.Fields) : fieldsDate f = ofOption f.date? := by
  unfold fieldsDate Loose.Fields.date?
  cases f.date with
  | some date =>
    dsimp only
    split_ifs <;> rfl
  | none => exact ofOption_bind fun month _ => namedDate_eq month f.numbers

theorem fieldsTime_eq (f : Loose.Fields) : fieldsTime f = ofOption f.time? := by
  unfold fieldsTime Loose.Fields.time?
  cases f.time with
  | some time => exact checkedTime_eq time f.meridiem
  | none =>
    dsimp only
    split_ifs <;> rfl

theorem looseRead_eq (t : Text) : looseRead t = ofOption (Loose.read? t) := by
  unfold looseRead Loose.read?
  rw [ofOption_foldlM addToken_eq]
  refine ofOption_bind fun fields hfold => ?_
  have hyear := Loose.Fields.natAbs_year_of_foldlM hfold (by simp [Loose.Fields.empty])
  have hmilli := Loose.Fields.millisecond_of_foldlM hfold (by simp [Loose.Fields.empty])
  rw [fieldsDate_eq]
  refine ofOption_bind fun date hdate => ?_
  rw [fieldsTime_eq]
  exact ofOption_bind fun time htime =>
    wallReading_eq (Loose.Fields.natAbs_date?_lt hdate hyear)
      (Loose.Fields.inDay_of_time? htime hmilli) fields.offset

end Checked

end Coercion
