import Coercion.Proofs.Checked.Readers

namespace Coercion

open Calendar Text

namespace Checked

def wallReading (date : YearMonthDay) (time : DayTime) (offset : Option Offset) :
    Checked WallReading :=
  if 1 ≤ date.month ∧ date.month ≤ 12 ∧ 1 ≤ date.day ∧ date.day ≤ 31 then do
    let whole ← carriedMillis date.year (← sub date.month 1) date.day time.hour time.minute
      time.second
    done ⟨← add whole time.millisecond, offset⟩
  else refused

/-- The milliseconds of a reading fit in a word, because its year has few digits. -/
theorem wallReading_eq {date : YearMonthDay} {time : DayTime}
    (hyear : date.year.natAbs < 1000000) (htime : time.InDay) (offset : Option Offset) :
    wallReading date time offset = ofOption (WallReading.of? date time offset) := by
  obtain ⟨hhour, hminute, hsecond, hmillisecond⟩ := htime
  unfold wallReading WallReading.of?
  split_ifs with hdate
  · obtain ⟨hwhole, hbound⟩ : carriedMillis date.year (date.month - 1) date.day time.hour
        time.minute time.second = _ ∧ _ :=
      carriedMillis_eq (by omega) (by omega) (by omega) (by omega) (by omega) (by omega)
    rw [sub_eq (by omega) (by omega), done_bind, hwhole, done_bind, add_eq (by omega) (by omega)]
    rfl
  · rfl

/-- The year of a text in front: four digits, or six after a sign. -/
def isoYear : Text → Checked (Int × Text)
  | '+' :: t => do
    let (year, rest) ← fixedDigits 6 t
    done (year, rest)
  | '-' :: t => do
    let (year, rest) ← fixedDigits 6 t
    done (← fit leastWord greatestWord (-year), rest)
  | t => do
    let (year, rest) ← fixedDigits 4 t
    done (year, rest)

def isoTime (t : Text) : Checked (DayTime × Text) := do
  let (hour, rest) ← fixedDigits 2 t
  let rest ← ofOption (after? ':' rest)
  let (minute, rest) ← fixedDigits 2 rest
  let (second, millisecond, rest) ← seconds rest
  let time ← checkedTime ⟨hour, minute, second, millisecond⟩ none
  done (time, rest)

def isoOffset (t : Text) : Checked (Option Offset) :=
  if t.isEmpty then done none
  else if t == ['Z'] || t == ['z'] then done (some .utc)
  else do done (some (← readOffset t))

def isoDate (date : YearMonthDay) (rest : Text) : Checked WallReading :=
  if rest.isEmpty then wallReading date .midnight (some .utc) else refused

def isoRead (t : Text) : Checked WallReading := do
  let (year, rest) ← isoYear t
  match after? '-' rest with
  | none => isoDate ⟨year, 1, 1⟩ rest
  | some rest =>
    let (month, rest) ← fixedDigits 2 rest
    match after? '-' rest with
    | none => isoDate ⟨year, month, 1⟩ rest
    | some rest =>
      let (day, rest) ← fixedDigits 2 rest
      match rest with
      | [] => isoDate ⟨year, month, day⟩ []
      | mark :: rest =>
        if mark == 'T' || mark == 't' || mark == ' ' then do
          let (time, rest) ← isoTime rest
          let offset ← isoOffset rest
          wallReading ⟨year, month, day⟩ time offset
        else refused

theorem isoYear_eq (t : Text) : isoYear t = ofOption (Iso.year? t) := by
  unfold isoYear
  split
  · rw [fixedDigits_eq (by decide) (by decide)]
    exact ofOption_map fun _ _ => rfl
  · rw [fixedDigits_eq (by decide) (by decide)]
    refine ofOption_map fun ⟨year, rest⟩ hread => ?_
    obtain ⟨p, hp, -, rfl⟩ := fixedDigits?_eq_some hread
    have hyear := toNat_lt hp.isNumber
    rw [hp.length_eq] at hyear
    dsimp only
    rw [fit_eq (by unfold leastWord; omega) (by unfold greatestWord; omega), done_bind]
  · next hplus hminus =>
    unfold Iso.year?
    split
    · exact absurd rfl (hplus _)
    · exact absurd rfl (hminus _)
    · rw [fixedDigits_eq (by decide) (by decide)]
      exact ofOption_map fun _ _ => rfl

theorem isoTime_eq (t : Text) : isoTime t = ofOption (Iso.time? t) := by
  unfold isoTime Iso.time?
  rw [fixedDigits_eq (by decide) (by decide)]
  refine ofOption_bind fun ⟨hour, rest⟩ _ => ?_
  dsimp only
  obtain ⟨rest, rfl, hafter⟩ | ⟨hcolon, hafter⟩ := after?_cases ':' rest
  · rw [hafter, ofOption_some, done_bind, fixedDigits_eq (by decide) (by decide)]
    refine ofOption_bind fun ⟨minute, rest⟩ _ => ?_
    dsimp only
    rw [seconds_eq]
    refine ofOption_bind fun ⟨second, millisecond, rest⟩ _ => ?_
    dsimp only
    rw [checkedTime_eq]
    exact ofOption_bind fun _ _ => rfl
  · rw [hafter]
    split
    · exact absurd rfl (hcolon _)
    · rfl

theorem isoOffset_eq (t : Text) : isoOffset t = ofOption (Iso.offset? t) := by
  unfold isoOffset Iso.offset?
  split_ifs
  · rfl
  · rfl
  · rw [readOffset_eq]
    exact ofOption_map fun _ _ => rfl

theorem isoDate_eq {date : YearMonthDay} (hyear : date.year.natAbs < 1000000) (rest : Text) :
    isoDate date rest = ofOption (Iso.dateReading? date rest) := by
  unfold isoDate Iso.dateReading?
  split_ifs
  · exact wallReading_eq hyear DayTime.inDay_midnight (some .utc)
  · rfl

theorem natAbs_isoYear_lt {t u : Text} {year : Int} (h : Iso.year? t = some (year, u)) :
    year.natAbs < 1000000 := by
  have hdigits {k n : Nat} {t u : Text} (hk : k ≤ 6) (h : fixedDigits? k t = some (n, u)) :
      n < 1000000 := by
    obtain ⟨p, hp, -, rfl⟩ := fixedDigits?_eq_some h
    have hlt := toNat_lt hp.isNumber
    rw [hp.length_eq] at hlt
    exact hlt.trans_le (Nat.pow_le_pow_right (by decide) hk)
  unfold Iso.year? at h
  split at h
  all_goals
    obtain ⟨⟨n, v⟩, hread, hyear⟩ := Option.map_eq_some_iff.mp h
    have hn := hdigits (by decide) hread
    obtain ⟨rfl, -⟩ := Prod.mk.inj hyear
    omega

theorem isoRead_eq (t : Text) : isoRead t = ofOption (Iso.read? t) := by
  unfold isoRead Iso.read?
  rw [isoYear_eq]
  refine ofOption_bind fun ⟨year, rest⟩ hread => ?_
  have hyear := natAbs_isoYear_lt hread
  dsimp only
  obtain ⟨rest, rfl, hafter⟩ | ⟨hhyphen, hafter⟩ := after?_cases '-' rest
  · rw [hafter]
    dsimp only
    rw [fixedDigits_eq (by decide) (by decide)]
    refine ofOption_bind fun ⟨month, rest⟩ _ => ?_
    dsimp only
    obtain ⟨rest, rfl, hafter⟩ | ⟨hhyphen, hafter⟩ := after?_cases '-' rest
    · rw [hafter]
      dsimp only
      rw [fixedDigits_eq (by decide) (by decide)]
      refine ofOption_bind fun ⟨day, rest⟩ _ => ?_
      cases rest with
      | nil => exact isoDate_eq hyear []
      | cons mark rest =>
        dsimp only
        by_cases hmark : (mark == 'T' || mark == 't' || mark == ' ') = true
        · rw [if_pos hmark, if_pos hmark, isoTime_eq]
          refine ofOption_bind fun ⟨time, rest⟩ htime => ?_
          dsimp only
          rw [isoOffset_eq]
          exact ofOption_bind fun offset _ =>
            wallReading_eq hyear (Iso.time?_eq_some htime).1 offset
        · rw [if_neg hmark, if_neg hmark]
          rfl
    · rw [hafter]
      dsimp only
      split
      · exact absurd rfl (hhyphen _)
      · exact isoDate_eq hyear _
  · rw [hafter]
    dsimp only
    split
    · exact absurd rfl (hhyphen _)
    · exact isoDate_eq hyear _

end Checked

end Coercion
