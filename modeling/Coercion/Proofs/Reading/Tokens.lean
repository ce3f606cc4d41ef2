import Coercion.Proofs.Reading.Loose

namespace Coercion

open Calendar Text

namespace Loose

theorem exists_endsToken (t : Text) :
    ∃ k u, t = k ++ u ∧ (∀ c ∈ k, isSeparator c = false) ∧ EndsToken u := by
  refine ⟨t.takeWhile (!isSeparator ·), t.dropWhile (!isSeparator ·),
    List.takeWhile_append_dropWhile.symm, fun c hc => ?_, ?_⟩
  · simpa using List.mem_takeWhile_imp hc
  · cases h : t.dropWhile (!isSeparator ·) with
    | nil => exact .inl rfl
    | cons c u =>
      have hc := List.head_dropWhile_not (!isSeparator ·) (l := t) (by simp [h])
      simp only [h, List.head_cons] at hc
      exact .inr ⟨c, u, rfl, by simpa using hc⟩

theorem fraction_lt (t : Text) : (fraction t).1 < 1000 := by
  unfold fraction
  split
  · next t =>
    dsimp only [splitDigits]
    have hnum : IsNumber ((t.takeWhile Char.isDigit ++ ['0', '0', '0']).take 3) := by
      intro c hc
      obtain hc | hc := List.mem_append.mp (List.mem_of_mem_take hc)
      · exact List.mem_takeWhile_imp hc
      · simp only [List.mem_cons, List.not_mem_nil, or_false, or_self] at hc
        rw [hc]
        rfl
    have hlen : ((t.takeWhile Char.isDigit ++ ['0', '0', '0']).take 3).length = 3 := by
      simp
    have := toNat_lt hnum
    rwa [hlen] at this
  · exact Nat.zero_lt_succ 999

theorem seconds?_lt {t u : Text} {second millisecond : Nat}
    (h : seconds? t = some (second, millisecond, u)) : millisecond < 1000 := by
  unfold seconds? at h
  split at h
  · next t =>
    simp only [Option.bind_eq_bind, Option.bind_eq_some_iff] at h
    obtain ⟨⟨n, v⟩, -, h⟩ := h
    obtain ⟨-, hfraction⟩ : n = second ∧ fraction v = (millisecond, u) := by simpa using h
    simpa [hfraction] using fraction_lt v
  · obtain ⟨-, rfl, -⟩ : 0 = second ∧ 0 = millisecond ∧ t = u := by simpa using h
    decide

theorem time?_millisecond_lt {t : Text} {time : DayTime} (h : time? t = some time) :
    time.millisecond < 1000 := by
  simp only [time?, Option.bind_eq_bind, Option.bind_eq_some_iff] at h
  obtain ⟨hour, -, h⟩ := h
  split at h
  · simp only [Option.bind_some, Option.bind_eq_some_iff] at h
    obtain ⟨⟨minute, rest⟩, -, ⟨second, millisecond, rest'⟩, hseconds, h⟩ := h
    dsimp only at h hseconds
    split_ifs at h
    obtain rfl := Option.some.inj h
    exact seconds?_lt hseconds
  · simp at h

theorem time?_of_not_isDigit {c : Char} (hc : c.isDigit = false) (t : Text) :
    time? (c :: t) = none := by
  simp [time?, splitDigits, hc, number?, isNumeral]

theorem date?_of_not_isAlphanum {c : Char} (hc : c.isAlphanum = false) (t : Text) :
    date? (c :: t) = none := by
  have hfind : (c :: t).find? (fun c => !c.isAlphanum) = some c := by
    simp [hc]
  have hsplit : split (· == c) (c :: t) = [] :: split (· == c) t := by
    simp [split]
  have hnumber : number? 2 [] = none := rfl
  simp only [date?, hfind, hsplit, Option.bind_eq_bind, Option.bind_some]
  split_ifs
  · rfl
  split
  · next first second third hparts =>
    obtain ⟨rfl, -⟩ := List.cons.inj hparts
    cases month? second <;> simp [hnumber]
  · rfl

namespace Fields

/-- What a token may state: one lemma for all that a token does to the fields. -/
inductive Takes (f : Fields) (t : Text) : Fields → Prop
  | meridiem (half : Meridiem) : Takes f t { f with meridiem := some half }
  | offset (o : Offset)
      (h : namesUtc t = true ∨ startsWithUtc t = true ∨ startsWithSign t = true ∧ f.time ≠ none) :
      Takes f t { f with offset := some o }
  | time {time : DayTime} (hcolon : t.contains ':' = true) (h : Loose.time? t = some time) :
      Takes f t { f with time := some time }
  | month (month : Nat) : Takes f t { f with month := some month }
  | weekday : Takes f t f
  | number : Takes f t { f with numbers := f.numbers ++ [t] }
  | date {date : YearMonthDay} (hnone : f.date = none) (h : Loose.date? t = some date) :
      Takes f t { f with date := some date }

theorem takes_of_add? {f g : Fields} {t : Text} (h : f.add? t = some g) : Takes f t g := by
  unfold add? at h
  split at h
  · split at h
    · obtain rfl := Option.some.inj h
      exact .meridiem _
    · cases h
  split at h
  · next hutc =>
    obtain rfl := Option.some.inj h
    exact .offset _ (.inl hutc)
  split at h
  · next hutc =>
    obtain ⟨o, -, rfl⟩ := Option.map_eq_some_iff.mp h
    exact .offset o (.inr (.inl hutc))
  split at h
  · next hsign =>
    obtain ⟨o, -, rfl⟩ := Option.map_eq_some_iff.mp h
    rw [Bool.and_eq_true, Option.isSome_iff_ne_none] at hsign
    exact .offset o (.inr (.inr hsign))
  split at h
  · next hcolon =>
    split at h
    · obtain ⟨time, htime, rfl⟩ := Option.map_eq_some_iff.mp h
      exact .time hcolon htime
    · cases h
  split at h
  · split at h
    · split at h
      · obtain rfl := Option.some.inj h
        exact .month _
      · cases h
    · split at h
      · obtain rfl := Option.some.inj h
        exact .weekday
      · cases h
  split at h
  · obtain rfl := Option.some.inj h
    exact .number
  split at h
  · next hdate =>
    obtain ⟨date, hread, rfl⟩ := Option.map_eq_some_iff.mp h
    exact .date (Option.isNone_iff_eq_none.mp hdate) hread
  · cases h

variable {f g : Fields} {t : Text}

theorem Takes.date_eq (h : Takes f t g) {date : YearMonthDay} (hdate : f.date = some date) :
    g.date = some date := by
  cases h with
  | date hnone => simp [hnone] at hdate
  | _ => exact hdate

theorem Takes.millisecond_lt (h : Takes f t g) (hf : ∀ time ∈ f.time, time.millisecond < 1000) :
    ∀ time ∈ g.time, time.millisecond < 1000 := by
  cases h with
  | time _ htime =>
    rintro time ⟨⟩
    exact Loose.time?_millisecond_lt htime
  | _ => exact hf

/-- A token that starts with neither a letter nor a digit states nothing before a time. -/
theorem add?_of_not_isAlphanum {c : Char} (hc : c.isAlphanum = false) (hf : f.time = none)
    (t : Text) : f.add? (c :: t) = none := by
  obtain ⟨halpha, hdigit⟩ : c.isAlpha = false ∧ c.isDigit = false := by
    simpa [Char.isAlphanum] using hc
  have hlower {d : Char} (hd : d.isAlpha = true) : ¬ c.toLower = d := by
    rintro rfl
    simp [isAlpha_of_toLower hd] at halpha
  have hne : ¬ c = 'Z' := by
    rintro rfl
    simp at hc
  have hwords : meridiem? (c :: t) = none ∧ namesUtc (c :: t) = false ∧
      startsWithUtc (c :: t) = false := by
    simp [meridiem?, namesUtc, startsWithUtc, sameLetters, hlower, hne]
  simp [add?, hwords, hf, hdigit, halpha, time?_of_not_isDigit hdigit, date?_of_not_isAlphanum hc]

end Fields

/-- What the three parts of a date token state. -/
inductive DateParts (p q e : Text) : YearMonthDay → Prop
  | named {year : Int} {month day : Nat} (hmonth : month? q = some month)
      (hyear : year? e = some year) (hday : number? 2 p = some day) :
      DateParts p q e ⟨year, month, day⟩
  | yearFirst {year : Int} {month day : Nat} (hname : month? q = none) (hlen : p.length = 4)
      (hyear : year? p = some year) (hmonth : number? 2 q = some month)
      (hday : number? 2 e = some day) : DateParts p q e ⟨year, month, day⟩
  | monthFirst {year : Int} {month day : Nat} (hname : month? q = none) (hlen : p.length ≠ 4)
      (hyear : year? e = some year) (hmonth : number? 2 p = some month)
      (hday : number? 2 q = some day) : DateParts p q e ⟨year, month, day⟩

theorem number?_eq_some {most n : Nat} {t : Text} (h : number? most t = some n) :
    t ≠ [] ∧ IsNumber t ∧ t.length ≤ most ∧ n = toNat t := by
  unfold number? at h
  split_ifs at h with hnum
  rw [Bool.and_eq_true, isNumeral_iff, decide_eq_true_eq] at hnum
  exact ⟨hnum.1.1, hnum.1.2, hnum.2, (Option.some.inj h).symm⟩

theorem year?_eq_some {t : Text} {year : Int} (h : year? t = some year) : t ≠ [] ∧ IsNumber t := by
  cases hn : number? 6 t with
  | none => simp [year?, hn] at h
  | some n =>
    obtain ⟨hne, hnum, -, -⟩ := number?_eq_some hn
    exact ⟨hne, hnum⟩

theorem DateParts.isNumber {p q e : Text} {date : YearMonthDay} (h : DateParts p q e date) :
    p ≠ [] ∧ IsNumber p ∧ e ≠ [] ∧ IsNumber e := by
  cases h with
  | named _ hyear hday =>
    obtain ⟨hne, hnum, -⟩ := number?_eq_some hday
    exact ⟨hne, hnum, year?_eq_some hyear⟩
  | yearFirst _ _ hyear _ hday =>
    obtain ⟨hne, hnum, -⟩ := number?_eq_some hday
    obtain ⟨hne', hnum'⟩ := year?_eq_some hyear
    exact ⟨hne', hnum', hne, hnum⟩
  | monthFirst _ _ hyear hmonth _ =>
    obtain ⟨hne, hnum, -⟩ := number?_eq_some hmonth
    exact ⟨hne, hnum, year?_eq_some hyear⟩

theorem date?_eq_some {t : Text} {date : YearMonthDay} (h : date? t = some date) :
    ∃ s p q e, t = p ++ s :: (q ++ s :: e) ∧ (s = '/' ∨ s = '-' ∨ s = '.') ∧
      (∀ c ∈ q, (c == s) = false) ∧ (∀ c ∈ e, (c == s) = false) ∧ DateParts p q e date := by
  simp only [date?, Option.bind_eq_bind, Option.bind_eq_some_iff] at h
  obtain ⟨s, -, h⟩ := h
  split_ifs at h with hmark
  have hs : s = '/' ∨ s = '-' ∨ s = '.' := by
    simpa only [Bool.and_eq_true, bne_iff_ne, not_and_or, not_not, or_assoc] using hmark
  split at h
  · next p q e hparts =>
    obtain ⟨hp, hrest⟩ := split_inversion hparts
    obtain ⟨-, hnil⟩ | ⟨c, u, rfl, hc, hparts⟩ := hrest
    · cases hnil
    obtain ⟨hq, hrest⟩ := split_inversion hparts
    obtain ⟨-, hnil⟩ | ⟨d, v, rfl, hd, hparts⟩ := hrest
    · cases hnil
    obtain ⟨he, hrest⟩ := split_inversion hparts
    obtain ⟨rfl, -⟩ | ⟨-, w, -, -, hnil⟩ := hrest
    · obtain rfl := beq_iff_eq.mp hc
      obtain rfl := beq_iff_eq.mp hd
      refine ⟨d, p, q, v, rfl, hs, hq, he, ?_⟩
      split at h
      · next month hmonth =>
        simp only [Option.bind_eq_some_iff] at h
        obtain ⟨year, hyear, day, hday, h⟩ := h
        obtain rfl := Option.some.inj h
        exact .named hmonth hyear hday
      · next hname =>
        split_ifs at h with hlen
        · simp only [Option.bind_eq_some_iff] at h
          obtain ⟨year, hyear, month, hmonth, day, hday, h⟩ := h
          obtain rfl := Option.some.inj h
          exact .yearFirst hname hlen hyear hmonth hday
        · simp only [Option.bind_eq_some_iff] at h
          obtain ⟨year, hyear, month, hmonth, day, hday, h⟩ := h
          obtain rfl := Option.some.inj h
          exact .monthFirst hname hlen hyear hmonth hday
    · exact absurd hnil split_ne_nil
  · cases h

end Loose
end Coercion
