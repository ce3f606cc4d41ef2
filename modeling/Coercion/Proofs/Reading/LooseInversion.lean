import Coercion.Proofs.Calendar.Readings
import Coercion.Proofs.Reading.Tokens

namespace Coercion

open Calendar Text

/-- A time of a day. -/
structure DayTime.InDay (t : DayTime) : Prop where
  hour : t.hour < 24
  minute : t.minute < 60
  second : t.second < 60
  millisecond : t.millisecond < 1000

theorem DayTime.inDay_midnight : DayTime.midnight.InDay :=
  ⟨by decide, by decide, by decide, by decide⟩

theorem DayTime.inDay_of_checked? {t u : DayTime} {meridiem : Option Meridiem}
    (h : t.checked? meridiem = some u) (ht : t.millisecond < 1000) : u.InDay := by
  unfold checked? at h
  dsimp only at h
  by_cases hrange : t.minute < 60 ∧ t.second < 60
  · rw [if_pos hrange] at h
    obtain ⟨hour, hhour, rfl⟩ := Option.map_eq_some_iff.mp h
    refine ⟨?_, hrange.1, hrange.2, ht⟩
    change hour < 24
    cases meridiem with
    | none =>
      dsimp only at hhour
      split_ifs at hhour with hlt
      obtain rfl := Option.some.inj hhour
      exact hlt
    | some half =>
      dsimp only at hhour
      by_cases htwelve : 1 ≤ t.hour ∧ t.hour ≤ 12
      · rw [if_pos htwelve] at hhour
        have := Option.some.inj hhour
        split_ifs at this <;> omega
      · simp [htwelve] at hhour
  · simp [hrange] at h

def WallReading.IsOf (r : WallReading) (date : YearMonthDay) : Prop :=
  ∃ time : DayTime, time.InDay ∧ WallReading.of? date time r.offset = some r

theorem WallReading.offset_of_of? {r : WallReading} {date : YearMonthDay} {time : DayTime}
    {offset : Option Offset} (h : WallReading.of? date time offset = some r) :
    r.offset = offset := by
  unfold WallReading.of? at h
  split_ifs at h
  rw [← Option.some.inj h]

theorem WallReading.isOf_of_of? {r : WallReading} {date : YearMonthDay} {time : DayTime}
    {offset : Option Offset} (h : WallReading.of? date time offset = some r) (htime : time.InDay) :
    r.IsOf date ∧ r.offset = offset := by
  have hoffset := WallReading.offset_of_of? h
  exact ⟨⟨time, htime, hoffset ▸ h⟩, hoffset⟩

theorem WallReading.IsOf.wall_div {r : WallReading} {date : YearMonthDay} (h : r.IsOf date) :
    1 ≤ date.month ∧ date.month ≤ 12 ∧ 1 ≤ date.day ∧ date.day ≤ 31 ∧
      r.wall / millisPerDay = dayNumber date.year date.month date.day := by
  obtain ⟨time, htime, hr⟩ := h
  unfold WallReading.of? at hr
  split_ifs at hr with hdate
  obtain ⟨hm, hm', hd, hd'⟩ := hdate
  refine ⟨hm, hm', hd, hd', ?_⟩
  rw [← Option.some.inj hr]
  dsimp only
  rw [carriedMillis, carriedDay_eq (by omega) (by omega)]
  obtain ⟨hhour, hminute, hsecond, hmilli⟩ := htime
  unfold millisPerDay millisPerHour millisPerMinute millisPerSecond
  omega

namespace Loose

def endsWithZone (t : Text) : Bool :=
  (t.dropWhile (· != ':')).any fun c => c.isAlpha || c == '+' || c == '-'

/-- Whether one of the tokens states a zone, the first of them after a time or before any. -/
def statesZone (timed : Bool) : List Text → Bool
  | [] => false
  | t :: ts => Fields.namesUtc t || Fields.startsWithUtc t || timed && Fields.startsWithSign t ||
      endsWithZone t || statesZone (timed || t.contains ':') ts

namespace Fields

variable {f g : Fields} {t : Text} {ts : List Text}

theorem foldlM_cons (h : (t :: ts).foldlM add? f = some g) :
    ∃ e, Takes f t e ∧ ts.foldlM add? e = some g := by
  rw [List.foldlM_cons, Option.bind_eq_bind, Option.bind_eq_some_iff] at h
  obtain ⟨e, he, hg⟩ := h
  exact ⟨e, takes_of_add? he, hg⟩

theorem date_of_foldlM {date : YearMonthDay} (h : ts.foldlM add? f = some g)
    (hdate : f.date = some date) : g.date = some date := by
  induction ts generalizing f with
  | nil => simpa [← Option.some.inj h] using hdate
  | cons t ts ih =>
    obtain ⟨e, he, hg⟩ := foldlM_cons h
    exact ih hg (he.date_eq hdate)

theorem millisecond_of_foldlM (h : ts.foldlM add? f = some g)
    (hf : ∀ time ∈ f.time, time.millisecond < 1000) :
    ∀ time ∈ g.time, time.millisecond < 1000 := by
  induction ts generalizing f with
  | nil => simpa [← Option.some.inj h] using hf
  | cons t ts ih =>
    obtain ⟨e, he, hg⟩ := foldlM_cons h
    exact ih hg (he.millisecond_lt hf)

theorem inDay_of_time? {time : DayTime} (h : f.time? = some time)
    (hf : ∀ given ∈ f.time, given.millisecond < 1000) : time.InDay := by
  unfold Fields.time? at h
  split at h
  · next given hgiven => exact DayTime.inDay_of_checked? h (hf given hgiven)
  · split_ifs at h
    obtain rfl := Option.some.inj h
    exact DayTime.inDay_midnight

theorem Takes.time_eq (h : Takes f t g) (hcolon : t.contains ':' = false) : g.time = f.time := by
  cases h with
  | time hcolon' => exact absurd hcolon' (by rw [hcolon]; decide)
  | _ => rfl

theorem time_of_foldlM (h : ts.foldlM add? f = some g)
    (hcolon : ∀ t ∈ ts, t.contains ':' = false) : g.time = f.time := by
  induction ts generalizing f with
  | nil => rw [Option.some.inj h]
  | cons t ts ih =>
    obtain ⟨e, he, hg⟩ := foldlM_cons h
    rw [List.forall_mem_cons] at hcolon
    rw [ih hg hcolon.2, he.time_eq hcolon.1]

theorem offset_of_foldlM {timed : Bool} (h : ts.foldlM add? f = some g)
    (hzone : statesZone timed ts = false) (hf : f.offset = none)
    (htimed : timed = false → f.time = none) : g.offset = none := by
  induction ts generalizing f timed with
  | nil => simpa [← Option.some.inj h] using hf
  | cons t ts ih =>
    obtain ⟨e, he, hg⟩ := foldlM_cons h
    simp only [statesZone, Bool.or_eq_false_iff] at hzone
    obtain ⟨⟨⟨⟨hnames, hstarts⟩, hsign⟩, -⟩, hrest⟩ := hzone
    refine ih hg hrest ?_ fun hnot => ?_
    · cases he with
      | offset o hoffset =>
        obtain hutc | hutc | ⟨hutc, htime⟩ := hoffset
        · simp [hutc] at hnames
        · simp [hutc] at hstarts
        · cases timed
          · exact absurd (htimed rfl) htime
          · simp [hutc] at hsign
      | _ => exact hf
    · rw [Bool.or_eq_false_iff] at hnot
      rw [he.time_eq hnot.2, htimed hnot.1]

end Fields

theorem exists_fields {t : Text} {r : WallReading} (h : read? t = some r) :
    ∃ f date time, (tokens t).foldlM Fields.add? .empty = some f ∧ f.date? = some date ∧
      f.time? = some time ∧ WallReading.of? date time f.offset = some r := by
  simp only [read?, Option.bind_eq_bind, Option.bind_eq_some_iff] at h
  obtain ⟨f, hfold, date, hdate, time, htime, hr⟩ := h
  exact ⟨f, date, time, hfold, hdate, htime, hr⟩

theorem read?_eq_some {t : Text} {r : WallReading} (h : read? t = some r) :
    ∃ f date, (tokens t).foldlM Fields.add? .empty = some f ∧ f.date? = some date ∧ r.IsOf date ∧
      r.offset = f.offset := by
  obtain ⟨f, date, time, hfold, hdate, htime, hr⟩ := exists_fields h
  have hmilli := Fields.millisecond_of_foldlM hfold (by simp [Fields.empty])
  obtain ⟨hof, hoffset⟩ := WallReading.isOf_of_of? hr (Fields.inDay_of_time? htime hmilli)
  exact ⟨f, date, hfold, hdate, hof, hoffset⟩

theorem offset_of_statesZone {t : Text} {r : WallReading} (h : read? t = some r)
    (hzone : statesZone false (tokens t) = false) : r.offset = none := by
  obtain ⟨f, date, hfold, -, -, hoffset⟩ := read?_eq_some h
  rw [hoffset]
  exact Fields.offset_of_foldlM hfold hzone rfl fun _ => rfl

theorem exists_tokens_cons {c : Char} (hsep : isSeparator c = false) (hparen : c ≠ '(') (t : Text) :
    ∃ k u, t = k ++ u ∧ (∀ d ∈ k, isSeparator d = false) ∧ EndsToken u ∧
      tokens (c :: t) = (c :: k) :: tokens u := by
  obtain ⟨k, u, rfl, hk, hu⟩ := exists_endsToken t
  refine ⟨k, u, rfl, hk, hu, ?_⟩
  rw [← List.cons_append]
  apply tokens_append (by simp) (by simpa using hparen) _ hu
  simpa [hsep] using hk

theorem read?_of_mark {c : Char} (hc : c.isAlphanum = false) (hsep : isSeparator c = false)
    (hparen : c ≠ '(') (t : Text) : read? (c :: t) = none := by
  obtain ⟨k, u, rfl, -, -, htokens⟩ := exists_tokens_cons hsep hparen t
  have hfirst := Fields.add?_of_not_isAlphanum hc (f := .empty) rfl k
  simp [read?, htokens, hfirst]

theorem tokens_append_separators {a : Text} (ha : ∀ c ∈ a, isSeparator c = true) (t : Text) :
    tokens (a ++ t) = tokens t := by
  induction a with
  | nil => rfl
  | cons c a ih =>
    rw [List.cons_append, tokens_cons_separator (ha c (by simp))]
    exact ih fun d hd => ha d (by simp [hd])

/-- No accepted text has a mark at the start of its second token, unless the first one is a time. -/
theorem read?_of_second_mark {k a : Text} {c : Char} (hk : StartsWithDigit k)
    (hksep : ∀ d ∈ k, isSeparator d = false) (hcolon : k.contains ':' = false) (ha : a ≠ [])
    (hasep : ∀ d ∈ a, isSeparator d = true) (hc : c.isAlphanum = false)
    (hsep : isSeparator c = false) (hparen : c ≠ '(') (t : Text) :
    read? (k ++ (a ++ c :: t)) = none := by
  obtain ⟨d, b, rfl⟩ := List.exists_cons_of_ne_nil ha
  have hends : EndsToken (d :: b ++ c :: t) := .inr ⟨d, b ++ c :: t, rfl, hasep d (by simp)⟩
  obtain ⟨k', u, rfl, -, -, htokens⟩ := exists_tokens_cons hsep hparen t
  have hall : tokens (k ++ (d :: b ++ c :: (k' ++ u))) = k :: (c :: k') :: tokens u := by
    rw [tokens_of_startsWithDigit hk hksep hends, tokens_append_separators hasep, htokens]
  cases hread : read? (k ++ (d :: b ++ c :: (k' ++ u))) with
  | none => rfl
  | some r =>
    obtain ⟨f, date, hfold, -⟩ := read?_eq_some hread
    rw [hall] at hfold
    obtain ⟨e, he, hrest⟩ := Fields.foldlM_cons hfold
    have htime := he.time_eq hcolon
    simp [Fields.add?_of_not_isAlphanum hc htime k'] at hrest

theorem time?_of_digits {p t : Text} {c : Char} (hp : IsNumber p) (hc : c.isDigit = false)
    (hcolon : c ≠ ':') : time? (p ++ c :: t) = none := by
  rw [time?, splitDigits_append hp (by simpa using hc)]
  dsimp only [Option.bind_eq_bind]
  split
  · next heq => exact absurd (List.cons.inj heq).1 hcolon
  · simp

/-- An accepted text whose first digits are followed by a mark starts with a date between such
marks. -/
theorem read?_of_digits {p v : Text} {z : Char} {r : WallReading} (hne : p ≠ []) (hp : IsNumber p)
    (hz : z.isDigit = false) (hsep : isSeparator z = false) (hcolon : z ≠ ':')
    (h : read? (p ++ z :: v) = some r) :
    (z = '/' ∨ z = '-' ∨ z = '.') ∧ ∃ q e tail date, v = q ++ z :: (e ++ tail) ∧ EndsToken tail ∧
      (∀ c ∈ q ++ e, isSeparator c = false ∧ c ≠ z) ∧
      (p ++ z :: (q ++ z :: e)).contains ':' = false ∧ DateParts p q e date ∧ r.IsOf date := by
  obtain ⟨k, tail, rfl, hk, htail⟩ := exists_endsToken v
  have hdigit : StartsWithDigit (p ++ z :: k) := (hp.startsWithDigit hne).append _
  have htokens : tokens (p ++ z :: (k ++ tail)) = (p ++ z :: k) :: tokens tail := by
    rw [← List.cons_append, ← List.append_assoc]
    refine tokens_of_startsWithDigit hdigit (fun d hd => ?_) htail
    simp only [List.mem_append, List.mem_cons] at hd
    obtain hd | rfl | hd := hd
    · exact isSeparator_of_isDigit (hp d hd)
    · exact hsep
    · exact hk d hd
  obtain ⟨f, date, hfold, hdate, hof, -⟩ := read?_eq_some h
  rw [htokens, List.foldlM_cons, Option.bind_eq_bind, Option.bind_eq_some_iff] at hfold
  obtain ⟨e, hfirst, hfold⟩ := hfold
  rw [Fields.add?_of_startsWithDigit hdigit, time?_of_digits hp hz hcolon] at hfirst
  have hall : (p ++ z :: k).all Char.isDigit = false := by
    simp [hz]
  rw [hall] at hfirst
  by_cases hmem : (p ++ z :: k).contains ':' = true
  · rw [if_pos hmem] at hfirst
    simp [Fields.empty] at hfirst
  rw [if_neg hmem] at hfirst
  simp only [Bool.false_eq_true, if_false, Fields.empty, Option.isNone_none, if_true,
    Option.map_eq_some_iff] at hfirst
  obtain ⟨date', hdate', rfl⟩ := hfirst
  have hlast := Fields.date_of_foldlM hfold rfl
  obtain rfl : date' = date := by
    unfold Fields.date? at hdate
    rw [hlast] at hdate
    dsimp only at hdate
    split_ifs at hdate
    exact Option.some.inj hdate
  obtain ⟨s, p₀, q, e, htoken, hs, hq, he, hparts⟩ := date?_eq_some hdate'
  have hsdigit : s.isDigit = false := by
    obtain rfl | rfl | rfl := hs <;> rfl
  obtain ⟨rfl, rfl, rfl⟩ := append_cons_inj (p := fun c => !c.isDigit)
    (by simpa [IsNumber] using hp) (by simpa [IsNumber] using hparts.isNumber.2.1)
    (by simpa using hz) (by simpa using hsdigit) htoken
  refine ⟨hs, q, e, tail, date', by simp, htail, fun d hd => ?_, ?_, hparts, hof⟩
  · obtain hd | hd := List.mem_append.mp hd
    · exact ⟨hk d (by simp [hd]), beq_eq_false_iff_ne.mp (hq d hd)⟩
    · exact ⟨hk d (by simp [hd]), beq_eq_false_iff_ne.mp (he d hd)⟩
  · simpa using hmem

end Loose

end Coercion
