import Coercion.Proofs.Reading.IsoInversion
import Coercion.Proofs.Time.OffsetTexts

namespace Coercion

open Calendar Text

def YearMonthDay.InRange (date : YearMonthDay) : Prop :=
  1 ≤ date.month ∧ date.month ≤ 12 ∧ 1 ≤ date.day ∧ date.day ≤ 31

def WallReading.denoted (date : YearMonthDay) (time : DayTime) (offset : Option Offset) :
    WallReading :=
  ⟨dayNumber date.year date.month date.day * millisPerDay + time.hour * millisPerHour +
    time.minute * millisPerMinute + time.second * millisPerSecond + time.millisecond, offset⟩

theorem WallReading.of?_eq_some_iff {date : YearMonthDay} {time : DayTime} {offset : Option Offset}
    {r : WallReading} :
    of? date time offset = some r ↔ date.InRange ∧ r = denoted date time offset := by
  rw [of?, Option.ite_none_right_eq_some]
  refine and_congr_right fun hdate => ?_
  rw [Option.some.injEq, eq_comm, carriedMillis, carriedDay_eq (by omega) (by omega)]
  rfl

theorem DayTime.checked?_none_eq_some_iff {t u : DayTime} : t.checked? none = some u ↔
    (t.hour < 24 ∧ t.minute < 60 ∧ t.second < 60) ∧ u = t := by
  unfold checked?
  dsimp only
  split_ifs with hrange hhour
  · simp only [Option.map_some, Option.some.injEq, hrange, hhour, true_and, and_self]
    exact eq_comm
  · simp [hhour]
  · simp only [false_iff]
    tauto

namespace Iso

/-- The fraction of a second behind a point, with its milliseconds. It has a least number of digits,
of which three count. -/
inductive IsFraction (least : Nat) : Text → Nat → Prop
  | absent : IsFraction least [] 0
  | digits {p : Text} (hp : IsNumber p) (hleast : least ≤ p.length) :
      IsFraction least ('.' :: p) (toNat ((p ++ "000".toList).take 3))

/-- A time to the minute, or to the second with the fraction of the second. -/
inductive IsTime (least : Nat) : Text → DayTime → Prop
  | minute {h m : Text} (hh : IsDigits 2 h) (hm : IsDigits 2 m) (hhour : toNat h < 24)
      (hminute : toNat m < 60) : IsTime least (h ++ ':' :: m) ⟨toNat h, toNat m, 0, 0⟩
  | second {h m s f : Text} {millis : Nat} (hh : IsDigits 2 h) (hm : IsDigits 2 m)
      (hs : IsDigits 2 s) (hf : IsFraction least f millis) (hhour : toNat h < 24)
      (hminute : toNat m < 60) (hsecond : toNat s < 60) :
      IsTime least (h ++ ':' :: (m ++ ':' :: (s ++ f))) ⟨toNat h, toNat m, toNat s, millis⟩

/-- The offset behind a time, if there is one. -/
inductive IsOffset : Text → Option Offset → Prop
  | absent : IsOffset [] none
  | zulu {c : Char} (hc : c = 'Z' ∨ c = 'z') : IsOffset [c] (some .utc)
  | read {t : Text} {o : Offset} (h : Offset.read t = .ok o) : IsOffset t (some o)

/-- The texts of ISO dates, with the readings that they denote, and a least number of digits behind
the point. -/
inductive IsDateTime (least : Nat) : Text → WallReading → Prop
  | year {y : Text} {year : Int} (hy : IsYear y year) :
      IsDateTime least y (.denoted ⟨year, 1, 1⟩ .midnight (some .utc))
  | month {y m : Text} {year : Int} (hy : IsYear y year) (hm : IsDigits 2 m)
      (hrange : YearMonthDay.InRange ⟨year, toNat m, 1⟩) :
      IsDateTime least (y ++ '-' :: m) (.denoted ⟨year, toNat m, 1⟩ .midnight (some .utc))
  | day {y m d : Text} {year : Int} (hy : IsYear y year) (hm : IsDigits 2 m) (hd : IsDigits 2 d)
      (hrange : YearMonthDay.InRange ⟨year, toNat m, toNat d⟩) :
      IsDateTime least (y ++ '-' :: (m ++ '-' :: d))
        (.denoted ⟨year, toNat m, toNat d⟩ .midnight (some .utc))
  | time {y m d t o : Text} {mark : Char} {year : Int} {time : DayTime} {offset : Option Offset}
      (hy : IsYear y year) (hm : IsDigits 2 m) (hd : IsDigits 2 d)
      (hrange : YearMonthDay.InRange ⟨year, toNat m, toNat d⟩)
      (hmark : mark = ' ' ∨ mark = 'T' ∨ mark = 't') (ht : IsTime least t time)
      (ho : IsOffset o offset) :
      IsDateTime least (y ++ '-' :: (m ++ '-' :: (d ++ mark :: (t ++ o))))
        (.denoted ⟨year, toNat m, toNat d⟩ time offset)

def HasBarePoint (t : Text) : Prop :=
  ∃ a b, t = a ++ '.' :: b ∧ ∀ c ∈ b.head?, c.isDigit = false

theorem IsYear.year?_append {y : Text} {year : Int} (h : IsYear y year) (t : Text) :
    year? (y ++ t) = some (year, t) := by
  cases h with
  | unsigned hp => exact year?_of_isDigits hp t
  | plus hp =>
    rw [List.cons_append, year?, fixedDigits?_append hp]
    rfl
  | minus hp =>
    rw [List.cons_append, year?, fixedDigits?_append hp]
    rfl

theorem offset?_eq_some_iff {t : Text} {o : Option Offset} :
    offset? t = some o ↔ IsOffset t o := by
  constructor
  · intro h
    unfold offset? at h
    split_ifs at h with hempty hutc
    · rw [List.isEmpty_iff.mp hempty, ← Option.some.inj h]
      exact .absent
    · rw [Bool.or_eq_true, beq_iff_eq, beq_iff_eq] at hutc
      rw [← Option.some.inj h]
      obtain rfl | rfl := hutc
      · exact .zulu (.inl rfl)
      · exact .zulu (.inr rfl)
    · cases hread : Offset.read t with
      | error => simp [hread, Except.toOption] at h
      | ok o =>
        rw [hread] at h
        rw [← Option.some.inj h]
        exact .read hread
  · intro h
    cases h with
    | absent => rfl
    | zulu hc =>
      obtain rfl | rfl := hc
      · rfl
      · rfl
    | @read t o h =>
      have hempty : t.isEmpty = false := by
        cases t with
        | nil => cases h
        | cons => rfl
      unfold offset?
      rw [hempty, if_neg Bool.false_ne_true, h]
      split_ifs with hutc
      · rw [Bool.or_eq_true, beq_iff_eq, beq_iff_eq] at hutc
        obtain rfl | rfl := hutc
        · exact congrArg (some ∘ some) (Except.ok.inj h)
        · cases h
      · rfl

theorem exists_isFraction {t u : Text} {millis : Nat} (h : fraction t = (millis, u)) :
    ∃ f, IsFraction 0 f millis ∧ t = f ++ u := by
  unfold fraction at h
  split at h
  · next t =>
    obtain ⟨rfl, rfl⟩ := Prod.mk.inj h
    refine ⟨'.' :: t.takeWhile Char.isDigit, .digits ?_ (Nat.zero_le _), ?_⟩
    · exact fun c hc => List.mem_takeWhile_imp hc
    · exact congrArg ('.' :: ·) List.takeWhile_append_dropWhile.symm
  · obtain ⟨rfl, rfl⟩ := Prod.mk.inj h
    exact ⟨[], .absent, rfl⟩

theorem IsFraction.fraction_append {least millis : Nat} {f u : Text} (h : IsFraction least f millis)
    (hu : ∀ c ∈ u.head?, c.isDigit = false ∧ c ≠ '.') : fraction (f ++ u) = (millis, u) := by
  cases h with
  | absent => exact WrittenTime.fraction_of_head fun hc => (hu '.' hc).2 rfl
  | digits hp _ =>
    rw [List.cons_append, fraction, splitDigits_append hp fun c hc => (hu c hc).1]
    rfl

theorem exists_seconds {t u : Text} {second millis : Nat}
    (h : seconds? t = some (second, millis, u)) :
    second = 0 ∧ millis = 0 ∧ t = u ∨
      ∃ s f, IsDigits 2 s ∧ IsFraction 0 f millis ∧ second = toNat s ∧ t = ':' :: (s ++ (f ++ u)) := by
  unfold seconds? at h
  split at h
  · next t =>
    simp only [Option.bind_eq_bind, Option.bind_eq_some_iff] at h
    obtain ⟨⟨n, v⟩, hsecond, h⟩ := h
    obtain ⟨s, hs, rfl, rfl⟩ := fixedDigits?_eq_some hsecond
    obtain ⟨rfl, hfraction⟩ : toNat s = second ∧ fraction v = (millis, u) := by simpa using h
    obtain ⟨f, hf, rfl⟩ := exists_isFraction hfraction
    exact .inr ⟨s, f, hs, hf, rfl, rfl⟩
  · obtain ⟨rfl, rfl, rfl⟩ : 0 = second ∧ 0 = millis ∧ t = u := by simpa using h
    exact .inl ⟨rfl, rfl, rfl⟩

theorem exists_isTime {t u : Text} {time : DayTime} (h : time? t = some (time, u)) :
    ∃ q, IsTime 0 q time ∧ t = q ++ u := by
  simp only [time?, Option.bind_eq_bind, Option.bind_eq_some_iff] at h
  obtain ⟨⟨hour, v⟩, hhour, h⟩ := h
  obtain ⟨p, hp, rfl, rfl⟩ := fixedDigits?_eq_some hhour
  dsimp only at h
  split at h
  · next v =>
    simp only [Option.bind_some, Option.bind_eq_some_iff] at h
    obtain ⟨⟨minute, w⟩, hminute, ⟨second, millis, rest⟩, hseconds, checked, hchecked, h⟩ := h
    obtain ⟨q, hq, rfl, rfl⟩ := fixedDigits?_eq_some hminute
    obtain ⟨⟨hh, hm, hs⟩, rfl⟩ := DayTime.checked?_none_eq_some_iff.mp hchecked
    obtain ⟨rfl, rfl⟩ := Prod.mk.inj (Option.some.inj h)
    obtain ⟨rfl, rfl, rfl⟩ | ⟨s, f, hdigits, hf, rfl, rfl⟩ := exists_seconds hseconds
    · exact ⟨_, .minute hp hq hh hm, by simp⟩
    · exact ⟨_, .second hp hq hdigits hf hh hm hs, by simp⟩
  · simp at h

theorem IsTime.time?_append {least : Nat} {q u : Text} {time : DayTime} (h : IsTime least q time)
    (hu : ∀ c ∈ u.head?, c.isDigit = false ∧ c ≠ '.' ∧ c ≠ ':') :
    time? (q ++ u) = some (time, u) := by
  cases h with
  | @minute h m hh hm hhour hminute =>
    have hchecked := (DayTime.checked?_none_eq_some_iff (t := ⟨toNat h, toNat m, 0, 0⟩)).mpr
      ⟨⟨hhour, hminute, Nat.zero_lt_succ _⟩, rfl⟩
    have hseconds : seconds? u = some (0, 0, u) :=
      WrittenTime.seconds?_of_head fun hc => (hu ':' hc).2.2 rfl
    simp only [List.append_assoc, List.cons_append, time?, fixedDigits?_append hh,
      fixedDigits?_append hm, hseconds, Option.bind_eq_bind, Option.bind_some, hchecked]
  | @second h m s f millis hh hm hs hf hhour hminute hsecond =>
    have hchecked := (DayTime.checked?_none_eq_some_iff
      (t := ⟨toNat h, toNat m, toNat s, millis⟩)).mpr ⟨⟨hhour, hminute, hsecond⟩, rfl⟩
    have hfraction := hf.fraction_append fun c hc => ⟨(hu c hc).1, (hu c hc).2.1⟩
    simp only [List.append_assoc, List.cons_append, time?, seconds?, fixedDigits?_append hh,
      fixedDigits?_append hm, fixedDigits?_append hs, hfraction, Option.bind_eq_bind,
      Option.bind_some, hchecked]

theorem dateReading?_eq_some_iff {date : YearMonthDay} {t : Text} {r : WallReading} :
    dateReading? date t = some r ↔
      t = [] ∧ date.InRange ∧ r = .denoted date .midnight (some .utc) := by
  rw [dateReading?, Option.ite_none_right_eq_some, List.isEmpty_iff, WallReading.of?_eq_some_iff]

theorem isDateTime_of_read? {t : Text} {r : WallReading} (h : read? t = some r) :
    IsDateTime 0 t r := by
  simp only [read?, Option.bind_eq_bind, Option.bind_eq_some_iff] at h
  obtain ⟨⟨year, u⟩, hyear, h⟩ := h
  obtain ⟨y, hy, rfl⟩ := exists_isYear hyear
  dsimp only at h
  split at h
  · simp only [Option.bind_eq_some_iff] at h
    obtain ⟨⟨month, u⟩, hmonth, h⟩ := h
    obtain ⟨m, hm, rfl, rfl⟩ := fixedDigits?_eq_some hmonth
    dsimp only at h
    split at h
    · simp only [Option.bind_eq_some_iff] at h
      obtain ⟨⟨day, u⟩, hday, h⟩ := h
      obtain ⟨d, hd, rfl, rfl⟩ := fixedDigits?_eq_some hday
      dsimp only at h
      split at h
      · obtain ⟨-, hrange, rfl⟩ := dateReading?_eq_some_iff.mp h
        rw [List.append_nil]
        exact .day hy hm hd hrange
      · next mark u =>
        split_ifs at h with hmark
        simp only [Option.bind_eq_some_iff] at h
        obtain ⟨⟨time, w⟩, htime, offset, hoffset, h⟩ := h
        obtain ⟨q, hq, rfl⟩ := exists_isTime htime
        obtain ⟨hrange, rfl⟩ := WallReading.of?_eq_some_iff.mp h
        exact .time hy hm hd hrange (by simp at hmark; tauto) hq (offset?_eq_some_iff.mp hoffset)
    · obtain ⟨rfl, hrange, rfl⟩ := dateReading?_eq_some_iff.mp h
      rw [List.append_nil]
      exact .month hy hm hrange
  · obtain ⟨rfl, -, rfl⟩ := dateReading?_eq_some_iff.mp h
    rw [List.append_nil]
    exact .year hy

theorem IsOffset.head_ne {t : Text} {o : Option Offset} (h : IsOffset t o) :
    ∀ c ∈ t.head?, c.isDigit = false ∧ c ≠ '.' ∧ c ≠ ':' := by
  cases o with
  | none =>
    cases h
    simp
  | some o =>
    obtain ⟨c, u, rfl, hc⟩ := offset?_eq_some (offset?_eq_some_iff.mpr h)
    rintro d hd
    obtain rfl : c = d := by simpa using hd
    rw [Bool.or_eq_true, Bool.or_eq_true, beq_iff_eq, beq_iff_eq] at hc
    obtain (hc | rfl) | rfl := hc
    · have hdigit : c.isDigit = false := by
        by_contra h
        simp [not_isAlpha_of_isDigit (by simpa using h)] at hc
      exact ⟨hdigit, ne_of_isAlphanum (isAlphanum_of_isAlpha hc) rfl,
        ne_of_isAlphanum (isAlphanum_of_isAlpha hc) rfl⟩
    · decide
    · decide

theorem IsDateTime.read?_eq {least : Nat} {t : Text} {r : WallReading} (h : IsDateTime least t r) :
    read? t = some r := by
  have hdigits {p : Text} (hp : IsDigits 2 p) : fixedDigits? 2 p = some (toNat p, []) := by
    simpa using fixedDigits?_append hp []
  cases h with
  | year hy =>
    have hyear := hy.year?_append []
    rw [List.append_nil] at hyear
    simp only [read?, hyear, Option.bind_eq_bind, Option.bind_some]
    exact dateReading?_eq_some_iff.mpr ⟨rfl, ⟨le_rfl, by norm_num, le_rfl, by norm_num⟩, rfl⟩
  | month hy hm hrange =>
    simp only [read?, hy.year?_append, hdigits hm, Option.bind_eq_bind, Option.bind_some]
    exact dateReading?_eq_some_iff.mpr ⟨rfl, hrange, rfl⟩
  | day hy hm hd hrange =>
    simp only [read?, hy.year?_append, fixedDigits?_append hm, hdigits hd, Option.bind_eq_bind,
      Option.bind_some]
    exact dateReading?_eq_some_iff.mpr ⟨rfl, hrange, rfl⟩
  | @time y m d t o mark year time offset hy hm hd hrange hmark ht ho =>
    have hmark' : (mark == 'T' || mark == 't' || mark == ' ') = true := by
      obtain rfl | rfl | rfl := hmark <;> rfl
    simp only [read?, hy.year?_append, fixedDigits?_append hm, fixedDigits?_append hd,
      ht.time?_append ho.head_ne, hmark', offset?_eq_some_iff.mpr ho, Option.bind_eq_bind,
      Option.bind_some, ↓reduceIte]
    exact WallReading.of?_eq_some_iff.mpr ⟨hrange, rfl⟩

theorem hasBarePoint_append {a t : Text} (ha : '.' ∉ a) : HasBarePoint (a ++ t) ↔ HasBarePoint t := by
  induction a with
  | nil => rfl
  | cons d a ih =>
    rw [List.mem_cons, not_or] at ha
    rw [← ih ha.2]
    constructor
    · rintro ⟨x, b, heq, hb⟩
      cases x with
      | nil => exact absurd (List.cons.inj heq).1.symm ha.1
      | cons e x => exact ⟨x, b, (List.cons.inj heq).2, hb⟩
    · rintro ⟨x, b, heq, hb⟩
      exact ⟨d :: x, b, congrArg (d :: ·) heq, hb⟩

theorem not_hasBarePoint {t : Text} (h : '.' ∉ t) : ¬HasBarePoint t := by
  rintro ⟨a, b, rfl, -⟩
  simp at h

theorem IsYear.not_mem {y : Text} {year : Int} (h : IsYear y year) : '.' ∉ y := by
  have hdigits {k : Nat} {p : Text} (hp : IsDigits k p) := not_mem_of_isNumber hp.isNumber (c := '.')
  cases h with
  | unsigned hp => exact hdigits hp rfl
  | plus hp => simp [hdigits hp rfl]
  | minus hp => simp [hdigits hp rfl]

theorem IsOffset.not_mem {t : Text} {o : Option Offset} (h : IsOffset t o) : '.' ∉ t := by
  cases h with
  | absent => exact List.not_mem_nil
  | zulu hc =>
    obtain rfl | rfl := hc
    · decide
    · decide
  | read h =>
    intro hmem
    have hread := Offset.mem_of_read (by rw [h]; exact nofun) hmem
    exact absurd hread (by decide)

theorem IsFraction.one_iff {f o : Text} {millis : Nat} (ho : '.' ∉ o)
    (hhead : ∀ c ∈ o.head?, c.isDigit = false) :
    IsFraction 1 f millis ↔ IsFraction 0 f millis ∧ ¬HasBarePoint (f ++ o) := by
  constructor
  · intro h
    cases h with
    | absent => exact ⟨.absent, not_hasBarePoint ho⟩
    | @digits p hp hleast =>
      refine ⟨.digits hp (Nat.zero_le _), ?_⟩
      rintro ⟨x, b, heq, hb⟩
      cases x with
      | nil =>
        obtain ⟨c, p, rfl⟩ := List.exists_cons_of_length_pos hleast
        obtain ⟨-, rfl⟩ := List.cons.inj heq
        have hc := hb c rfl
        rw [hp c List.mem_cons_self] at hc
        cases hc
      | cons e x =>
        have hbare : HasBarePoint (p ++ o) := ⟨x, b, (List.cons.inj heq).2, hb⟩
        rw [hasBarePoint_append (not_mem_of_isNumber hp rfl)] at hbare
        exact not_hasBarePoint ho hbare
  · rintro ⟨h, hbare⟩
    cases h with
    | absent => exact .absent
    | @digits p hp _ =>
      refine .digits hp (List.length_pos_of_ne_nil ?_)
      rintro rfl
      exact hbare ⟨[], o, rfl, hhead⟩

theorem IsTime.one_iff {t o : Text} {time : DayTime} (ho : '.' ∉ o)
    (hhead : ∀ c ∈ o.head?, c.isDigit = false) :
    IsTime 1 t time ↔ IsTime 0 t time ∧ ¬HasBarePoint (t ++ o) := by
  have hdigits {p : Text} (hp : IsDigits 2 p) := not_mem_of_isNumber hp.isNumber (c := '.')
  have hsplit {h m s : Text} (hh : IsDigits 2 h) (hm : IsDigits 2 m) (hs : IsDigits 2 s)
      (f : Text) : HasBarePoint (h ++ ':' :: (m ++ ':' :: (s ++ f)) ++ o) ↔
        HasBarePoint (f ++ o) := by
    have htext : h ++ ':' :: (m ++ ':' :: (s ++ f)) ++ o =
        (h ++ ':' :: (m ++ ':' :: s)) ++ (f ++ o) := by simp
    rw [htext, hasBarePoint_append (by simp [hdigits hh rfl, hdigits hm rfl, hdigits hs rfl])]
  constructor
  · intro h
    cases h with
    | minute hh hm hhour hminute =>
      refine ⟨.minute hh hm hhour hminute, not_hasBarePoint ?_⟩
      simp [hdigits hh rfl, hdigits hm rfl, ho]
    | second hh hm hs hf hhour hminute hsecond =>
      obtain ⟨hf, hbare⟩ := (IsFraction.one_iff ho hhead).mp hf
      exact ⟨.second hh hm hs hf hhour hminute hsecond, (hsplit hh hm hs _).not.mpr hbare⟩
  · rintro ⟨h, hbare⟩
    cases h with
    | minute hh hm hhour hminute => exact .minute hh hm hhour hminute
    | second hh hm hs hf hhour hminute hsecond =>
      have hf := (IsFraction.one_iff ho hhead).mpr ⟨hf, (hsplit hh hm hs _).not.mp hbare⟩
      exact .second hh hm hs hf hhour hminute hsecond

theorem IsDateTime.one_iff {t : Text} {r : WallReading} :
    IsDateTime 1 t r ↔ IsDateTime 0 t r ∧ ¬HasBarePoint t := by
  have hdigits {p : Text} (hp : IsDigits 2 p) := not_mem_of_isNumber hp.isNumber (c := '.')
  have hsplit {y m d : Text} {mark : Char} {year : Int} (hy : IsYear y year) (hm : IsDigits 2 m)
      (hd : IsDigits 2 d) (hmark : mark = ' ' ∨ mark = 'T' ∨ mark = 't') (u : Text) :
      HasBarePoint (y ++ '-' :: (m ++ '-' :: (d ++ mark :: u))) ↔ HasBarePoint u := by
    have htext : y ++ '-' :: (m ++ '-' :: (d ++ mark :: u)) =
        (y ++ '-' :: (m ++ '-' :: (d ++ [mark]))) ++ u := by simp
    have hpoint : '.' ≠ mark := by
      obtain rfl | rfl | rfl := hmark <;> decide
    rw [htext, hasBarePoint_append (by simp [hy.not_mem, hdigits hm rfl, hdigits hd rfl, hpoint])]
  constructor
  · intro h
    cases h with
    | year hy => exact ⟨.year hy, not_hasBarePoint hy.not_mem⟩
    | month hy hm hrange =>
      exact ⟨.month hy hm hrange, not_hasBarePoint (by simp [hy.not_mem, hdigits hm rfl])⟩
    | day hy hm hd hrange =>
      exact ⟨.day hy hm hd hrange,
        not_hasBarePoint (by simp [hy.not_mem, hdigits hm rfl, hdigits hd rfl])⟩
    | time hy hm hd hrange hmark ht ho =>
      obtain ⟨ht, hbare⟩ := (IsTime.one_iff ho.not_mem fun c hc => (ho.head_ne c hc).1).mp ht
      exact ⟨.time hy hm hd hrange hmark ht ho, (hsplit hy hm hd hmark _).not.mpr hbare⟩
  · rintro ⟨h, hbare⟩
    cases h with
    | year hy => exact .year hy
    | month hy hm hrange => exact .month hy hm hrange
    | day hy hm hd hrange => exact .day hy hm hd hrange
    | time hy hm hd hrange hmark ht ho =>
      have ht := (IsTime.one_iff ho.not_mem fun c hc => (ho.head_ne c hc).1).mpr
        ⟨ht, (hsplit hy hm hd hmark _).not.mp hbare⟩
      exact .time hy hm hd hrange hmark ht ho

/-- The reader takes a text to a reading exactly if the text denotes it, with any number of digits
behind the point. The texts of the grammar, which asks for a digit, are those of them that have no
bare point. -/
theorem isDateTime_iff_read (t : Text) (r : WallReading) :
    (read? t = some r ↔ IsDateTime 0 t r) ∧
    (IsDateTime 1 t r ↔ read? t = some r ∧ ¬HasBarePoint t) := by
  have hread : read? t = some r ↔ IsDateTime 0 t r := ⟨isDateTime_of_read?, (·.read?_eq)⟩
  exact ⟨hread, by rw [hread, IsDateTime.one_iff]⟩

theorem isDateTime_iff_read_barePoint : ¬ ∀ (t : Text) (r : WallReading),
    read? t = some r ↔ IsDateTime 1 t r := by
  intro h
  have hread : read? "2020-03-17T13:45:30.Z".toList = some ⟨1584452730000, some .utc⟩ := by
    decide +kernel
  obtain ⟨-, hbare⟩ := IsDateTime.one_iff.mp ((h _ _).mp hread)
  exact hbare ⟨"2020-03-17T13:45:30".toList, ['Z'], rfl, fun _ hc => Option.some.inj hc ▸ rfl⟩

end Iso

end Coercion
