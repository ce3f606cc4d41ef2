import Coercion.Proofs.Reading.Iso
import Coercion.Proofs.Reading.LooseInversion
import Coercion.Reading.Instant

namespace Coercion

open Calendar Text

theorem fixedDigits?_eq_some {k n : Nat} {t u : Text} (h : fixedDigits? k t = some (n, u)) :
    ∃ p, IsDigits k p ∧ t = p ++ u ∧ n = toNat p := by
  unfold fixedDigits? at h
  dsimp only at h
  split_ifs at h with hdigits
  obtain ⟨rfl, rfl⟩ := Prod.mk.inj (Option.some.inj h)
  exact ⟨t.take k, ⟨List.all_eq_true.mp hdigits.2, hdigits.1⟩,
    (List.take_append_drop k t).symm, rfl⟩

theorem IsDigits.of_append_cons {k : Nat} {p a t u : Text} {c : Char} (hp : IsDigits k p)
    (ha : a.length ≤ k) (hc : c.isDigit = false) (h : p ++ u = a ++ c :: t) :
    p = a ∧ u = c :: t := by
  obtain ⟨v, rfl, rfl⟩ | ⟨v, rfl, hv⟩ := List.append_eq_append_iff.mp h
  · have hlen : v = [] := by
      have := hp.length_eq
      rw [List.length_append] at ha
      exact List.length_eq_zero_iff.mp (by omega)
    simp [hlen]
  · cases v with
    | nil => simpa using hv.symm
    | cons d v =>
      obtain ⟨rfl, -⟩ := List.cons.inj hv
      simp [hp.isNumber c (by simp)] at hc

def IsClock (t : Text) : Prop := ∀ c ∈ t, c.isDigit = true ∨ c = ':' ∨ c = '.'

theorem fraction_eq {t u : Text} {n : Nat} (h : fraction t = (n, u)) :
    ∃ z, IsClock z ∧ t = z ++ u := by
  unfold fraction at h
  split at h
  · next t =>
    obtain ⟨-, rfl⟩ := Prod.mk.inj h
    refine ⟨'.' :: t.takeWhile Char.isDigit, ?_, ?_⟩
    · rintro c (_ | ⟨_, hc⟩)
      · exact .inr (.inr rfl)
      · exact .inl (List.mem_takeWhile_imp hc)
    · exact congrArg ('.' :: ·) List.takeWhile_append_dropWhile.symm
  · obtain ⟨-, rfl⟩ := Prod.mk.inj h
    exact ⟨[], by simp [IsClock], rfl⟩

theorem seconds?_eq_some {t u : Text} {second milli : Nat}
    (h : seconds? t = some (second, milli, u)) : ∃ z, IsClock z ∧ t = z ++ u := by
  unfold seconds? at h
  split at h
  · next t =>
    simp only [Option.bind_eq_bind, Option.bind_eq_some_iff] at h
    obtain ⟨⟨n, v⟩, hdigits, h⟩ := h
    obtain ⟨p, hp, rfl, -⟩ := fixedDigits?_eq_some hdigits
    obtain ⟨-, hfraction⟩ : n = second ∧ fraction v = (milli, u) := by simpa using h
    obtain ⟨z, hz, hv⟩ := fraction_eq hfraction
    refine ⟨':' :: (p ++ z), ?_, by simp [hv]⟩
    intro c hc
    simp only [List.mem_cons, List.mem_append] at hc
    obtain rfl | hc | hc := hc
    · exact .inr (.inl rfl)
    · exact .inl (hp.isNumber c hc)
    · exact hz c hc
  · obtain ⟨-, -, rfl⟩ : 0 = second ∧ 0 = milli ∧ t = u := by simpa using h
    exact ⟨[], by simp [IsClock], rfl⟩

namespace Iso

theorem time?_eq_some {t u : Text} {time : DayTime} (h : time? t = some (time, u)) :
    time.InDay ∧ ∃ p z, IsDigits 2 p ∧ IsClock z ∧ t = p ++ ':' :: (z ++ u) := by
  simp only [time?, Option.bind_eq_bind, Option.bind_eq_some_iff] at h
  obtain ⟨⟨hour, v⟩, hhour, h⟩ := h
  obtain ⟨p, hp, rfl, -⟩ := fixedDigits?_eq_some hhour
  dsimp only at h
  split at h
  · next v =>
    simp only [Option.bind_some, Option.bind_eq_some_iff] at h
    obtain ⟨⟨minute, w⟩, hminute, ⟨second, milli, rest⟩, hseconds, checked, hchecked, h⟩ := h
    obtain ⟨q, hq, rfl, -⟩ := fixedDigits?_eq_some hminute
    obtain ⟨z, hz, rfl⟩ := seconds?_eq_some hseconds
    obtain ⟨rfl, rfl⟩ := Prod.mk.inj (Option.some.inj h)
    refine ⟨DayTime.inDay_of_checked? hchecked (Loose.seconds?_lt hseconds), p, q ++ z, hp, ?_,
      by simp⟩
    intro c hc
    obtain hc | hc := List.mem_append.mp hc
    · exact .inl (hq.isNumber c hc)
    · exact hz c hc
  · simp at h

theorem offset?_eq_some {t : Text} {o : Offset} (h : offset? t = some (some o)) :
    ∃ c u, t = c :: u ∧ (c.isAlpha || c == '+' || c == '-') = true := by
  unfold offset? at h
  split at h
  · cases h
  split at h
  · next hutc =>
    rw [Bool.or_eq_true, beq_iff_eq, beq_iff_eq] at hutc
    obtain rfl | rfl := hutc
    · exact ⟨'Z', [], rfl, rfl⟩
    · exact ⟨'z', [], rfl, rfl⟩
  · next hempty hutc =>
    obtain ⟨o', hread, -⟩ := Option.map_eq_some_iff.mp h
    unfold Offset.read at hread
    split at hread
    · next hname =>
      obtain ⟨c, u, rfl⟩ := List.exists_cons_of_ne_nil (mt List.isEmpty_iff.mpr hempty)
      rw [Bool.or_eq_true, beq_iff_eq] at hname
      obtain hname | hname := hname
      · obtain ⟨rfl, rfl⟩ := List.cons.inj hname
        exact ⟨'Z', [], rfl, rfl⟩
      · have hlower : c.toLower = 'u' := by
          have hsame := beq_iff_eq.mp hname
          rw [List.map_cons] at hsame
          exact (List.cons.inj hsame).1
        have halpha : c.isAlpha = true := isAlpha_of_toLower (by rw [hlower]; rfl)
        exact ⟨c, u, rfl, by simp [halpha]⟩
    · split at hread
      · exact ⟨'-', _, rfl, rfl⟩
      · exact ⟨'+', _, rfl, rfl⟩
      · cases hread

/-- The texts of years, with the years that they denote: four digits, or six behind a sign. -/
inductive IsYear : Text → Int → Prop
  | unsigned {p : Text} (hp : IsDigits 4 p) : IsYear p (toNat p)
  | plus {p : Text} (hp : IsDigits 6 p) : IsYear ('+' :: p) (toNat p)
  | minus {p : Text} (hp : IsDigits 6 p) : IsYear ('-' :: p) (-toNat p)

theorem exists_isYear {t u : Text} {year : Int} (h : year? t = some (year, u)) :
    ∃ y, IsYear y year ∧ t = y ++ u := by
  unfold year? at h
  split at h
  · obtain ⟨⟨n, v⟩, hdigits, hyear⟩ := Option.map_eq_some_iff.mp h
    obtain ⟨p, hp, rfl, rfl⟩ := fixedDigits?_eq_some hdigits
    obtain ⟨rfl, rfl⟩ := Prod.mk.inj hyear
    exact ⟨_, .plus hp, rfl⟩
  · obtain ⟨⟨n, v⟩, hdigits, hyear⟩ := Option.map_eq_some_iff.mp h
    obtain ⟨p, hp, rfl, rfl⟩ := fixedDigits?_eq_some hdigits
    obtain ⟨rfl, rfl⟩ := Prod.mk.inj hyear
    exact ⟨_, .minus hp, rfl⟩
  · obtain ⟨⟨n, v⟩, hdigits, hyear⟩ := Option.map_eq_some_iff.mp h
    obtain ⟨p, hp, rfl, rfl⟩ := fixedDigits?_eq_some hdigits
    obtain ⟨rfl, rfl⟩ := Prod.mk.inj hyear
    exact ⟨_, .unsigned hp, rfl⟩

theorem year?_eq_some {t u : Text} {year : Int} (h : year? t = some (year, u)) :
    (∃ p, IsDigits 4 p ∧ t = p ++ u ∧ year = toNat p) ∨
      ∃ s p, (s = '+' ∨ s = '-') ∧ IsDigits 6 p ∧ t = s :: (p ++ u) := by
  obtain ⟨y, hy, rfl⟩ := exists_isYear h
  cases hy with
  | unsigned hp => exact .inl ⟨_, hp, rfl, rfl⟩
  | plus hp => exact .inr ⟨'+', _, .inl rfl, hp, rfl⟩
  | minus hp => exact .inr ⟨'-', _, .inr rfl, hp, rfl⟩

theorem year?_of_mark {a x y u : Text} {s : Char} {year : Int} (hs : s.isDigit = false)
    (ha : a.length ≤ 4) (hx : x.length ≤ 4)
    (h : year? (a ++ s :: (x ++ s :: y)) = some (year, u)) :
    IsDigits 4 a ∧ u = s :: (x ++ s :: y) ∧ year = toNat a := by
  obtain ⟨p, hp, htext, rfl⟩ | ⟨c, p, hc, hp, htext⟩ := year?_eq_some h
  · obtain ⟨rfl, rfl⟩ := IsDigits.of_append_cons hp ha hs htext.symm
    exact ⟨hp, rfl, rfl⟩
  · exfalso
    cases a with
    | nil =>
      obtain ⟨-, hrest⟩ := List.cons.inj htext
      obtain ⟨rfl, -⟩ := IsDigits.of_append_cons hp (by omega) hs hrest.symm
      have := hp.length_eq
      omega
    | cons d a =>
      obtain ⟨-, hrest⟩ := List.cons.inj htext
      rw [List.length_cons] at ha
      obtain ⟨rfl, -⟩ := IsDigits.of_append_cons hp (by omega) hs hrest.symm
      have := hp.length_eq
      omega

end Iso

namespace Loose

theorem endsWithZone_append {k m t : Text} {c : Char}
    (hc : (c.isAlpha || c == '+' || c == '-') = true) :
    endsWithZone (k ++ ':' :: (m ++ c :: t)) = true := by
  unfold endsWithZone
  rw [dropWhile_append_cons (by rfl), List.any_eq_true]
  exact ⟨c, by simp, hc⟩

theorem statesZone_of_clock {k z t : Text} {c : Char} (hk : StartsWithDigit k)
    (hksep : ∀ d ∈ k, isSeparator d = false) (hz : IsClock z)
    (hc : (c.isAlpha || c == '+' || c == '-') = true) (timed : Bool) :
    statesZone timed (tokens (k ++ ':' :: (z ++ c :: t))) = true := by
  obtain ⟨k', u, rfl, hk', hu⟩ := exists_endsToken t
  have hsep : isSeparator c = false := by
    rw [Bool.or_eq_true, Bool.or_eq_true, beq_iff_eq, beq_iff_eq] at hc
    obtain (hc | rfl) | rfl := hc
    · simp [isSeparator, beq_of_isAlpha hc]
    · rfl
    · rfl
  have htokens : tokens (k ++ ':' :: (z ++ c :: (k' ++ u))) =
      (k ++ ':' :: (z ++ c :: k')) :: tokens u := by
    have hassoc : k ++ ':' :: (z ++ c :: (k' ++ u)) = (k ++ ':' :: (z ++ c :: k')) ++ u := by simp
    rw [hassoc]
    refine tokens_of_startsWithDigit (hk.append _) (fun x hx => ?_) hu
    simp only [List.mem_append, List.mem_cons] at hx
    obtain hx | rfl | hx | rfl | hx := hx
    · exact hksep x hx
    · rfl
    · obtain hx | rfl | rfl := hz x hx
      · exact isSeparator_of_isDigit hx
      · rfl
      · rfl
    · exact hsep
    · exact hk' x hx
  rw [htokens, statesZone, endsWithZone_append hc, Bool.or_true, Bool.true_or]

/-- So does one behind the clock of a date and time, in one token or in two. -/
theorem statesZone_of_mark {k p z t : Text} {mark c : Char} (hk : StartsWithDigit k)
    (hksep : ∀ d ∈ k, isSeparator d = false)
    (hmark : (mark == 'T' || mark == 't' || mark == ' ') = true) (hp : IsDigits 2 p)
    (hz : IsClock z) (hc : (c.isAlpha || c == '+' || c == '-') = true) :
    statesZone false (tokens (k ++ mark :: (p ++ ':' :: (z ++ c :: t)))) = true := by
  have hpsep : ∀ d ∈ p, isSeparator d = false :=
    fun d hd => isSeparator_of_isDigit (hp.isNumber d hd)
  rw [Bool.or_eq_true, beq_iff_eq] at hmark
  obtain hletter | rfl := hmark
  · have hsep : isSeparator mark = false := by
      rw [Bool.or_eq_true, beq_iff_eq, beq_iff_eq] at hletter
      obtain rfl | rfl := hletter <;> rfl
    have := statesZone_of_clock (hk.append (mark :: p)) (t := t) (fun d hd => ?_) hz hc false
    · simpa using this
    · simp only [List.mem_append, List.mem_cons] at hd
      obtain hd | rfl | hd := hd
      · exact hksep d hd
      · exact hsep
      · exact hpsep d hd
  · rw [tokens_of_startsWithDigit hk hksep (.inr ⟨' ', _, rfl, rfl⟩), tokens_cons_separator rfl,
      statesZone, statesZone_of_clock hp.startsWithDigit hpsep hz hc, Bool.or_true]

end Loose

namespace Iso

variable {a x y : Text} {s : Char} {r : WallReading}

theorem read?_of_mark (hs : s.isDigit = false) (ha : a.length ≤ 4) (hx : x.length ≤ 4)
    (h : read? (a ++ s :: (x ++ s :: y)) = some r) : IsDigits 4 a ∧ s = '-' := by
  simp only [read?, Option.bind_eq_bind, Option.bind_eq_some_iff] at h
  obtain ⟨⟨year, u⟩, hyear, h⟩ := h
  obtain ⟨hdigits, rfl, -⟩ := year?_of_mark hs ha hx hyear
  refine ⟨hdigits, ?_⟩
  by_contra hne
  split at h
  · next heq => exact hne (List.cons.inj heq).1
  · simp [dateReading?] at h

/-- A text with a time is read as its date, and without an offset unless it states a zone. -/
theorem read?_eq_some (ha : a.length ≤ 4) (hx : x.length ≤ 2)
    (hcolon : ':' ∈ a ++ '-' :: (x ++ '-' :: y))
    (hzone : Loose.statesZone false (Loose.tokens (a ++ '-' :: (x ++ '-' :: y))) = false)
    (h : read? (a ++ '-' :: (x ++ '-' :: y)) = some r) :
    IsDigits 2 x ∧ r.offset = none ∧ ∃ e v, IsDigits 2 e ∧ y = e ++ v ∧
      r.IsOf ⟨toNat a, toNat x, toNat e⟩ := by
  obtain ⟨hdigits, -⟩ := read?_of_mark (by rfl) ha (by omega) h
  simp only [read?, Option.bind_eq_bind, Option.bind_eq_some_iff] at h
  obtain ⟨⟨year, u⟩, hyear, h⟩ := h
  obtain ⟨-, rfl, rfl⟩ := year?_of_mark (by rfl) ha (by omega) hyear
  dsimp only at h
  simp only [Option.bind_eq_some_iff] at h
  obtain ⟨⟨month, u⟩, hmonth, h⟩ := h
  obtain ⟨p, hp, htext, rfl⟩ := fixedDigits?_eq_some hmonth
  obtain ⟨rfl, rfl⟩ := IsDigits.of_append_cons hp hx (by rfl) htext.symm
  dsimp only at h
  simp only [Option.bind_eq_some_iff] at h
  obtain ⟨⟨day, v⟩, hday, h⟩ := h
  obtain ⟨e, he, rfl, rfl⟩ := fixedDigits?_eq_some hday
  obtain ⟨date, hdate⟩ : ∃ date, date = a ++ '-' :: (p ++ '-' :: e) := ⟨_, rfl⟩
  have htext (t : Text) : a ++ '-' :: (p ++ '-' :: (e ++ t)) = date ++ t := by simp [hdate]
  have hstart : StartsWithDigit date := hdate ▸ hdigits.startsWithDigit.append _
  have hmarks : ∀ d ∈ date, Loose.isSeparator d = false ∧ ':' ≠ d := by
    have hdigit {q : Text} {k : Nat} (hq : IsDigits k q) :
        ∀ d ∈ q, Loose.isSeparator d = false ∧ ':' ≠ d := by
      refine fun d hd => ⟨Loose.isSeparator_of_isDigit (hq.isNumber d hd), ?_⟩
      rintro rfl
      simpa using hq.isNumber _ hd
    intro d hd
    simp only [hdate, List.mem_append, List.mem_cons] at hd
    obtain hd | rfl | hd | rfl | hd := hd
    · exact hdigit hdigits d hd
    · decide
    · exact hdigit hp d hd
    · decide
    · exact hdigit he d hd
  rw [htext] at hcolon hzone
  dsimp only at h
  split at h
  · rw [List.append_nil] at hcolon
    exact absurd rfl (hmarks ':' hcolon).2
  · next mark v =>
    split at h
    · next hmark =>
      simp only [Option.bind_eq_some_iff] at h
      obtain ⟨⟨time, w⟩, htime, offset, hoffset, h⟩ := h
      obtain ⟨hinDay, q, z, hq, hz, rfl⟩ := time?_eq_some htime
      obtain ⟨hof, hr⟩ := WallReading.isOf_of_of? h hinDay
      refine ⟨hp, ?_, e, _, he, rfl, hof⟩
      cases offset with
      | none => exact hr
      | some o =>
        obtain ⟨c, w, rfl, hc⟩ := offset?_eq_some hoffset
        rw [Loose.statesZone_of_mark hstart (fun d hd => (hmarks d hd).1) hmark hq hz hc] at hzone
        cases hzone
    · cases h

end Iso

theorem wallReading?_cases {t : Text} {r : WallReading} (h : wallReading? t = some r) :
    Iso.read? t = some r ∨ Loose.read? t = some r := by
  unfold wallReading? at h
  cases hiso : Iso.read? t with
  | some r' => exact .inl (by simpa [hiso] using h)
  | none => exact .inr (by simpa [hiso] using h)

end Coercion
