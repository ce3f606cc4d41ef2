import Coercion.Proofs.Reading.IsoInversion

namespace Coercion

open Calendar Text

def WallReading.IsMidnight (r : WallReading) (millisecond : Nat) : Prop :=
  ∃ date, WallReading.of? date ⟨0, 0, 0, millisecond⟩ r.offset = some r

theorem WallReading.IsMidnight.exists_wall {r : WallReading} {k : Nat} (h : r.IsMidnight k) :
    ∃ day, r.wall = day * millisPerDay + k := by
  obtain ⟨date, h⟩ := h
  unfold WallReading.of? at h
  split_ifs at h
  obtain ⟨wall, offset⟩ := r
  obtain ⟨rfl, -⟩ := (WallReading.mk.injEq ..).mp (Option.some.inj h)
  exact ⟨carriedDay date.year (date.month - 1) date.day, by simp [carriedMillis]⟩

theorem DayTime.checked?_of_midnight {k : Nat} {half : Option Meridiem} {time : DayTime}
    (h : DayTime.checked? ⟨0, 0, 0, k⟩ half = some time) : time = ⟨0, 0, 0, k⟩ := by
  cases half with
  | none => simpa [checked?] using h.symm
  | some half => simp [checked?] at h

theorem fraction_of_head_ne {t : Text} (h : ∀ c ∈ t.head?, c ≠ '.') : (fraction t).1 = 0 := by
  unfold fraction
  split
  · exact absurd rfl (h '.' rfl)
  · rfl

theorem fraction_append (t : Text) {u : Text} (hu : ∀ c ∈ u.head?, c.isDigit = false ∧ c ≠ '.') :
    (fraction (t ++ u)).1 = (fraction t).1 := by
  cases t with
  | nil => exact fraction_of_head_ne fun c hc => (hu c hc).2
  | cons c t =>
    by_cases hc : c = '.'
    · subst hc
      have hstop : u.takeWhile Char.isDigit = [] := by
        cases u with
        | nil => rfl
        | cons d u => simp [(hu d rfl).1]
      have htake : (t ++ u).takeWhile Char.isDigit = t.takeWhile Char.isDigit := by
        rw [List.takeWhile_append, hstop, List.append_nil]
        split_ifs with hall
        · exact ((t.takeWhile_prefix Char.isDigit).eq_of_length hall).symm
        · rfl
      simp only [List.cons_append, fraction, splitDigits, htake]
    · have hne (v : Text) : ∀ d ∈ (c :: v).head?, d ≠ '.' := by simpa using hc
      rw [List.cons_append, fraction_of_head_ne (hne _), fraction_of_head_ne (hne _)]

namespace Iso

theorem offset_of_dateReading? {date : YearMonthDay} {t : Text} {r : WallReading}
    (h : dateReading? date t = some r) : r.offset = some .utc := by
  unfold dateReading? at h
  split_ifs at h
  exact WallReading.offset_of_of? h

theorem mem_of_year? {t u : Text} {year : Int} (h : year? t = some (year, u)) :
    ∃ k, t = k ++ u ∧ ':' ∉ k := by
  obtain ⟨p, hp, rfl, -⟩ | ⟨s, p, hs, hp, rfl⟩ := year?_eq_some h
  · exact ⟨p, rfl, fun hmem => by cases hp.isNumber _ hmem⟩
  · refine ⟨s :: p, rfl, ?_⟩
    rintro (_ | ⟨_, hmem⟩)
    · obtain hs | hs := hs <;> cases hs
    · cases hp.isNumber _ hmem

/-- The ISO reader takes a text in UTC, or it reads a time from some position on. -/
theorem read?_inversion {t : Text} {r : WallReading} (h : read? t = some r) :
    r.offset = some .utc ∨ ∃ k u date time w offset, t = k ++ u ∧ ':' ∉ k ∧
      time? u = some (time, w) ∧ WallReading.of? date time offset = some r := by
  simp only [read?, Option.bind_eq_bind, Option.bind_eq_some_iff] at h
  obtain ⟨⟨year, u⟩, hyear, h⟩ := h
  obtain ⟨k, rfl, hk⟩ := mem_of_year? hyear
  dsimp only at h
  split at h
  · simp only [Option.bind_eq_some_iff] at h
    obtain ⟨⟨month, u⟩, hmonth, h⟩ := h
    obtain ⟨p, hp, rfl, -⟩ := fixedDigits?_eq_some hmonth
    dsimp only at h
    split at h
    · simp only [Option.bind_eq_some_iff] at h
      obtain ⟨⟨day, u⟩, hday, h⟩ := h
      obtain ⟨e, he, rfl, -⟩ := fixedDigits?_eq_some hday
      dsimp only at h
      split at h
      · exact .inl (offset_of_dateReading? h)
      · next mark u =>
        split_ifs at h with hmark
        simp only [Option.bind_eq_some_iff] at h
        obtain ⟨⟨time, w⟩, htime, offset, -, h⟩ := h
        refine .inr ⟨k ++ '-' :: (p ++ '-' :: (e ++ [mark])), u, _, time, w, offset, by simp, ?_,
          htime, h⟩
        have hcolon : ':' ≠ mark := by
          rintro rfl
          cases hmark
        have hp' := not_mem_of_isNumber hp.isNumber (c := ':') rfl
        have he' := not_mem_of_isNumber he.isNumber (c := ':') rfl
        simp [hk, hp', he', hcolon]
    · exact .inl (offset_of_dateReading? h)
  · exact .inl (offset_of_dateReading? h)

theorem offset_of_not_mem {t : Text} {r : WallReading} (h : read? t = some r) (hcolon : ':' ∉ t) :
    r.offset = some .utc := by
  obtain hutc | ⟨k, u, date, time, w, offset, rfl, -, htime, -⟩ := read?_inversion h
  · exact hutc
  · obtain ⟨-, p, z, -, -, rfl⟩ := time?_eq_some htime
    simp at hcolon

theorem time?_midnight (t : Text) :
    time? ("00:00:00".toList ++ t) = some (⟨0, 0, 0, (fraction t).1⟩, (fraction t).2) := rfl

/-- The ISO reader finds the midnight that stands before the first colon of a text. -/
theorem isMidnight_of_midnight {a b : Text} {r : WallReading} (ha : ':' ∉ a)
    (h : read? (a ++ ("00:00:00".toList ++ b)) = some r) (hlocal : r.offset = none) :
    r.IsMidnight (fraction b).1 := by
  obtain hutc | ⟨k, u, date, time, w, offset, htext, hk, htime, hr⟩ := read?_inversion h
  · simp [hlocal] at hutc
  obtain ⟨-, p, z, hp, -, rfl⟩ := time?_eq_some htime
  have hnot {x d : Text} (hx : ':' ∉ x) (hd : IsNumber d) : ∀ c ∈ x ++ d, (c == ':') = false := by
    intro c hc
    rw [beq_eq_false_iff_ne]
    rintro rfl
    exact (List.mem_append.mp hc).elim hx (not_mem_of_isNumber hd rfl)
  have htext' : a ++ ['0', '0'] ++ ':' :: ("00:00".toList ++ b) = k ++ p ++ ':' :: (z ++ w) := by
    rw [List.append_assoc, List.append_assoc]
    exact htext
  obtain ⟨hfirst, -, hrest⟩ := append_cons_inj (hnot ha (by simp [IsNumber])) (hnot hk hp.isNumber)
    (by simp) (by simp) htext'
  obtain ⟨rfl, rfl⟩ := List.append_inj' hfirst (by rw [hp.length_eq]; rfl)
  rw [← hrest] at htime
  obtain ⟨rfl, -⟩ := Prod.mk.inj (Option.some.inj ((time?_midnight b).symm.trans htime))
  exact ⟨date, by rwa [WallReading.offset_of_of? hr]⟩

end Iso

namespace Loose

theorem time?_midnight (t : Text) : time? ("00:00:00".toList ++ t) =
    if (fraction t).2.isEmpty then some ⟨0, 0, 0, (fraction t).1⟩ else none := rfl

theorem mem_of_mem_tokens {k t : Text} {c : Char} (hk : k ∈ tokens t) (hc : c ∈ k) : c ∈ t :=
  mem_of_mem_split (List.mem_of_mem_filter ((List.takeWhile_sublist _).mem hk)) hc

theorem contains_of_mem_tokens {t : Text} (h : ':' ∉ t) :
    ∀ k ∈ tokens t, k.contains ':' = false := by
  intro k hk
  have hcolon : ':' ∉ k := fun hmem => h (mem_of_mem_tokens hk hmem)
  simpa using hcolon

theorem tokens_append_cons {c : Char} (hc : isSeparator c = true) (a t : Text) :
    tokens (a ++ c :: t) = tokens a ++ tokens t ∨ tokens (a ++ c :: t) = tokens a ∧ '(' ∈ a := by
  change ((split isSeparator (a ++ c :: t)).filter _).takeWhile _ = _ ∨
    ((split isSeparator (a ++ c :: t)).filter _).takeWhile _ = _ ∧ _
  rw [split_append a t hc, List.filter_append, List.takeWhile_append]
  split_ifs with hall
  · left
    rw [← (List.takeWhile_prefix _).eq_of_length hall]
    rfl
  · refine .inr ⟨rfl, ?_⟩
    by_contra hparen
    refine hall (congrArg List.length (List.takeWhile_eq_self_iff.mpr fun k hk => ?_))
    rw [bne_iff_ne]
    intro hhead
    exact hparen (mem_of_mem_split (List.mem_of_mem_filter hk) (List.mem_of_mem_head? hhead))

theorem isMidnight_of_not_mem {t : Text} {r : WallReading} (h : read? t = some r)
    (hcolon : ':' ∉ t) : r.IsMidnight 0 := by
  obtain ⟨f, date, time, hfold, -, htime, hr⟩ := exists_fields h
  have hnone : f.time = none := Fields.time_of_foldlM hfold (contains_of_mem_tokens hcolon)
  simp only [Fields.time?, hnone] at htime
  split_ifs at htime
  obtain rfl := Option.some.inj htime
  exact ⟨date, by rwa [WallReading.offset_of_of? hr]⟩

namespace Fields

theorem time_of_add? {f g : Fields} {t : Text} (ht : StartsWithDigit t)
    (hcolon : t.contains ':' = true) (h : f.add? t = some g) :
    ∃ time, Loose.time? t = some time ∧ g.time = some time := by
  rw [add?_of_startsWithDigit ht, if_pos hcolon] at h
  split_ifs at h
  obtain ⟨time, htime, rfl⟩ := Option.map_eq_some_iff.mp h
  exact ⟨time, htime, rfl⟩

theorem time_of_midnight {f g : Fields} {b : Text} (hb : ':' ∉ b)
    (h : (tokens ("00:00:00".toList ++ b)).foldlM add? f = some g) :
    g.time = some ⟨0, 0, 0, (fraction b).1⟩ := by
  obtain ⟨k, u, rfl, hk, hu⟩ := exists_endsToken b
  have hdigit : StartsWithDigit ("00:00:00".toList ++ k) := ⟨'0', "0:00:00".toList ++ k, rfl, rfl⟩
  have hclock : ∀ c ∈ "00:00:00".toList, isSeparator c = false := by simp [isSeparator]
  have hsep : ∀ c ∈ "00:00:00".toList ++ k, isSeparator c = false :=
    fun c hc => (List.mem_append.mp hc).elim (hclock c) (hk c)
  have hstop : ∀ c ∈ u.head?, c.isDigit = false ∧ c ≠ '.' := by
    obtain rfl | ⟨c, v, rfl, hc⟩ := hu
    · simp
    · rintro d ⟨⟩
      refine ⟨Bool.eq_false_iff.mpr fun hdigit => ?_, ?_⟩
      · simp [isSeparator_of_isDigit hdigit] at hc
      · rintro rfl
        cases hc
  rw [← List.append_assoc, tokens_of_startsWithDigit hdigit hsep hu, List.foldlM_cons,
    Option.bind_eq_bind, Option.bind_eq_some_iff] at h
  obtain ⟨e, he, hfold⟩ := h
  have hrest : ':' ∉ u := fun hmem => hb (List.mem_append_right k hmem)
  obtain ⟨time, htime, hgiven⟩ := time_of_add? hdigit (by simp) he
  rw [time?_midnight] at htime
  split_ifs at htime
  obtain rfl := Option.some.inj htime
  rw [Fields.time_of_foldlM hfold (contains_of_mem_tokens hrest), hgiven, fraction_append k hstop]

end Fields

/-- The loose reader finds the midnight in a text that has no other time, unless that is in a
comment. -/
theorem isMidnight_of_midnight {a b : Text} {r : WallReading} (ha : ':' ∉ a) (hb : ':' ∉ b)
    (hend : a = [] ∨ ∃ k, a = k ++ [' '])
    (h : read? (a ++ ("00:00:00".toList ++ b)) = some r) :
    r.IsMidnight (fraction b).1 ∨ r.IsMidnight 0 ∧ '(' ∈ a := by
  obtain ⟨f, date, time, hfold, -, htime, hr⟩ := exists_fields h
  have hgiven : f.time = some ⟨0, 0, 0, (fraction b).1⟩ ∨ f.time = none ∧ '(' ∈ a := by
    obtain rfl | ⟨k, rfl⟩ := hend
    · exact .inl (Fields.time_of_midnight hb hfold)
    · rw [List.append_assoc, List.singleton_append] at hfold
      have hk : ∀ t ∈ tokens k, t.contains ':' = false :=
        contains_of_mem_tokens fun hmem => ha (List.mem_append_left _ hmem)
      obtain htokens | ⟨htokens, hparen⟩ :=
        tokens_append_cons (c := ' ') rfl k ("00:00:00".toList ++ b)
      · rw [htokens, List.foldlM_append, Option.bind_eq_bind, Option.bind_eq_some_iff] at hfold
        obtain ⟨e, -, hfold⟩ := hfold
        exact .inl (Fields.time_of_midnight hb hfold)
      · rw [htokens] at hfold
        exact .inr ⟨Fields.time_of_foldlM hfold hk, List.mem_append_left _ hparen⟩
  have hof (t : DayTime) (ht : t = time) : WallReading.of? date t r.offset = some r := by
    rw [ht, WallReading.offset_of_of? hr, hr]
  obtain hgiven | ⟨hgiven, hparen⟩ := hgiven
  · rw [Fields.time?, hgiven] at htime
    exact .inl ⟨date, hof _ (DayTime.checked?_of_midnight htime).symm⟩
  · simp only [Fields.time?, hgiven] at htime
    split_ifs at htime
    exact .inr ⟨⟨date, hof _ (Option.some.inj htime)⟩, hparen⟩

end Loose

section

variable {r : WallReading} (hlocal : r.offset = none)

include hlocal

theorem isMidnight_of_not_mem {t : Text} (hcolon : ':' ∉ t) (h : wallReading? t = some r) :
    r.IsMidnight 0 := by
  obtain hiso | hloose := wallReading?_cases h
  · have hutc := Iso.offset_of_not_mem hiso hcolon
    simp [hlocal] at hutc
  · exact Loose.isMidnight_of_not_mem hloose hcolon

/-- A text with midnight in it is read at that midnight and what follows of a second. -/
theorem isMidnight_of_midnight {a b : Text} (ha : ':' ∉ a) (hb : ':' ∉ b)
    (h : wallReading? (trim (a ++ (" 00:00:00".toList ++ b))) = some r) :
    r.IsMidnight (fraction b).1 ∨ r.IsMidnight 0 ∧ '(' ∈ a := by
  have hends : ∀ c ∈ some '0', isBlank c = false := by
    rintro c ⟨⟩
    rfl
  obtain ⟨b', e, rfl, he, htrim⟩ := exists_trim_append (a ++ [' ']) b (m := "00:00:00".toList)
    (by decide) hends hends
  have hshape : a ++ (" 00:00:00".toList ++ (b' ++ e)) =
      a ++ [' '] ++ ("00:00:00".toList ++ (b' ++ e)) := by simp
  rw [hshape, htrim] at h
  have hstop : ∀ c ∈ e.head?, c.isDigit = false ∧ c ≠ '.' := by
    intro c hc
    have hblank := he c (List.mem_of_mem_head? hc)
    refine ⟨isDigit_of_isBlank hblank, ?_⟩
    rintro rfl
    cases hblank
  rw [fraction_append b' hstop]
  have hdrop {c : Char} (hc : c ∈ (a ++ [' ']).dropWhile isBlank) : c ∈ a ∨ c = ' ' := by
    simpa using (List.dropWhile_suffix isBlank).mem hc
  have ha' : ':' ∉ (a ++ [' ']).dropWhile isBlank := fun hmem =>
    (hdrop hmem).elim ha (by decide)
  have hb' : ':' ∉ b' := fun hmem => hb (List.mem_append_left e hmem)
  have hend : (a ++ [' ']).dropWhile isBlank = [] ∨
      ∃ k, (a ++ [' ']).dropWhile isBlank = k ++ [' '] :=
    (List.suffix_concat_iff.mp (List.dropWhile_suffix isBlank)).imp id fun ⟨k, hk, _⟩ => ⟨k, hk⟩
  obtain hiso | hloose := wallReading?_cases h
  · exact .inl (Iso.isMidnight_of_midnight ha' hiso hlocal)
  · obtain hmid | ⟨hmid, hparen⟩ := Loose.isMidnight_of_midnight ha' hb' hend hloose
    · exact .inl hmid
    · exact .inr ⟨hmid, (hdrop hparen).resolve_right (by decide)⟩

end

end Coercion
