import Coercion.Proofs.Reading.MidnightRules
import Coercion.Proofs.Reading.ReadRanges

namespace Coercion

open Text

theorem Text.eq_nil_of_byteLength {t : Text} (h : byteLength t = 0) : t = [] :=
  List.length_eq_zero_iff.mp (Nat.le_zero.mp (h ▸ length_le_byteLength t))

theorem Text.IsNumber.byteLength_eq {t : Text} (h : IsNumber t) : byteLength t = t.length :=
  h.isWord.isAscii.byteLength_eq

theorem Text.IsNumber.isDigits {n : Nat} {t : Text} (h : IsNumber t) (hn : byteLength t = n) :
    IsDigits n t :=
  ⟨h, h.byteLength_eq.symm.trans hn⟩

theorem solid_of_mem_trim {t : Text} (h : (numberOf t).isNaN = false) {c : Char}
    (hc : c ∈ trim t) : isBlank c = false ∧ (c.isDigit = true ∨ c ∈ "+-.eEInfinity".toList) := by
  obtain hnil | hword | ⟨l, hread⟩ := cases_of_numberOf h
  · simp [hnil] at hc
  · have hmarks : ∀ c ∈ "+-Infinity".toList,
        isBlank c = false ∧ (c.isDigit = true ∨ c ∈ "+-.eEInfinity".toList) := by
      simp [isBlank]
    refine hmarks c ?_
    obtain ⟨ht, -⟩ | ⟨d, hd, ht⟩ := splitSign_cases (trim t)
    · rw [ht, hword] at hc
      exact List.mem_append_right ['+', '-'] hc
    · rw [ht, hword, List.mem_cons] at hc
      obtain rfl | hc := hc
      · obtain rfl | rfl := hd <;> decide
      · exact List.mem_append_right ['+', '-'] hc
  · have hmarks : ∀ c ∈ ['+', '-', '.', 'e', 'E'], c ∈ "+-.eEInfinity".toList := by
      simp
    obtain ⟨w, hw, -⟩ := Literal.exists_text_of_read? hread
    rw [hw] at hc
    exact ⟨w.isBlank_of_mem_text hc, (w.mem_text hc).imp id (hmarks c)⟩

theorem solid_of_mem {t : Text} (h : (numberOf t).isNaN = false) {c : Char} (hc : c ∈ t)
    (hblank : isBlank c = false) : c.isDigit = true ∨ c ∈ "+-.eEInfinity".toList :=
  (solid_of_mem_trim h (mem_trim hblank hc)).2

theorem isBlank_behind_blank {a u : Text} {b : Char} (h : (numberOf (a ++ b :: u)).isNaN = false)
    (hne : a ≠ []) (hhead : ∀ c ∈ a.head?, isBlank c = false) (hb : isBlank b = true) :
    ∀ c ∈ u, isBlank c = true := by
  intro c hc
  by_contra hsolid
  rw [Bool.not_eq_true] at hsolid
  obtain ⟨u₁, u₂, rfl⟩ := List.append_of_mem hc
  obtain ⟨y, -, -, -, htrim⟩ := exists_trim_append [] u₂ (m := a ++ b :: (u₁ ++ [c])) (by simp)
    (by
      obtain ⟨d, a, rfl⟩ := List.exists_cons_of_ne_nil hne
      simpa using hhead)
    (by
      have hlast : (a ++ b :: (u₁ ++ [c])).getLast? = some c := by
        rw [← List.cons_append, ← List.append_assoc, List.getLast?_concat]
      simpa [hlast] using hsolid)
  rw [List.dropWhile_nil, List.nil_append, List.nil_append] at htrim
  have htext : a ++ b :: (u₁ ++ [c]) ++ u₂ = a ++ b :: (u₁ ++ c :: u₂) := by simp
  rw [htext] at htrim
  have hmem : b ∈ trim (a ++ b :: (u₁ ++ c :: u₂)) := by
    rw [htrim]
    simp
  simp [(solid_of_mem_trim h hmem).1] at hb

/-- The end of a number where the readers have found digits `e` at the end of a token: more digits,
perhaps with blanks behind them, the first of which is a separator. -/
theorem exists_blank_end {q x z w e tail : Text} (hq : IsNumber q) (hne : q ≠ [])
    (hx : IsNumber x) (he : IsNumber e) (hnan : (numberOf (q ++ z)).isNaN = false)
    (htail : Loose.EndsToken tail) (h : x ++ (z ++ w) = e ++ tail) :
    ∃ d b, z = d ++ b ∧ IsNumber d ∧ (b = [] ∨ e = x ++ d ∧
      ∃ c u, b = c :: u ∧ (c = ' ' ∨ c = '\t') ∧ ∀ y ∈ u, isBlank y = true) := by
  have hdigit {c : Char} (hc : c.isDigit = true) (u : Text) : ¬ Loose.EndsToken (c :: u) := by
    rintro (hnil | ⟨d, v, hcons, hd⟩)
    · cases hnil
    · obtain ⟨rfl, -⟩ := List.cons.inj hcons
      simp [Loose.isSeparator_of_isDigit hc] at hd
  obtain ⟨d, hed, hrest⟩ : ∃ d, e = x ++ d ∧ z ++ w = d ++ tail := by
    obtain ⟨d, rfl, hd⟩ | ⟨y, hy, rfl⟩ := List.append_eq_append_iff.mp h
    · exact ⟨d, rfl, hd⟩
    · cases y with
      | nil => exact ⟨[], by simpa using hy.symm, rfl⟩
      | cons c y => exact absurd htail (hdigit (hx c (by simp [hy])) _)
  have hd : IsNumber d := fun c hc => he c (by simp [hed, hc])
  obtain ⟨v, rfl, -⟩ | ⟨b, rfl, htext⟩ := List.append_eq_append_iff.mp hrest
  · exact ⟨z, [], by simp, fun c hc => hd c (by simp [hc]), .inl rfl⟩
  · refine ⟨d, b, rfl, hd, ?_⟩
    cases b with
    | nil => exact .inl rfl
    | cons y u =>
      obtain rfl | ⟨c, v, rfl, hsep⟩ := htail
      · cases htext
      · obtain ⟨rfl, -⟩ := List.cons.inj htext
        have hcomma : c ≠ ',' := by
          rintro rfl
          have hmem := solid_of_mem hnan (c := ',') (by simp) (by rfl)
          revert hmem
          decide
        have hc : c = ' ' ∨ c = '\t' := by
          simp only [Loose.isSeparator, Bool.or_eq_true, beq_iff_eq] at hsep
          obtain (hc | hc) | hc := hsep
          · exact .inl hc
          · exact absurd hc hcomma
          · exact .inr hc
        have hblank : isBlank c = true := by
          obtain rfl | rfl := hc <;> rfl
        refine .inr ⟨hed, c, u, rfl, hc, ?_⟩
        rw [← List.append_assoc] at hnan
        refine isBlank_behind_blank hnan (by simp [hne]) (fun y hy => ?_) hblank
        have hdigits : IsNumber (q ++ d) := isNumber_append.mpr ⟨hq, hd⟩
        exact isBlank_of_isDigit (hdigits y (List.mem_of_mem_head? hy))

theorem Text.exists_cut {i j : Nat} {t : Text} (hlen : j ≤ byteLength t) (h : slice i j t ≠ []) :
    ∃ a u, t = a ++ (slice i j t ++ u) ∧ byteLength a = i ∧ byteLength (slice i j t) = j - i ∧
      slice 0 i t = a ∧ i + (j - i) = j ∧ sliceFrom j t = u := by
  obtain ⟨a, u, ht, ha, hx⟩ := eq_append_of_slice_ne_nil h
  have hpos := length_le_byteLength (slice i j t)
  have hne := List.length_pos_iff.mpr h
  generalize slice i j t = x at *
  have hx' : byteLength x = j - i := by
    obtain hx | ⟨rfl, hx⟩ := hx
    · exact hx
    · rw [ht, List.append_nil, byteLength_append] at hlen
      omega
  have hj : i + (j - i) = j := by omega
  have hax : byteLength (a ++ x) = j := by rw [byteLength_append, ha, hx', hj]
  have hcut := slice_append_left (x ++ u) ha
  have hrest := sliceFrom_append u hax 0
  rw [Nat.add_zero, sliceFrom_zero] at hrest
  rw [← List.append_assoc] at hcut
  rw [ht]
  exact ⟨a, u, List.append_assoc .., ha, hx', hcut, hj, hrest⟩

theorem Double.isNaN_of_isFinite {x : Double} (h : x.isFinite = true) : x.isNaN = false := by
  obtain ⟨negative, rank, rfl⟩ := exists_finite_of_isFinite h
  rfl

namespace ShapeRule

theorem exists_numeric_head {p : Char → Bool} {t a : Text} {k : Nat}
    (hsplit : (split p t).head? = some a) (h : isNumberOfBytes k a = true) :
    ∃ u, t = a ++ u ∧ byteLength a = k ∧ (numberOf a).isNaN = false ∧ (∀ c ∈ a, p c = false) ∧
      ∀ c ∈ u.head?, p c = true := by
  rw [isNumberOfBytes, Bool.and_eq_true, beq_iff_eq] at h
  obtain ⟨parts, hparts⟩ := List.head?_eq_some_iff.mp hsplit
  obtain ⟨ha, -⟩ := split_inversion hparts
  obtain ⟨u, htext, hu⟩ := exists_append_of_head_split hsplit
  exact ⟨u, htext, h.1, Double.isNaN_of_isFinite h.2, ha, hu⟩

theorem head?_split_of_firstToken (t : Text) :
    (split (· == ' ') (Shape.ofText t).text).head? = some (Shape.ofText t).firstToken := by
  obtain ⟨a, parts, hparts⟩ :=
    List.exists_cons_of_ne_nil (split_ne_nil (p := (· == ' ')) (t := (Shape.ofText t).text))
  have htokens : (Shape.ofText t).tokens = split (· == ' ') (Shape.ofText t).text := rfl
  rw [Shape.firstToken, htokens, hparts]
  rfl

end ShapeRule

theorem isBlank_getLast_trim (t : Text) : ∀ c ∈ (trim t).getLast?, isBlank c = false := by
  intro c hc
  rw [trim, List.getLast?_reverse] at hc
  have hnot := List.head?_dropWhile_not isBlank (t.dropWhile isBlank).reverse
  rw [Option.mem_def.mp hc] at hnot
  simpa using hnot

theorem mem_getLast?_sliceFrom {n : Nat} {t : Text} {c : Char}
    (h : c ∈ (sliceFrom n t).getLast?) : c ∈ t.getLast? := by
  unfold sliceFrom at h
  cases hu : dropBytes? n t with
  | none => simp [hu] at h
  | some u =>
    obtain ⟨a, rfl, -⟩ := eq_append_of_dropBytes? hu
    rw [hu, Option.getD_some] at h
    rw [List.getLast?_append, Option.mem_def.mp h]
    rfl

theorem mem_head?_of_slice {j : Nat} {t : Text} {c : Char} (h : c ∈ (slice 0 j t).head?) :
    c ∈ t.head? := by
  have hne : slice 0 j t ≠ [] := List.ne_nil_of_mem (List.mem_of_mem_head? h)
  obtain ⟨p, u, htext, hp, -⟩ := eq_append_of_slice_ne_nil hne
  obtain rfl := eq_nil_of_byteLength hp
  rw [htext, List.nil_append, List.head?_append, Option.mem_def.mp h]
  rfl

theorem dropWhile_of_head {a : Text} (h : ∀ c ∈ a.head?, isBlank c = false) :
    a.dropWhile isBlank = a := by
  cases a with
  | nil => rfl
  | cons c a => simp [h c rfl]

theorem Iso.exists_day {a x y : Text} {r : WallReading} (ha : a.length ≤ 4) (hx : x.length ≤ 2)
    (h : read? (a ++ '-' :: (x ++ '-' :: y)) = some r) :
    IsDigits 2 x ∧ ∃ e v, IsDigits 2 e ∧ y = e ++ v := by
  simp only [read?, Option.bind_eq_bind, Option.bind_eq_some_iff] at h
  obtain ⟨⟨year, u⟩, hyear, h⟩ := h
  obtain ⟨-, rfl, -⟩ := year?_of_mark (by rfl) ha (by omega) hyear
  dsimp only at h
  simp only [Option.bind_eq_some_iff] at h
  obtain ⟨⟨month, u⟩, hmonth, h⟩ := h
  obtain ⟨p, hp, htext, -⟩ := fixedDigits?_eq_some hmonth
  obtain ⟨rfl, rfl⟩ := IsDigits.of_append_cons hp hx (by rfl) htext.symm
  dsimp only at h
  simp only [Option.bind_eq_some_iff] at h
  obtain ⟨⟨day, v⟩, hday, -⟩ := h
  obtain ⟨e, he, rfl, -⟩ := fixedDigits?_eq_some hday
  exact ⟨hp, e, v, he, rfl⟩

/-- What a reader has found of a date that is put between marks: digits in front of each mark, and
behind them either digits that end a token or two digits. -/
theorem Restated.isNumber_of_marks {a x y : Text} {s : Char} {r : WallReading}
    (hs : s = '/' ∨ s = '-') (ha : byteLength a ≤ 4) (hx : byteLength x ≤ 2)
    (hhead : ∀ c ∈ a.head?, isBlank c = false) (hnan : (numberOf a).isNaN = false)
    (h : wallReading? (a ++ s :: (x ++ s :: y)) = some r) :
    IsNumber a ∧ x ≠ [] ∧ IsNumber x ∧ ∃ e tail, e ≠ [] ∧ IsNumber e ∧ y = e ++ tail ∧
      (Loose.EndsToken tail ∧ Loose.read? (a ++ s :: (x ++ s :: y)) = some r ∨
        s = '-' ∧ e.length = 2) := by
  have hself := dropWhile_of_head hhead
  have hs' : s.isDigit = false ∧ (s = '/' ∨ s = '-' ∨ s = '.') := by
    obtain rfl | rfl := hs <;> decide
  have halen := (length_le_byteLength a).trans ha
  have hxlen := (length_le_byteLength x).trans hx
  obtain hiso | hread := wallReading?_cases h
  · obtain ⟨hdigits, rfl⟩ := Iso.read?_of_mark hs'.1 halen (by omega) hiso
    obtain ⟨hx', e, v, he, rfl⟩ := Iso.exists_day halen hxlen hiso
    exact ⟨hdigits.isNumber, hx'.ne_nil, hx'.isNumber, e, v, he.ne_nil, he.isNumber, rfl,
      .inr ⟨rfl, he.length_eq⟩⟩
  · have hread' := hread
    rw [← hself] at hread'
    obtain ⟨e, tail, date, hnum, -, rfl, htail, hparts, -⟩ :=
      Loose.read?_of_part hs'.2 hnan halen (.inl hxlen) hread'
    rw [hself] at hnum hparts
    obtain ⟨-, -, hne, he⟩ := hparts.isNumber
    refine ⟨hnum, hparts.ne_nil, ?_, e, tail, hne, he, rfl, .inl ⟨htail, hread⟩⟩
    cases hparts with
    | named hname => simp [Loose.month?_of_short hxlen] at hname
    | yearFirst _ _ _ hmonth => exact (Loose.number?_eq_some hmonth).2.1
    | monthFirst _ _ _ _ hday => exact (Loose.number?_eq_some hday).2.1

/-- Two digits each of a month, a day and a year, or tabs in place of the last digits of the
year. -/
def IsPackedMonthDayYear (token : Text) : Prop :=
  ∃ digits tabs, token = digits ++ tabs ∧ IsNumber digits ∧ (∀ c ∈ tabs, c = '\t') ∧
    digits.length + tabs.length = 6 ∧ tabs.length ≤ 2

theorem eq_tab_of_read {month day u : Text} {y : Char} {r : WallReading} (hmonth : IsDigits 2 month)
    (hday : IsDigits 2 day) (hblank : isBlank y = true) (hspace : y ≠ ' ')
    (h : Loose.read? (month ++ '/' :: (day ++ '/' :: ("20".toList ++ '\t' :: y :: u))) = some r) :
    y = '\t' := by
  by_contra htab
  have hne : y ≠ ',' ∧ y ≠ '(' := by
    constructor <;>
    · rintro rfl
      cases hblank
  have hsep : Loose.isSeparator y = false := by
    simp [Loose.isSeparator, hspace, hne.1, htab]
  obtain ⟨k, hk⟩ : ∃ k, k = month ++ '/' :: (day ++ '/' :: "20".toList) := ⟨_, rfl⟩
  have hmarks : ∀ d ∈ k, d.isDigit = true ∨ d = '/' := by
    have htwenty : ∀ d ∈ "20".toList, d.isDigit = true := by simp
    intro d hd
    simp only [hk, List.mem_append, List.mem_cons] at hd
    obtain hd | rfl | hd | rfl | hd := hd
    · exact .inl (hmonth.isNumber d hd)
    · exact .inr rfl
    · exact .inl (hday.isNumber d hd)
    · exact .inr rfl
    · exact .inl (htwenty d hd)
  have hstart : StartsWithDigit k := hk ▸ hmonth.startsWithDigit.append _
  have hnone := Loose.read?_of_second_mark (a := ['\t']) hstart
    (fun d hd => (hmarks d hd).elim Loose.isSeparator_of_isDigit fun h => h ▸ rfl)
    (by simpa using fun hd => by simpa using hmarks _ hd) (by simp)
    (by simp [Loose.isSeparator]) (Loose.isAlphanum_of_isBlank hblank) hsep hne.2 u
  have htext : k ++ (['\t'] ++ y :: u) =
      month ++ '/' :: (day ++ '/' :: ("20".toList ++ '\t' :: y :: u)) := by
    simp [hk]
  rw [htext, h] at hnone
  cases hnone

theorem isPackedMonthDayYear_of_slashes {month day z u e tail : Text} {r : WallReading}
    (hmonth : IsDigits 2 month) (hday : IsDigits 2 day) (hz : byteLength z = 2) (hspace : ' ' ∉ z)
    (hnan : (numberOf (month ++ day ++ z)).isNaN = false) (he : IsNumber e)
    (htail : Loose.EndsToken tail) (hrest : "20".toList ++ (z ++ u) = e ++ tail)
    (h : Loose.read? (month ++ '/' :: (day ++ '/' :: ("20".toList ++ (z ++ u)))) = some r) :
    IsPackedMonthDayYear (month ++ day ++ z) := by
  obtain ⟨hdigits, hfour⟩ : IsDigits 4 (month ++ day) := hmonth.append hday
  have hne : month ++ day ≠ [] := by
    simpa using fun hnil => absurd hnil hmonth.ne_nil
  obtain ⟨d, b, rfl, hd, hb⟩ :=
    exists_blank_end hdigits hne (by simp [IsNumber]) he hnan htail hrest
  have hall : IsNumber (month ++ day ++ d) := isNumber_append.mpr ⟨hdigits, hd⟩
  rw [byteLength_append, hd.byteLength_eq] at hz
  obtain rfl | ⟨-, c, w, rfl, hc, hw⟩ := hb
  · refine ⟨month ++ day ++ d, [], by simp, hall, by simp, ?_, by simp⟩
    rw [List.length_append, hfour, List.length_nil]
    simp only [byteLength] at hz
    omega
  · obtain rfl : c = '\t' := hc.resolve_left fun hsp => hspace (by simp [hsp])
    have htab : '\t'.utf8Size = 1 := by decide
    rw [byteLength, htab] at hz
    have hblanks : w = [] ∧ d.length = 1 ∨ w = ['\t'] ∧ d.length = 0 := by
      cases w with
      | nil =>
        simp only [byteLength] at hz
        exact .inl ⟨rfl, by omega⟩
      | cons y w =>
        have hpos := y.utf8Size_pos
        simp only [byteLength] at hz
        obtain rfl : w = [] := eq_nil_of_byteLength (by omega)
        obtain rfl : d = [] := List.length_eq_zero_iff.mp (by omega)
        have hy : y = '\t' := by
          refine eq_tab_of_read hmonth hday (hw y (by simp)) ?_ h
          rintro rfl
          simp at hspace
        exact .inr ⟨by rw [hy], rfl⟩
    refine ⟨month ++ day ++ d, '\t' :: w, by simp, hall, ?_, ?_, ?_⟩
    · obtain ⟨rfl, -⟩ | ⟨rfl, -⟩ := hblanks <;> simp
    · rw [List.length_append, hfour]
      obtain ⟨rfl, hlen⟩ | ⟨rfl, hlen⟩ := hblanks <;> rw [hlen] <;> rfl
    · obtain ⟨rfl, -⟩ | ⟨rfl, -⟩ := hblanks <;> simp

theorem ShapeRule.isPackedMonthDayYear_of_read {c : Context} {t : Text} {v : Temporal}
    (hrule : packedMonthDayYear.recognizes (.ofText t) = true)
    (h : (restatePackedMonthDayYear (.ofText t)).read c = .ok v) :
    IsPackedMonthDayYear (Shape.ofText t).firstToken := by
  obtain ⟨hcheck, reading, hreading, -⟩ := Restated.exists_reading h
  obtain ⟨-, hnan', -⟩ := Restated.isNaN_of_check hcheck
  obtain ⟨u, htext, hlen, hnan, hspace, -⟩ :=
    exists_numeric_head (head?_split_of_firstToken t) hrule
  have hhead : ∀ d ∈ (slice 0 2 (Shape.ofText t).text).head?, isBlank d = false :=
    fun d hd => isBlank_head_trim t d (mem_head?_of_slice hd)
  have hlast := isBlank_getLast_trim t
  change ∀ d ∈ (Shape.ofText t).text.getLast?, isBlank d = false at hlast
  have hr : (restatePackedMonthDayYear (.ofText t)).text = slice 0 2 (Shape.ofText t).text ++
      '/' :: (slice 2 4 (Shape.ofText t).text ++
        '/' :: ("20".toList ++ sliceFrom 4 (Shape.ofText t).text)) := by
    simp [restatePackedMonthDayYear, Shape.slice, Shape.sliceFrom]
  change (numberOf (slice 0 2 (Shape.ofText t).text)).isNaN = false at hnan'
  generalize (Shape.ofText t).firstToken = p at *
  generalize (restatePackedMonthDayYear (.ofText t)).text = text at *
  generalize (Shape.ofText t).text = full at *
  have htrim : trim text = text := by
    rw [hr]
    refine trim_of_ends ?_ ?_
    · cases hmonth : slice 0 2 full with
      | nil => simp +decide
      | cons d month => simpa [hmonth] using hhead
    · intro d hd
      have hsplit : slice 0 2 full ++ '/' :: (slice 2 4 full ++ '/' :: ("20".toList ++
          sliceFrom 4 full)) = slice 0 2 full ++ '/' :: (slice 2 4 full ++ ['/', '2']) ++ ['0'] ++
            sliceFrom 4 full := by simp
      rw [hsplit, List.getLast?_append, List.getLast?_concat, Option.mem_def,
        Option.or_eq_some_iff] at hd
      obtain hd | ⟨-, hd⟩ := hd
      · exact hlast d (mem_getLast?_sliceFrom hd)
      · obtain rfl := Option.some.inj hd
        rfl
  rw [htrim, hr] at hreading
  obtain ⟨hmonth, hne, hday, e, tail, -, he, hrest, hend⟩ :=
    Restated.isNumber_of_marks (.inl rfl) ((byteLength_slice_le 0 2 _).trans (by decide))
      (byteLength_slice_le 2 4 _) hhead hnan' hreading
  obtain ⟨htail, hread⟩ := hend.resolve_right fun h => absurd h.1 (by decide)
  have hsix : 4 ≤ byteLength full := by
    rw [htext, byteLength_append, hlen]
    omega
  obtain ⟨month, rest, hfull, hm, hd, hcut, -, hcut'⟩ := exists_cut hsix hne
  rw [hcut] at hread hmonth
  rw [hcut'] at hread hrest
  generalize slice 2 4 full = day at *
  obtain ⟨z, rfl, rfl⟩ : ∃ z, p = month ++ day ++ z ∧ rest = z ++ u := by
    refine exists_append_of_byteLength_le ?_ ?_
    · rw [List.append_assoc, ← hfull, htext]
    · rw [byteLength_append, hm, hd, hlen]
      omega
  refine isPackedMonthDayYear_of_slashes (hmonth.isDigits hm) (hday.isDigits hd) ?_ ?_ hnan he
    htail hrest hread
  · rw [byteLength_append, byteLength_append, hm, hd] at hlen
    omega
  · intro hmem
    have := hspace ' ' (by simp [hmem])
    cases this

namespace ShapeRule

theorem withMidnight_append {m : Text} {k : Nat} (hm : byteLength m + k = 10) (y : Text) :
    withMidnight (m ++ y) = " 00:00:00".toList ∨
      ∃ a u, y = a ++ u ∧ (byteLength a = k ∨ u = [] ∧ byteLength a < k) ∧
        withMidnight (m ++ y) = m ++ (a ++ (" 00:00:00".toList ++ u)) := by
  have htake := takeBytes?_append m y k
  have hdrop := dropBytes?_append m y k
  rw [hm] at htake hdrop
  simp only [withMidnight, slice, sliceFrom, dropBytes?_zero, Option.bind_some, Nat.sub_zero,
    htake, hdrop]
  obtain ⟨ha, hu⟩ | ⟨a, u, ha, hu, rfl⟩ := takeBytes?_dropBytes? k y
  · left
    rw [ha, hu]
    rfl
  · right
    obtain ⟨u', hu', hlen⟩ := eq_append_of_takeBytes? ha
    obtain rfl : u = u' := List.append_cancel_left hu'
    refine ⟨a, u, rfl, hlen, ?_⟩
    rw [ha, hu]
    simp

theorem wallReading?_midnight : wallReading? (trim " 00:00:00".toList) = none := by
  decide +kernel

theorem packedText_cases {s : Shape} {p v : Text} (htext : s.text = p ++ v)
    (hp : byteLength p = 8) :
    (∃ w, packedText s = p ++ w) ∨ ∃ w, packedText s = ':' :: w := by
  unfold packedText
  split_ifs
  · have htake := takeBytes?_append p v 3
    rw [hp] at htake
    have hslice : s.slice 0 11 = ((takeBytes? 3 v).map (p ++ ·)).getD [] := by
      rw [Shape.slice, htext, ← htake]
      simp [slice]
    cases hv : takeBytes? 3 v with
    | none =>
      rw [hv] at hslice
      exact .inr ⟨_, by rw [hslice]; rfl⟩
    | some w =>
      rw [hv] at hslice
      exact .inl ⟨_, by rw [hslice, Option.map_some, Option.getD_some, List.append_assoc,
        List.append_assoc]⟩
  · exact .inl ⟨v, htext⟩

end ShapeRule

/-- Eight digits up to a space, the letter `T` or the end of a text, or seven of them with a blank
in place of the last one. -/
def IsPackedYearMonthDay (t : Text) : Prop :=
  (∃ digits rest, t = digits ++ rest ∧ IsDigits 8 digits ∧
      ∀ c ∈ rest.head?, c = ' ' ∨ c = 'T') ∨
    ∃ digits b c rest, t = digits ++ b :: c :: rest ∧ IsDigits 7 digits ∧
      (b = '\t' ∧ (c = ' ' ∨ c = 'T') ∨ b = ' ' ∧ c = 'T')

theorem day_cases {q z w y b e tail : Text} (hq : IsNumber q) (hne : q ≠ [])
    (hnan : (numberOf (q ++ z)).isNaN = false) (hz : byteLength z = 2) (hcolon : ':' ∈ w)
    (hy : z ++ w = y ++ b) (hb : ∀ c ∈ b, isBlank c = true) (hye : y = e ++ tail) (hene : e ≠ [])
    (he : IsNumber e) (hend : Loose.EndsToken tail ∨ e.length = 2) :
    IsDigits 2 z ∨ ∃ d c, z = [d, c] ∧ d.isDigit = true ∧ (c = ' ' ∨ c = '\t') := by
  subst hye
  rw [List.append_assoc] at hy
  obtain htail | htwo := hend
  · have htail' : Loose.EndsToken (tail ++ b) := by
      obtain rfl | ⟨c, u, rfl, hc⟩ := htail
      · exfalso
        have hmem : ':' ∈ e ++ b := by
          rw [List.nil_append] at hy
          rw [← hy]
          exact List.mem_append_right z hcolon
        obtain hmem | hmem := List.mem_append.mp hmem
        · cases he _ hmem
        · cases hb _ hmem
      · exact .inr ⟨c, u ++ b, rfl, hc⟩
    obtain ⟨d, u, rfl, hd, rfl | ⟨rfl, c, v, rfl, hc, -⟩⟩ :=
      exists_blank_end (x := []) hq hne (by simp [IsNumber]) he hnan htail' hy
    · rw [List.append_nil] at hz ⊢
      exact .inl (hd.isDigits hz)
    · have hpos := List.length_pos_iff.mpr hene
      have hcpos := c.utf8Size_pos
      rw [byteLength_append, hd.byteLength_eq, byteLength] at hz
      obtain rfl : v = [] := eq_nil_of_byteLength (by omega)
      obtain ⟨x, rfl⟩ := List.length_eq_one_iff.mp (show e.length = 1 by omega)
      exact .inr ⟨x, c, rfl, hd x (by simp), hc⟩
  · left
    have hbytes := he.byteLength_eq.trans htwo
    obtain ⟨x, rfl, -⟩ := exists_append_of_byteLength_le hy (by rw [hz, hbytes])
    rw [byteLength_append, hz] at hbytes
    obtain rfl : x = [] := eq_nil_of_byteLength (by omega)
    rw [List.append_nil] at he htwo
    exact ⟨he, htwo⟩

theorem Shape.exists_packed_head {t : Text}
    (h : ShapeRule.packedYearMonthDay.recognizes (.ofText t) = true) :
    ∃ p v, (ofText t).text = p ++ v ∧ byteLength p = 8 ∧ (numberOf p).isNaN = false ∧
      (' ' ∉ p ∧ (∀ c ∈ v.head?, c = ' ') ∨ ∀ c ∈ v.head?, c = 'T') := by
  obtain h | h := Bool.or_eq_true_iff.mp h
  · obtain ⟨v, htext, hp, hnan, hspace, hv⟩ :=
      ShapeRule.exists_numeric_head (ShapeRule.head?_split_of_firstToken t) h
    refine ⟨_, v, htext, hp, hnan, .inl ⟨fun hmem => ?_, fun c hc => ?_⟩⟩
    · simpa using hspace ' ' hmem
    · simpa using hv c hc
  · rw [ShapeRule.partIsNumber, ← List.head?_eq_getElem?, Option.any_eq_true] at h
    obtain ⟨p, hsplit, hnumber⟩ := h
    obtain ⟨v, htext, hp, hnan, -, hv⟩ := ShapeRule.exists_numeric_head hsplit hnumber
    exact ⟨p, v, htext, hp, hnan, .inr fun c hc => by simpa using hv c hc⟩

theorem isPackedYearMonthDay_of_day {t q z v : Text} (htext : t = q ++ z ++ v)
    (hlast : ∀ c ∈ t.getLast?, isBlank c = false) (hq : IsDigits 6 q)
    (hz : IsDigits 2 z ∨ ∃ d c, z = [d, c] ∧ d.isDigit = true ∧ (c = ' ' ∨ c = '\t'))
    (hv : ' ' ∉ q ++ z ∧ (∀ c ∈ v.head?, c = ' ') ∨ ∀ c ∈ v.head?, c = 'T') :
    IsPackedYearMonthDay t := by
  obtain hz | ⟨d, c, rfl, hd, hc⟩ := hz
  · refine .inl ⟨q ++ z, v, htext, hq.append hz, fun c hc => ?_⟩
    obtain ⟨-, hv⟩ | hv := hv
    · exact .inl (hv c hc)
    · exact .inr (hv c hc)
  · have hdigits : IsDigits 7 (q ++ [d]) :=
      hq.append (n := 1) ⟨by simpa [IsNumber] using hd, rfl⟩
    have htext' : t = q ++ [d] ++ c :: v := by simp [htext]
    cases v with
    | nil =>
      -- A text does not end in blanks.
      have hblank := hlast c (by rw [htext', List.getLast?_concat]; rfl)
      obtain rfl | rfl := hc <;> cases hblank
    | cons y v =>
      refine .inr ⟨q ++ [d], c, y, v, htext', hdigits, ?_⟩
      obtain ⟨hspace, hv⟩ | hv := hv
      · obtain rfl | rfl := hc
        · simp at hspace
        · exact .inl ⟨rfl, .inl (hv y rfl)⟩
      · obtain rfl | rfl := hc
        · exact .inr ⟨rfl, hv y rfl⟩
        · exact .inl ⟨rfl, .inr (hv y rfl)⟩

namespace ShapeRule

/-- A packed date is restated with hyphens around its month. Without a time, midnight stands behind
the ten bytes of the date. -/
theorem text_restatePackedYearMonthDay_cases (t : Text) {u : Text}
    (hu : packedText (.ofText t) = u) :
    (restatePackedYearMonthDay (.ofText t)).text = " 00:00:00".toList ∨
      ∃ y, (restatePackedYearMonthDay (.ofText t)).text =
          slice 0 4 u ++ '-' :: (slice 4 6 u ++ '-' :: y) ∧
        (y = sliceFrom 6 u ∧ ':' ∈ u ∨
          ∃ a v, sliceFrom 6 u = a ++ v ∧ y = a ++ (" 00:00:00".toList ++ v) ∧
            (byteLength (slice 0 4 u) + byteLength (slice 4 6 u) + byteLength a = 8 ∨
              v = [] ∧
                byteLength (slice 0 4 u) + byteLength (slice 4 6 u) + byteLength a < 8)) := by
  have hhyphens : hyphenated u =
      slice 0 4 u ++ '-' :: (slice 4 6 u ++ ['-']) ++ sliceFrom 6 u := by
    simp [hyphenated]
  have hmarks (y : Text) : slice 0 4 u ++ '-' :: (slice 4 6 u ++ ['-']) ++ y =
      slice 0 4 u ++ '-' :: (slice 4 6 u ++ '-' :: y) := by
    simp
  rw [text_restatePackedYearMonthDay, hu]
  split_ifs with honly
  · have hyear := byteLength_slice_le 0 4 u
    have hmonth := byteLength_slice_le 4 6 u
    have hsize : '-'.utf8Size = 1 := by decide
    have hm : byteLength (slice 0 4 u ++ '-' :: (slice 4 6 u ++ ['-'])) +
        (8 - byteLength (slice 0 4 u) - byteLength (slice 4 6 u)) = 10 := by
      simp only [byteLength_append, byteLength, hsize]
      omega
    rw [hhyphens]
    obtain hnone | ⟨a, v, hrest, hlen, htext⟩ := withMidnight_append hm (sliceFrom 6 u)
    · exact .inl hnone
    · refine .inr ⟨_, by rw [htext, hmarks], .inr ⟨a, v, hrest, rfl, ?_⟩⟩
      obtain hlen | ⟨hv, hlen⟩ := hlen
      · exact .inl (by omega)
      · exact .inr ⟨hv, by omega⟩
  · exact .inr ⟨_, by rw [hhyphens, hmarks], .inl ⟨rfl, hu ▸ mem_packedText honly⟩⟩

theorem exists_eight_digits {s : Shape} {p v : Text} (htext : s.text = p ++ v)
    (hp : byteLength p = 8) (hyear : IsNumber (slice 0 4 (packedText s)))
    (hmonth : IsNumber (slice 4 6 (packedText s))) (hne : slice 4 6 (packedText s) ≠ []) :
    ∃ z w, packedText s = p ++ w ∧
      p = slice 0 4 (packedText s) ++ slice 4 6 (packedText s) ++ z ∧
      sliceFrom 6 (packedText s) = z ++ w ∧ byteLength z = 2 ∧
      IsDigits 6 (slice 0 4 (packedText s) ++ slice 4 6 (packedText s)) := by
  obtain ⟨w, hw⟩ | ⟨w, hw⟩ := packedText_cases htext hp
  · have hlong : 6 ≤ byteLength (packedText s) := by
      rw [hw, byteLength_append, hp]
      omega
    obtain ⟨a, y, hcut, ha, hx, hfour, -, hsix⟩ := exists_cut hlong hne
    rw [hfour] at hyear ⊢
    rw [hsix]
    generalize slice 4 6 (packedText s) = x at *
    have hax : byteLength (a ++ x) = 6 := by rw [byteLength_append, ha, hx]
    obtain ⟨z, rfl, rfl⟩ : ∃ z, p = a ++ x ++ z ∧ y = z ++ w := by
      refine exists_append_of_byteLength_le ?_ (by omega)
      rw [List.append_assoc, ← hcut, hw]
    have hdigits : IsNumber (a ++ x) := isNumber_append.mpr ⟨hyear, hmonth⟩
    rw [byteLength_append, hax] at hp
    exact ⟨z, w, hw, rfl, rfl, by omega, hdigits.isDigits hax⟩
  · exfalso
    obtain ⟨a, u, hcut, ha, -⟩ := eq_append_of_slice_ne_nil hne
    cases a with
    | nil => cases ha
    | cons c a =>
      have hfour := slice_append_left (slice 4 6 (packedText s) ++ u) ha
      rw [← List.append_assoc, ← hcut] at hfour
      rw [hw] at hcut
      obtain ⟨rfl, -⟩ := List.cons.inj hcut
      have hcolon := hyear ':' (by rw [hfour]; simp)
      cases hcolon

theorem exists_colon_behind {a x p z w u y : Text} (hnan : (numberOf p).isNaN = false)
    (hp : p = a ++ x ++ z) (hu : u = p ++ w) (hrest : sliceFrom 6 u = z ++ w)
    (hz : byteLength z = 2) (hsix : IsDigits 6 (a ++ x))
    (hy : y = sliceFrom 6 u ∧ ':' ∈ u ∨
      ∃ b v, sliceFrom 6 u = b ++ v ∧ y = b ++ (" 00:00:00".toList ++ v) ∧
        (byteLength a + byteLength x + byteLength b = 8 ∨
          v = [] ∧ byteLength a + byteLength x + byteLength b < 8)) :
    ∃ w', z ++ w' = y ∧ ':' ∈ w' := by
  obtain ⟨rfl, hcolon⟩ | ⟨b, v, hcut, rfl, hlen⟩ := hy
  · refine ⟨w, hrest.symm, ?_⟩
    rw [hu, List.mem_append] at hcolon
    refine hcolon.resolve_left fun hmem => ?_
    have hsolid := solid_of_mem hnan hmem (by rfl)
    revert hsolid
    decide
  · have hax := hsix.byteLength_eq
    rw [byteLength_append] at hax
    rw [hrest] at hcut
    obtain hlen | ⟨rfl, hlen⟩ := hlen
    · obtain ⟨e, rfl, rfl⟩ := exists_append_of_byteLength_le hcut.symm (by omega)
      rw [byteLength_append] at hz
      obtain rfl : e = [] := eq_nil_of_byteLength (by omega)
      exact ⟨" 00:00:00".toList ++ w, by simp, by simp⟩
    · have hbytes := congrArg byteLength hcut
      rw [List.append_nil, byteLength_append] at hbytes
      omega

theorem isPackedYearMonthDay_of_read {c : Context} {t : Text} {v : Temporal}
    (hrule : packedYearMonthDay.recognizes (.ofText t) = true)
    (h : (restatePackedYearMonthDay (.ofText t)).read c = .ok v) :
    IsPackedYearMonthDay (Shape.ofText t).text := by
  obtain ⟨hcheck, reading, hreading, -⟩ := Restated.exists_reading h
  obtain ⟨-, -, hyear⟩ := Restated.isNaN_of_check hcheck
  change (numberOf (slice 0 4 (packedText (.ofText t)))).isNaN = false at hyear
  obtain ⟨p, v, htext, hp, hnan, hv⟩ := Shape.exists_packed_head hrule
  obtain hnone | ⟨y, hr, hy⟩ := text_restatePackedYearMonthDay_cases t rfl
  · rw [hnone, wallReading?_midnight] at hreading
    cases hreading
  obtain ⟨y', b, rfl, hb, htrim⟩ := trim_append_marks (slice 0 4 (packedText (.ofText t)))
    (slice 4 6 (packedText (.ofText t))) y (s := '-') (by decide)
  rw [hr, htrim] at hreading
  have hhead : ∀ d ∈ (slice 0 4 (packedText (.ofText t))).head?, isBlank d = false :=
    fun d hd => head_packedText d (mem_head?_of_slice hd)
  rw [dropWhile_of_head hhead] at hreading
  obtain ⟨hyear', hne, hmonth, e, tail, hene, he, hye, hend⟩ :=
    Restated.isNumber_of_marks (.inr rfl) (byteLength_slice_le 0 4 _) (byteLength_slice_le 4 6 _)
      hhead hyear hreading
  obtain ⟨z, w, hw, hpz, hrest, hz, hsix⟩ := exists_eight_digits htext hp hyear' hmonth hne
  obtain ⟨w', hw', hcolon⟩ := exists_colon_behind hnan hpz hw hrest hz hsix hy
  have hday := day_cases hsix.isNumber hsix.ne_nil (hpz ▸ hnan) hz hcolon hw' hb hye hene he
    (hend.imp And.left And.right)
  rw [hpz] at htext hv
  exact isPackedYearMonthDay_of_day htext (isBlank_getLast_trim t) hsix hday hv

end ShapeRule

/-- A text that is taken for a packed date is read only if its bytes are digits, but for blanks that
end a token. Otherwise it fails for its form or for its day and month. -/
theorem toDate_packed (c : Context) {t : Text} {rule : ShapeRule}
    (hfirst : ShapeRule.first? (.ofText t) = some rule)
    (hpacked : rule = .packedMonthDayYear ∨ rule = .packedYearMonthDay) :
    (Dates.toDate c (.text t)).result = .error .invalidDate ∨
      (Dates.toDate c (.text t)).result = .error .invalidDayMonth ∨
      ∃ v, (Dates.toDate c (.text t)).result = .ok v ∧
        (rule = .packedMonthDayYear → IsPackedMonthDayYear (Shape.ofText t).firstToken) ∧
        (rule = .packedYearMonthDay → IsPackedYearMonthDay (Shape.ofText t).text) := by
  have hrule : rule.recognizes (.ofText t) = true := List.find?_some hfirst
  obtain ⟨r, hread⟩ : ∃ r, rule.read c (.ofText t) = .ok (.restated r) := by
    obtain rfl | rfl := hpacked <;> exact ⟨_, rfl⟩
  rw [Restates.result_toDate ⟨rule, hfirst, hread⟩]
  cases hresult : r.read c with
  | error e =>
    obtain rfl | rfl := Restated.eq_of_read_error hresult
    · exact .inl rfl
    · exact .inr (.inl rfl)
  | ok v =>
    refine .inr (.inr ⟨v, rfl, ?_⟩)
    obtain rfl | rfl := hpacked
    · obtain rfl := Recognition.eq_of_restated hread
      exact ⟨fun _ => ShapeRule.isPackedMonthDayYear_of_read hrule hresult, by simp⟩
    · obtain rfl := Recognition.eq_of_restated hread
      exact ⟨by simp, fun _ => ShapeRule.isPackedYearMonthDay_of_read hrule hresult⟩

theorem toDate_packed_march :
    (ShapeRule.first? (.ofText "031720".toList) = some .packedMonthDayYear ∧
      IsPackedMonthDayYear (Shape.ofText "031720".toList).firstToken) ∧
    ShapeRule.first? (.ofText "20200317T134530".toList) = some .packedYearMonthDay ∧
      IsPackedYearMonthDay (Shape.ofText "20200317T134530".toList).text := by
  have hfirst : ShapeRule.first? (.ofText "031720".toList) = some .packedMonthDayYear := by
    decide +kernel
  have hfirst' : ShapeRule.first? (.ofText "20200317T134530".toList) =
      some .packedYearMonthDay := by
    decide +kernel
  have hok : (Dates.toDate ⟨.fixed .utc, .fixed 0⟩ (.text "031720".toList)).result =
      .ok (.instant 1584403200000 true (by decide)) := by
    decide +kernel
  have hok' : (Dates.toDate ⟨.fixed .utc, .fixed 0⟩ (.text "20200317T134530".toList)).result =
      .ok (.instant 1584452730000 false (by decide)) := by
    decide +kernel
  have hread := toDate_packed ⟨.fixed .utc, .fixed 0⟩ hfirst (.inl rfl)
  have hread' := toDate_packed ⟨.fixed .utc, .fixed 0⟩ hfirst' (.inr rfl)
  rw [hok] at hread
  rw [hok'] at hread'
  obtain h | h | ⟨-, -, hmonth, -⟩ := hread
  · cases h
  · cases h
  obtain h | h | ⟨-, -, -, hyear⟩ := hread'
  · cases h
  · cases h
  exact ⟨⟨hfirst, hmonth rfl⟩, hfirst', hyear rfl⟩

theorem toDate_packed_blank :
    (ShapeRule.first? (.ofText "2020031 Tue 10:00".toList) = some .packedYearMonthDay ∧
      slice 0 8 (Shape.ofText "2020031 Tue 10:00".toList).text = "2020031 ".toList ∧
      (Dates.toDate ⟨.fixed .utc, .fixed 0⟩ (.text "2020031 Tue 10:00".toList)).result =
        .ok (.instant 1583056800000 false)) ∧
    ShapeRule.first? (.ofText "0317\t\t 10:00".toList) = some .packedMonthDayYear ∧
      (Shape.ofText "0317\t\t 10:00".toList).firstToken = "0317\t\t".toList ∧
      (Dates.toDate ⟨.fixed .utc, .fixed 0⟩ (.text "0317\t\t 10:00".toList)).result =
        .ok (.instant 1584439200000 false) := by
  decide +kernel

end Coercion
