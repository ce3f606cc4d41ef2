import Coercion.Proofs.Reading.MarkedTexts
import Coercion.Proofs.Reading.Shapes

namespace Coercion

open Calendar Text

theorem ne_nil_of_isPositive {w : Text} (h : (numberOf w).isPositive = true) : w ≠ [] := by
  rintro rfl
  have hzero : Double.zero.isPositive = false := Double.isPositive_ofInt (n := 0) (by decide)
  exact Bool.false_ne_true (hzero.symm.trans h)

/-- The last two bytes of a date, and what follows them. -/
theorem exists_slice {y : Text} (h : slice 0 2 y ≠ []) : ∃ v, y = slice 0 2 y ++ v ∧
    (byteLength (slice 0 2 y) = 2 ∨ v = []) := by
  obtain ⟨p, v, hy, hp, hlen⟩ := eq_append_of_slice_ne_nil h
  obtain rfl : p = [] := by
    have := length_le_byteLength p
    exact List.length_eq_zero_iff.mp (by omega)
  exact ⟨v, by simpa using hy, hlen.imp id And.left⟩

namespace ShapeRule

variable {s : Shape}

theorem marked_dayMonthNameYear (h : dayMonthNameYear.recognizes s = true) :
    (restateDayMonthNameYear s).Marked := by
  obtain ⟨h₁, h₂⟩ := Bool.and_eq_true_iff.mp h
  obtain ⟨a, x, y, htext, ha, hx⟩ := exists_marks (n := 2) (k := 3) (by decide) h₁ h₂
  refine .named ha.le htext ?_ ?_
  · simp only [restateDayMonthNameYear, Shape.slice, htext]
    rw [slice_append_left _ ha]
  · simp only [restateDayMonthNameYear, Shape.slice, htext]
    rw [slice_between (n := 2) (k := 3) ha hx (by decide)]

theorem marked_monthDayYear (h : monthDayYear.recognizes s = true) :
    (restateMonthDayYear s).Marked := by
  obtain ⟨c, hc, h₁, h₂⟩ : ∃ c, (c = '/' ∨ c = '-') ∧ s.has 2 c = true ∧ s.has 5 c = true := by
    simp only [recognizes, Bool.or_eq_true, Bool.and_eq_true] at h
    obtain h | h := h
    · exact ⟨'/', .inl rfl, h⟩
    · exact ⟨'-', .inr rfl, h⟩
  have hsize : c.utf8Size = 1 := by
    obtain rfl | rfl := hc <;> decide
  obtain ⟨a, x, y, htext, ha, hx⟩ := exists_marks (n := 2) (k := 2) hsize h₁ h₂
  have hmonth : (restateMonthDayYear s).month = numberOf a := by
    simp only [restateMonthDayYear, Shape.slice, htext]
    rw [slice_append_left _ ha]
  have hday : (restateMonthDayYear s).day = numberOf x := by
    simp only [restateMonthDayYear, Shape.slice, htext]
    rw [slice_between (n := 2) (k := 2) ha hx hsize]
  obtain ⟨z, hz⟩ : ∃ z, (restateMonthDayYear s).text = a ++ c :: (x ++ c :: z) := by
    by_cases height : byteLength s.firstToken = 8
    · refine ⟨"20".toList ++ y, ?_⟩
      simp only [restateMonthDayYear, if_pos height, Shape.slice, Shape.sliceFrom, htext]
      rw [slice_marks (n := 2) (k := 2) ha hx hsize hsize,
        sliceFrom_behind (n := 2) (k := 2) ha hx hsize hsize y 0]
      simp
    · refine ⟨y, ?_⟩
      simp only [restateMonthDayYear, if_neg height, htext]
  exact .monthFirst hc ha.le hx.le hz hmonth hday

/-- A text with the year first, whatever follows the two bytes of the day. -/
theorem marked_of_slice {a x y : Text} {c : Char} {r : Restated} (ha : byteLength a = 4)
    (hx : byteLength x = 2) (hc : c = '-' ∧ ':' ∈ r.text ∨ c = '.')
    (hhead : ∀ d ∈ a.head?, isBlank d = false) {v : Text}
    (hv : byteLength (slice 0 2 y) = 2 ∨ v = [] ∨ v.head? = some ' ')
    (htext : r.text = a ++ c :: (x ++ c :: (slice 0 2 y ++ v))) (hyear : r.year = numberOf a)
    (hmonth : r.month = numberOf x) (hday : r.day = numberOf (slice 0 2 y)) : r.Marked :=
  .yearFirst hc (fun _ => ⟨ha, hhead⟩) hx.le (byteLength_slice_le 0 2 y) hv htext hyear hmonth hday

variable {t : Text}

theorem head_of_append {a u : Text} (htext : (Shape.ofText t).text = a ++ u) :
    ∀ c ∈ a.head?, isBlank c = false := by
  intro c hc
  refine isBlank_head_trim t c ?_
  change c ∈ (Shape.ofText t).text.head?
  rw [htext]
  cases a with
  | nil => cases hc
  | cons d a => exact hc

theorem marked_yearMonthDay (h : yearMonthDay.recognizes (.ofText t) = true)
    {r : Restated} (hr : r = restateYearMonthDay (.ofText t)
      (if (Shape.ofText t).dateOnly then withMidnight (Shape.ofText t).text
        else (Shape.ofText t).text))
    (hpos : r.day.isPositive = true) : r.Marked := by
  obtain ⟨h₁, h₂⟩ := Bool.and_eq_true_iff.mp h
  obtain ⟨a, x, y, htext, ha, hx⟩ := exists_marks (n := 4) (k := 2) (by decide) h₁ h₂
  obtain ⟨hyear, hmonth, hday⟩ :=
    restateYearMonthDay_parts ha hx (by decide) (by decide) htext r.text
  have hr' : r = restateYearMonthDay (.ofText t) r.text := by
    rw [hr]
    rfl
  rw [← hr'] at hyear hmonth hday
  have hne := ne_nil_of_isPositive (hday ▸ hpos)
  obtain ⟨v, hy, hv⟩ := exists_slice hne
  by_cases honly : (Shape.ofText t).dateOnly = true
  · have hmidnight := withMidnight_eq ha hx hne
    rw [← htext] at hmidnight
    have htext' : r.text = _ := (congrArg Restated.text hr).trans
      ((if_pos honly).trans hmidnight)
    exact marked_of_slice ha hx (.inl ⟨rfl, by simp [htext']⟩) (head_of_append htext)
      (.inr (.inr rfl)) htext' hyear hmonth hday
  · have htext' : r.text = a ++ '-' :: (x ++ '-' :: (slice 0 2 y ++ v)) := by
      rw [← hy, ← htext]
      exact (congrArg Restated.text hr).trans (if_neg honly)
    have hcolon : ':' ∈ r.text := by
      rw [htext', ← hy, ← htext]
      simpa [Shape.ofText] using honly
    exact marked_of_slice ha hx (.inl ⟨rfl, hcolon⟩) (head_of_append htext)
      (hv.imp id .inl) htext' hyear hmonth hday

theorem marked_dottedYearMonthDay (h : dottedYearMonthDay.recognizes (.ofText t) = true)
    (hpos : (restateYearMonthDay (.ofText t) (Shape.ofText t).text).day.isPositive = true) :
    (restateYearMonthDay (.ofText t) (Shape.ofText t).text).Marked := by
  obtain ⟨h₁, h₂⟩ := Bool.and_eq_true_iff.mp h
  obtain ⟨a, x, y, htext, ha, hx⟩ := exists_marks (n := 4) (k := 2) (by decide) h₁ h₂
  obtain ⟨hyear, hmonth, hday⟩ := restateYearMonthDay_parts ha hx (by decide) (by decide) htext _
  obtain ⟨v, hy, hv⟩ := exists_slice (ne_nil_of_isPositive (hday ▸ hpos))
  exact marked_of_slice ha hx (.inr rfl) (head_of_append htext) (hv.imp id .inl)
    (by rw [← hy]; exact htext) hyear hmonth hday

theorem marked_underscoredYearMonthDay
    (h : underscoredYearMonthDay.recognizes (.ofText t) = true) {r : Restated}
    (hr : r = restateYearMonthDay (.ofText t) ((Shape.ofText t).slice 0 4 ++ '.' ::
      (Shape.ofText t).slice 5 7 ++ '.' :: (Shape.ofText t).sliceFrom 8))
    (hpos : r.day.isPositive = true) : r.Marked := by
  obtain ⟨h₁, h₂⟩ := Bool.and_eq_true_iff.mp h
  obtain ⟨a, x, y, htext, ha, hx⟩ := exists_marks (n := 4) (k := 2) (by decide) h₁ h₂
  obtain ⟨hyear, hmonth, hday⟩ :=
    restateYearMonthDay_parts ha hx (by decide) (by decide) htext r.text
  have hr' : r = restateYearMonthDay (.ofText t) r.text := by
    rw [hr]
    rfl
  rw [← hr'] at hyear hmonth hday
  obtain ⟨v, hy, hv⟩ := exists_slice (ne_nil_of_isPositive (hday ▸ hpos))
  have htext' : r.text = a ++ '.' :: (x ++ '.' :: (slice 0 2 y ++ v)) := by
    rw [← hy, hr]
    simp only [restateYearMonthDay, Shape.slice, Shape.sliceFrom, htext]
    rw [slice_append_left _ ha, slice_between (n := 4) (k := 2) ha hx (by decide),
      sliceFrom_behind (n := 4) (k := 2) ha hx (by decide) (by decide) y 0, sliceFrom_zero]
    simp
  exact marked_of_slice ha hx (.inr rfl) (head_of_append htext) (hv.imp id .inl) htext' hyear
    hmonth hday

theorem not_isPositive_unchanged (s : Shape) : (Restated.unchanged s).day.isPositive ≠ true := by
  have hzero : Double.zero.isPositive = false := Double.isPositive_ofInt (n := 0) (by decide)
  change Double.zero.isPositive ≠ true
  rw [hzero]
  decide

theorem marked_restateMonthDay (h : monthDay.recognizes s = true) {year : ℤ}
    (hpos : (restateMonthDay year s).day.isPositive = true) :
    (restateMonthDay year s).Marked := by
  obtain ⟨m, hm, h₁⟩ : ∃ m, (m = '/' ∨ m = '-') ∧ s.has 2 m = true := by
    obtain h | h := Bool.or_eq_true_iff.mp h
    · exact ⟨'/', .inl rfl, h⟩
    · exact ⟨'-', .inr rfl, h⟩
  have hsize : m.utf8Size = 1 := by
    obtain rfl | rfl := hm <;> decide
  obtain ⟨a, u, htext, ha⟩ := hasAt_iff.mp h₁
  have hmark : byteLength (a ++ [m]) = 3 := by simp [byteLength, ha, hsize]
  have htext' : s.text = a ++ [m] ++ u := by simp [htext]
  have hx : s.slice 3 5 = slice 0 2 u := by
    rw [Shape.slice, htext']
    exact slice_append u hmark 0 2
  have hfirst : s.slice 0 5 = a ++ [m] ++ slice 0 2 u := by
    rw [Shape.slice, htext']
    exact slice_append_of_ne_nil hmark (hx ▸ ne_nil_of_isPositive hpos)
  have hmiddle : s.slice 2 3 = [m] := by
    rw [Shape.slice, htext]
    have hcut := slice_append (m :: u) ha 0 1
    rwa [show m :: u = [m] ++ u from rfl, slice_append_left u (by simp [byteLength, hsize])]
      at hcut
  refine .monthFirst (a := a) (x := slice 0 2 u) hm ha.le (byteLength_slice_le 0 2 u)
    (y := Text.ofInt year ++ s.sliceFrom 5) ?_ ?_ ?_
  · rw [restateMonthDay, hfirst, hmiddle]
    simp
  · simp only [restateMonthDay, Shape.slice, htext]
    rw [slice_append_left _ ha]
  · rw [restateMonthDay, hx]

theorem marked_monthDay (h : monthDay.recognizes s = true) {c : Context} {r : Restated}
    (hr : readMonthDay c s = .ok r) (hpos : r.day.isPositive = true) : r.Marked := by
  unfold readMonthDay at hr
  split at hr
  · obtain ⟨today, -, hr⟩ := Ending.bind_eq_ok.mp hr
    obtain rfl := Ending.ok.inj hr
    exact marked_restateMonthDay h hpos
  · obtain rfl := Ending.ok.inj hr
    exact absurd hpos (not_isPositive_unchanged s)

theorem marked_packedMonthDayYear (s : Shape) : (restatePackedMonthDayYear s).Marked :=
  .monthFirst (.inl rfl) (byteLength_slice_le 0 2 s.text) (byteLength_slice_le 2 4 s.text)
    (y := "20".toList ++ s.sliceFrom 4)
    (by simp [restatePackedMonthDayYear, Shape.slice]) rfl rfl

theorem marked_dottedDayMonthYear (s : Shape) : (restateDottedDayMonthYear s).Marked :=
  .monthFirst (.inl rfl) (byteLength_slice_le 3 5 s.text) (byteLength_slice_le 0 2 s.text)
    (y := s.sliceFrom 6) (by simp [restateDottedDayMonthYear, Shape.slice]) rfl rfl

theorem marked_yearMonthNameDay (s : Shape) : (restateYearMonthNameDay s).Marked :=
  .named (byteLength_slice_le 9 11 s.text) (y := s.slice 0 4 ++ s.sliceFrom 11)
    (by simp [restateYearMonthNameDay, Shape.slice]) rfl rfl

theorem marked_monthNameDayYear (h : monthNameDayYear.recognizes s = true) :
    (restateMonthNameDayYear s).Marked := by
  obtain ⟨-, h₂⟩ := Bool.and_eq_true_iff.mp h
  obtain ⟨p, y, htext, hp⟩ := hasAt_iff.mp h₂
  have hrest : s.sliceFrom 6 = '-' :: y := by
    rw [Shape.sliceFrom, htext]
    exact (sliceFrom_append ('-' :: y) hp 0).trans (sliceFrom_zero _)
  exact .named (byteLength_slice_le 4 6 s.text) (y := y)
    (by simp [restateMonthNameDayYear, Shape.slice, hrest]) rfl rfl

/-- A text with a month and a day in its bytes has four bytes before them. -/
theorem exists_packed {u : Text} (hmonth : slice 4 6 u ≠ []) (hday : slice 6 8 u ≠ []) :
    ∃ a x y, u = a ++ (x ++ y) ∧ byteLength a = 4 ∧ byteLength x = 2 ∧ slice 0 4 u = a ∧
      slice 4 6 u = x ∧ slice 6 8 u = slice 0 2 y ∧ sliceFrom 6 u = y := by
  obtain ⟨p, v, hu, hp, -⟩ := eq_append_of_slice_ne_nil hday
  obtain ⟨a, y, hu', ha, hx⟩ := eq_append_of_slice_ne_nil hmonth
  generalize slice 4 6 u = x at *
  have hlong : 6 ≤ byteLength u := by
    rw [hu, byteLength_append, byteLength_append, hp, Nat.add_assoc]
    exact Nat.le_add_right ..
  have hx' : byteLength x = 2 := by
    obtain hx | ⟨rfl, hx⟩ := hx
    · exact hx
    · rw [hu', List.append_nil, byteLength_append] at hlong
      omega
  have hsix : byteLength (a ++ x) = 6 := by rw [byteLength_append, ha, hx']
  have hcut := sliceFrom_append y hsix 0
  have hcut' := slice_append y hsix 0 2
  have hcut'' := slice_append_left (x ++ y) ha
  rw [← List.append_assoc] at hcut''
  rw [hu']
  exact ⟨a, x, y, List.append_assoc .., ha, hx', hcut'', rfl, hcut', hcut.trans (sliceFrom_zero y)⟩

def packedText (s : Shape) : Text :=
  if partIsNumber 1 6 s then s.slice 0 11 ++ ':' :: s.slice 11 13 ++ ':' :: s.sliceFrom 13
  else s.text

def hyphenated (u : Text) : Text :=
  slice 0 4 u ++ '-' :: slice 4 6 u ++ '-' :: sliceFrom 6 u

theorem text_restatePackedYearMonthDay (s : Shape) : (restatePackedYearMonthDay s).text =
    if (s.dateOnly && !partIsNumber 1 6 s) = true then withMidnight (hyphenated (packedText s))
    else hyphenated (packedText s) := rfl

theorem mem_packedText (h : ¬ ((Shape.ofText t).dateOnly && !partIsNumber 1 6 (.ofText t)) = true) :
    ':' ∈ packedText (.ofText t) := by
  unfold packedText
  split
  · simp
  · next htimed =>
    rw [Bool.eq_false_iff.mpr htimed, Bool.not_false, Bool.and_true] at h
    simpa [Shape.ofText] using h

theorem head_packedText : ∀ c ∈ (packedText (.ofText t)).head?, isBlank c = false := by
  have hhead := isBlank_head_trim t
  change ∀ c ∈ (Shape.ofText t).text.head?, _ at hhead
  unfold packedText
  split
  · cases hcut : (Shape.ofText t).slice 0 11 with
    | nil => simp +decide
    | cons d u =>
      obtain ⟨p, v, htext, hp, -⟩ := eq_append_of_slice_ne_nil (i := 0) (j := 11)
        (t := (Shape.ofText t).text) (by rw [Shape.slice] at hcut; simp [hcut])
      obtain rfl : p = [] := by
        have := length_le_byteLength p
        exact List.length_eq_zero_iff.mp (by omega)
      rw [Shape.slice] at hcut
      rw [hcut] at htext
      simpa [htext] using hhead
  · exact hhead

theorem marked_packedYearMonthDay {r : Restated} (hr : r = restatePackedYearMonthDay (.ofText t))
    (hmonthpos : r.month ≠ .zero) (hpos : r.day.isPositive = true) : r.Marked := by
  obtain ⟨u, hu⟩ : ∃ u, u = packedText (.ofText t) := ⟨_, rfl⟩
  have hyear : r.year = numberOf (slice 0 4 u) := by rw [hr, hu]; rfl
  have hmonth : r.month = numberOf (slice 4 6 u) := by rw [hr, hu]; rfl
  have hday : r.day = numberOf (slice 6 8 u) := by rw [hr, hu]; rfl
  have hne : slice 4 6 u ≠ [] := by
    intro hnil
    rw [hmonth, hnil] at hmonthpos
    exact hmonthpos rfl
  have hcolon := mem_packedText (t := t)
  have hhead := head_packedText (t := t)
  obtain ⟨a, x, y, hparts, ha, hx, hcut, hcut', hcut'', hrest⟩ :=
    exists_packed hne (ne_nil_of_isPositive (hday ▸ hpos))
  rw [← hu] at hcolon hhead
  rw [hcut] at hyear
  rw [hcut'] at hmonth
  rw [hcut''] at hday
  have hne' := ne_nil_of_isPositive (hday ▸ hpos)
  obtain ⟨v, hy, hv⟩ := exists_slice hne'
  have hhead' : ∀ c ∈ a.head?, isBlank c = false := by
    intro c hc
    refine hhead c ?_
    rw [hparts]
    cases a with
    | nil => cases hc
    | cons d a => exact hc
  have htext : r.text = if ((Shape.ofText t).dateOnly && !partIsNumber 1 6 (.ofText t)) = true then
      withMidnight (a ++ '-' :: (x ++ '-' :: y)) else a ++ '-' :: (x ++ '-' :: y) := by
    have hhyphens : hyphenated u = a ++ '-' :: (x ++ '-' :: y) := by
      rw [hyphenated, hcut, hcut', hrest]
      simp
    rw [hr, text_restatePackedYearMonthDay, ← hu, hhyphens]
  by_cases honly : ((Shape.ofText t).dateOnly && !partIsNumber 1 6 (.ofText t)) = true
  · rw [if_pos honly, withMidnight_eq ha hx hne'] at htext
    exact marked_of_slice ha hx (.inl ⟨rfl, by simp [htext]⟩) hhead' (.inr (.inr rfl)) htext hyear
      hmonth hday
  · rw [if_neg honly] at htext
    have hmem : ':' ∈ r.text := by
      have := hcolon honly
      rw [hparts] at this
      rw [htext]
      simpa using this
    rw [hy] at htext
    exact marked_of_slice ha hx (.inl ⟨rfl, hmem⟩) hhead' (hv.imp id .inl) htext hyear hmonth hday

end ShapeRule

/-- A rule with a day to check restates its text with the date between marks. -/
theorem Restates.marked {c : Context} {t : Text} {r : Restated} (h : Restates c t r)
    (hcheck : r.check = .ok ()) (hpos : r.day.isPositive = true) : r.Marked := by
  obtain ⟨rule, hfirst, hread⟩ := h
  have hrule : rule.recognizes (.ofText t) = true := List.find?_some hfirst
  cases rule with
  | intervalSequence => exact absurd hread (Recognition.map_value_ne _ r)
  | keyword => exact absurd hread (Recognition.map_value_ne _ r)
  | dayMonthNameYear =>
    obtain rfl := Recognition.eq_of_restated hread
    exact ShapeRule.marked_dayMonthNameYear hrule
  | monthDayYear =>
    obtain rfl := Recognition.eq_of_restated hread
    exact ShapeRule.marked_monthDayYear hrule
  | yearMonthDay =>
    have hr := Recognition.eq_of_restated hread
    exact ShapeRule.marked_yearMonthDay hrule hr.symm hpos
  | dottedYearMonthDay =>
    obtain rfl := Recognition.eq_of_restated hread
    exact ShapeRule.marked_dottedYearMonthDay hrule hpos
  | underscoredYearMonthDay =>
    have hr := Recognition.eq_of_restated hread
    exact ShapeRule.marked_underscoredYearMonthDay hrule hr.symm hpos
  | monthDay =>
    obtain ⟨q, hq, hread⟩ := Ending.bind_eq_ok.mp hread
    obtain rfl := Recognition.eq_of_restated hread
    exact ShapeRule.marked_monthDay hrule hq hpos
  | packedMonthDayYear =>
    obtain rfl := Recognition.eq_of_restated hread
    exact ShapeRule.marked_packedMonthDayYear _
  | timeOfDay =>
    obtain ⟨today, -, hread⟩ := Ending.bind_eq_ok.mp hread
    obtain rfl := Recognition.eq_of_restated hread
    exact absurd hpos (ShapeRule.not_isPositive_unchanged _)
  | packedYearMonthDay =>
    refine ShapeRule.marked_packedYearMonthDay (Recognition.eq_of_restated hread).symm ?_ hpos
    obtain ⟨-, -, -, day, month, year, -, hmonth, hvalid⟩ := Restated.check_eq_ok hcheck hpos
    have hzero : Double.zero.integer? = some 0 := Double.integer?_ofInt (by decide)
    intro heq
    rw [heq, hzero] at hmonth
    obtain rfl := Option.some.inj hmonth
    simp [isValidDate] at hvalid
  | dottedDayMonthYear =>
    obtain rfl := Recognition.eq_of_restated hread
    exact ShapeRule.marked_dottedDayMonthYear _
  | yearMonthNameDay =>
    obtain rfl := Recognition.eq_of_restated hread
    exact ShapeRule.marked_yearMonthNameDay _
  | monthNameDayYear =>
    obtain rfl := Recognition.eq_of_restated hread
    exact ShapeRule.marked_monthNameDayYear hrule

end Coercion
