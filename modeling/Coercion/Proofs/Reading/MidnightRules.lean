import Coercion.Proofs.Number.Literals
import Coercion.Proofs.Reading.MarkedRules
import Coercion.Proofs.Reading.Midnights

namespace Coercion

open Calendar Text

theorem not_mem_of_numberOf {t : Text} (h : (numberOf t).isNaN = false) : '(' ∉ t := by
  intro hmem
  have htrim := mem_trim (by rfl) hmem
  obtain hnil | hword | ⟨l, hread⟩ := cases_of_numberOf h
  · simp [hnil] at htrim
  · have hletters : '(' ∉ "Infinity".toList := by decide
    obtain ⟨ht, -⟩ | ⟨c, hc, ht⟩ := splitSign_cases (trim t)
    · rw [ht, hword] at htrim
      exact hletters htrim
    · rw [ht, hword, List.mem_cons] at htrim
      obtain rfl | htrim := htrim
      · exact absurd hc (by decide)
      · exact hletters htrim
  · obtain ⟨w, hw, -⟩ := Literal.exists_text_of_read? hread
    obtain hdigit | hmark := w.mem_text (hw ▸ htrim)
    · cases hdigit
    · exact absurd hmark (by decide)

namespace Shape

variable {s : Shape} {c : Char}

theorem not_mem_of_dateOnly {t : Text} (h : (ofText t).dateOnly = true) :
    ':' ∉ (ofText t).text := by
  simpa [ofText] using h

theorem not_mem_slice (h : c ∉ s.text) (start stop : Nat) : c ∉ s.slice start stop :=
  fun hmem => h (mem_of_mem_slice hmem)

theorem not_mem_sliceFrom (h : c ∉ s.text) (start : Nat) : c ∉ s.sliceFrom start :=
  fun hmem => h (mem_of_mem_sliceFrom hmem)

end Shape

theorem Restated.not_mem_unchanged {t : Text} (h : (unchanged (.ofText t)).dateOnly = true) :
    ':' ∉ (unchanged (.ofText t)).text :=
  Shape.not_mem_of_dateOnly h

theorem Text.not_mem_ofInt (n : Int) : ':' ∉ ofInt n := by
  rw [ofInt, List.mem_append, not_or]
  refine ⟨?_, not_mem_of_isNumber (isNumber_ofNat _) rfl⟩
  unfold sign
  split_ifs <;> decide

namespace ShapeRule

variable {c : Context} {t : Text} {r : Restated} {rule : ShapeRule}

theorem not_mem_of_dateOnly (hread : rule.read c (.ofText t) = .ok (.restated r))
    (honly : r.dateOnly = true) (hyear : rule ≠ .yearMonthDay)
    (hpacked : rule ≠ .packedYearMonthDay) : ':' ∉ r.text := by
  have hslice (h : (Shape.ofText t).dateOnly = true) :=
    Shape.not_mem_slice (Shape.not_mem_of_dateOnly h)
  have hfrom (h : (Shape.ofText t).dateOnly = true) :=
    Shape.not_mem_sliceFrom (Shape.not_mem_of_dateOnly h)
  cases rule with
  | intervalSequence => exact absurd hread (Recognition.map_value_ne _ r)
  | keyword => exact absurd hread (Recognition.map_value_ne _ r)
  | dayMonthNameYear =>
    obtain rfl := Recognition.eq_of_restated hread
    exact Shape.not_mem_of_dateOnly honly
  | monthDayYear =>
    obtain rfl := Recognition.eq_of_restated hread
    have hcolon := Shape.not_mem_of_dateOnly honly
    simp only [restateMonthDayYear]
    split_ifs
    · simp [hslice honly, hfrom honly]
    · exact hcolon
  | yearMonthDay => exact absurd rfl hyear
  | dottedYearMonthDay =>
    obtain rfl := Recognition.eq_of_restated hread
    exact Shape.not_mem_of_dateOnly honly
  | underscoredYearMonthDay =>
    obtain rfl := Recognition.eq_of_restated hread
    simp [restateYearMonthDay, hslice honly, hfrom honly]
  | monthDay =>
    obtain ⟨q, hq, hread⟩ := Ending.bind_eq_ok.mp hread
    obtain rfl := Recognition.eq_of_restated hread
    unfold readMonthDay at hq
    split_ifs at hq
    · obtain ⟨today, -, hq⟩ := Ending.bind_eq_ok.mp hq
      obtain rfl := Ending.ok.inj hq
      simp [restateMonthDay, hslice honly, hfrom honly, Text.not_mem_ofInt]
    · obtain rfl := Ending.ok.inj hq
      exact Restated.not_mem_unchanged honly
  | packedMonthDayYear =>
    obtain rfl := Recognition.eq_of_restated hread
    simp [restatePackedMonthDayYear, hslice honly, hfrom honly]
  | timeOfDay =>
    obtain ⟨today, -, hread⟩ := Ending.bind_eq_ok.mp hread
    obtain rfl := Recognition.eq_of_restated hread
    exact Restated.not_mem_unchanged honly
  | packedYearMonthDay => exact absurd rfl hpacked
  | dottedDayMonthYear =>
    obtain rfl := Recognition.eq_of_restated hread
    simp [restateDottedDayMonthYear, hslice honly, hfrom honly]
  | yearMonthNameDay =>
    obtain rfl := Recognition.eq_of_restated hread
    simp [restateYearMonthNameDay, hslice honly, hfrom honly]
  | monthNameDayYear =>
    obtain rfl := Recognition.eq_of_restated hread
    simp [restateMonthNameDayYear, hslice honly, hfrom honly]

variable {reading : WallReading}

section

variable (hlocal : reading.offset = none)

include hlocal

theorem isMidnight_of_withMidnight {u : Text} (hu : ':' ∉ u)
    (h : wallReading? (trim (withMidnight u)) = some reading) :
    reading.IsMidnight (fraction (sliceFrom 10 u)).1 ∨
      reading.IsMidnight 0 ∧ '(' ∈ slice 0 10 u := by
  rw [withMidnight, List.append_assoc] at h
  exact isMidnight_of_midnight hlocal (fun hmem => hu (mem_of_mem_slice hmem))
    (fun hmem => hu (mem_of_mem_sliceFrom hmem)) h

theorem isMidnight_yearMonthDay (hrule : yearMonthDay.recognizes (.ofText t) = true)
    (honly : (Shape.ofText t).dateOnly = true)
    (hcheck : (restateYearMonthDay (.ofText t) (withMidnight (Shape.ofText t).text)).check = .ok ())
    (h : wallReading? (trim (withMidnight (Shape.ofText t).text)) = some reading) :
    reading.IsMidnight (fraction (sliceFrom 10 (Shape.ofText t).text)).1 := by
  have hmidnight := isMidnight_of_withMidnight hlocal (Shape.not_mem_of_dateOnly honly) h
  obtain ⟨h₁, h₂⟩ := Bool.and_eq_true_iff.mp hrule
  obtain ⟨a, x, y, htext, ha, hx⟩ := exists_marks (n := 4) (k := 2) (by decide) h₁ h₂
  obtain ⟨hyear, hmonth, hday⟩ := restateYearMonthDay_parts ha hx (by decide) (by decide) htext
    (withMidnight (Shape.ofText t).text)
  rw [htext] at hmidnight ⊢
  by_cases hy : slice 0 2 y = []
  · have hrest : sliceFrom 10 (a ++ '-' :: (x ++ '-' :: y)) = [] :=
      (sliceFrom_behind ha hx (by decide) (by decide) y 2).trans (sliceFrom_eq_nil (by decide) hy)
    rw [hrest] at hmidnight ⊢
    exact hmidnight.elim id And.left
  · -- The parts of the date are numbers, so no comment starts before midnight.
    refine hmidnight.resolve_right fun hcomment => ?_
    obtain ⟨hday', hmonth', hyear'⟩ := Restated.isNaN_of_check hcheck
    rw [hday] at hday'
    rw [hmonth] at hmonth'
    rw [hyear] at hyear'
    have hcut := slice_marks_append (c := '-') (d := '-') ha hx (by decide) (by decide) y hy
    have hparen := hcomment.2
    rw [hcut] at hparen
    simp [not_mem_of_numberOf hday', not_mem_of_numberOf hmonth', not_mem_of_numberOf hyear']
      at hparen

end

/-- A text of the form `yyyymmdd` has a space or the letter `T` behind its eight bytes. -/
theorem exists_eight_bytes (h : packedYearMonthDay.recognizes (.ofText t) = true) :
    ∃ p u, (Shape.ofText t).text = p ++ u ∧ byteLength p = 8 ∧ ∀ c ∈ u.head?, c ≠ '.' := by
  have hpart {q : Char → Bool} {p : Text} (hq : q '.' = false)
      (hsplit : (split q (Shape.ofText t).text).head? = some p)
      (hp : isNumberOfBytes 8 p = true) :
      ∃ p u, (Shape.ofText t).text = p ++ u ∧ byteLength p = 8 ∧ ∀ c ∈ u.head?, c ≠ '.' := by
    obtain ⟨u, htext, hu⟩ := exists_append_of_head_split hsplit
    rw [isNumberOfBytes, Bool.and_eq_true, beq_iff_eq] at hp
    refine ⟨p, u, htext, hp.1, ?_⟩
    rintro c hc rfl
    exact Bool.false_ne_true (hq.symm.trans (hu '.' hc))
  have hhead (q : Char → Bool) : ∃ p, (split q (Shape.ofText t).text).head? = some p := by
    obtain ⟨p, parts, hparts⟩ :=
      List.exists_cons_of_ne_nil (split_ne_nil (p := q) (t := (Shape.ofText t).text))
    exact ⟨p, by rw [hparts]; rfl⟩
  obtain hfirst | hsecond := Bool.or_eq_true_iff.mp h
  · obtain ⟨p, hp⟩ := hhead (· == ' ')
    refine hpart (by rfl) hp ?_
    have hfirst' : (Shape.ofText t).firstToken = p := by
      rw [Shape.firstToken, List.headD_eq_head?_getD]
      exact congrArg (Option.getD · []) hp
    rwa [hfirst'] at hfirst
  · obtain ⟨p, hp⟩ := hhead (· == 'T')
    refine hpart (by rfl) hp ?_
    rwa [partIsNumber, ← List.head?_eq_getElem?, hp, Option.any_some] at hsecond

/-- Hyphens put into eight bytes leave no fraction behind ten bytes, unless the text starts with
them. -/
theorem fraction_hyphenated {p u : Text} (hp : byteLength p = 8) (hu : ∀ c ∈ u.head?, c ≠ '.') :
    (fraction (sliceFrom 10 (hyphenated (p ++ u)))).1 = 0 ∨
      ∃ v, hyphenated (p ++ u) = '-' :: '-' :: v := by
  unfold hyphenated
  have hlen : 8 ≤ byteLength (p ++ u) := by
    rw [byteLength_append, hp]
    exact Nat.le_add_right 8 _
  -- A position inside a character cuts nothing out. If that is the sixth byte, the text ends with
  -- the hyphens, and if it is the fourth one, the text starts with them.
  obtain ⟨b, v, hsix, hb⟩ | ⟨-, -, hrest⟩ := cut_cases (n := 6) (by omega : 6 ≤ byteLength (p ++ u))
  · obtain ⟨a, w, hfour, ha⟩ | ⟨hyear, hmonth, -⟩ :=
      cut_cases (n := 4) (by omega : 4 ≤ byteLength (p ++ u))
    · left
      obtain ⟨e, rfl, rfl⟩ := exists_append_of_byteLength_le hsix.symm (by omega)
      obtain ⟨x, rfl, rfl⟩ := exists_append_of_byteLength_le (hfour.symm.trans hsix) (by omega)
      have hx : byteLength x = 2 := by
        rw [byteLength_append] at hb
        omega
      have he : byteLength e = 2 := by
        rw [byteLength_append] at hp
        omega
      have hyear : slice 0 4 (a ++ x ++ e ++ u) = a := by
        rw [hfour]
        exact slice_append_left _ ha
      have hmonth : slice 4 6 (a ++ x ++ e ++ u) = x := by
        rw [hfour]
        exact (slice_append _ ha 0 2).trans (slice_append_left _ hx)
      have hday : sliceFrom 6 (a ++ x ++ e ++ u) = e ++ u := by
        rw [hsix]
        exact (sliceFrom_append _ hb 0).trans (sliceFrom_zero _)
      have hrest : sliceFrom 10 (a ++ '-' :: (x ++ '-' :: (e ++ u))) = u :=
        (sliceFrom_behind ha hx (by decide) (by decide) _ 2).trans
          ((sliceFrom_append _ he 0).trans (sliceFrom_zero _))
      rw [hyear, hmonth, hday, List.append_assoc, List.cons_append, hrest, fraction_of_head_ne hu]
    · exact .inr ⟨sliceFrom 6 (p ++ u), by rw [hyear, hmonth]; rfl⟩
  · left
    rw [hrest, sliceFrom_of_byteLength_le]
    · rfl
    · have hfour := byteLength_slice_le 0 4 (p ++ u)
      have htwo := byteLength_slice_le 4 6 (p ++ u)
      have hsize : '-'.utf8Size = 1 := by decide
      simp only [byteLength_append, byteLength]
      omega

theorem withMidnight_hyphens (v : Text) : (fraction (sliceFrom 10 ('-' :: '-' :: v))).1 = 0 ∨
    ∃ w, withMidnight ('-' :: '-' :: v) = '-' :: '-' :: w := by
  unfold withMidnight
  obtain hcut | ⟨-, hrest⟩ := slice_append_sliceFrom 10 ('-' :: '-' :: v)
  · generalize slice 0 10 ('-' :: '-' :: v) = a at hcut ⊢
    match a with
    | [] =>
      left
      rw [List.nil_append] at hcut
      rw [hcut]
      rfl
    | [d] =>
      left
      have hrest : sliceFrom 10 ('-' :: '-' :: v) = '-' :: v := (List.cons.inj hcut).2
      rw [hrest]
      rfl
    | d :: e :: a =>
      obtain ⟨rfl, hrest⟩ := List.cons.inj hcut
      obtain ⟨rfl, -⟩ := List.cons.inj hrest
      exact .inr ⟨_, rfl⟩
  · left
    rw [hrest]
    rfl

theorem wallReading?_hyphens (w : Text) : wallReading? (trim ('-' :: '-' :: w)) = none := by
  obtain ⟨y, b, -, -, htrim⟩ := trim_append_marks [] [] w (s := '-') (by rfl)
  rw [List.nil_append, List.nil_append] at htrim
  rw [htrim]
  cases h : wallReading? (List.dropWhile isBlank [] ++ '-' :: ([] ++ '-' :: y)) with
  | none => rfl
  | some r =>
    obtain hiso | hloose := wallReading?_cases h
    · have hdigits := (Iso.read?_of_mark (a := []) (x := []) (by rfl) (by simp) (by simp) hiso).1
      exact absurd hdigits.length_eq (by decide)
    · simp [Loose.read?_of_mark (c := '-') (by rfl) (by rfl) (by decide)] at hloose

theorem isMidnight_packedYearMonthDay (hrule : packedYearMonthDay.recognizes (.ofText t) = true)
    (honly : (restatePackedYearMonthDay (.ofText t)).dateOnly = true)
    (h : wallReading? (trim (restatePackedYearMonthDay (.ofText t)).text) = some reading)
    (hlocal : reading.offset = none) : reading.IsMidnight 0 := by
  obtain ⟨p, u, htext, hp, hu⟩ := exists_eight_bytes hrule
  have hdateOnly : (Shape.ofText t).dateOnly = true := (Bool.and_eq_true_iff.mp honly).1
  have hcolon := Shape.not_mem_of_dateOnly hdateOnly
  have htimed : partIsNumber 1 6 (Shape.ofText t) = false := by
    simpa using (Bool.and_eq_true_iff.mp honly).2
  have hrestated : (restatePackedYearMonthDay (.ofText t)).text =
      withMidnight (hyphenated (p ++ u)) := by
    rw [text_restatePackedYearMonthDay, packedText]
    simp [htimed, hdateOnly, htext]
  rw [hrestated] at h
  rw [htext] at hcolon
  have hnot : ':' ∉ hyphenated (p ++ u) := by
    have hslice (i j : Nat) : ':' ∉ slice i j (p ++ u) := fun hmem => hcolon (mem_of_mem_slice hmem)
    have hfrom : ':' ∉ sliceFrom 6 (p ++ u) := fun hmem => hcolon (mem_of_mem_sliceFrom hmem)
    simp [hyphenated, hslice, hfrom]
  have hmidnight := isMidnight_of_withMidnight hlocal hnot h
  have hnone : (fraction (sliceFrom 10 (hyphenated (p ++ u)))).1 = 0 := by
    obtain hnone | ⟨v, hv⟩ := fraction_hyphenated hp hu
    · exact hnone
    · rw [hv] at h ⊢
      refine (withMidnight_hyphens v).resolve_right ?_
      rintro ⟨w, hw⟩
      simp [hw, wallReading?_hyphens] at h
  rw [hnone] at hmidnight
  exact hmidnight.elim id And.left

end ShapeRule

end Coercion
