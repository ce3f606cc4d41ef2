import Coercion.Proofs.Reading.LooseInversion
import Coercion.Proofs.Reading.Months

namespace Coercion

open Text

namespace Loose

theorem isAlphanum_of_isBlank {c : Char} (h : isBlank c = true) : c.isAlphanum = false := by
  rw [← Bool.not_eq_true]
  intro hc
  simp [isBlank_of_isAlphanum hc] at h

theorem exists_second_mark {b : Text} {s : Char} (hb : ∀ c ∈ b, isBlank c = true)
    (hs : s = '/' ∨ s = '-' ∨ s = '.') (t : Text) : ∃ k c u, b ++ s :: t = k ++ c :: u ∧
      (∀ d ∈ k, isSeparator d = true) ∧ c.isAlphanum = false ∧ isSeparator c = false ∧ c ≠ '(' := by
  induction b with
  | nil =>
    refine ⟨[], s, t, rfl, by simp, ?_⟩
    obtain rfl | rfl | rfl := hs <;> decide
  | cons d b ih =>
    have hd := hb d (by simp)
    by_cases hsep : isSeparator d = true
    · obtain ⟨k, c, u, htext, hk, hc⟩ := ih fun c hc => hb c (by simp [hc])
      exact ⟨d :: k, c, u, by rw [List.cons_append, htext]; rfl, by simpa [hsep] using hk, hc⟩
    · refine ⟨[], d, b ++ s :: t, rfl, by simp, isAlphanum_of_isBlank hd, by simpa using hsep, ?_⟩
      rintro rfl
      cases hd

theorem DateParts.ne_nil {p q e : Text} {date : YearMonthDay} (h : DateParts p q e date) :
    q ≠ [] := by
  rintro rfl
  cases h with
  | named hmonth => cases hmonth
  | yearFirst _ _ _ hmonth => cases hmonth
  | monthFirst _ _ _ _ hday => cases hday

theorem isAlpha_of_month? {t : Text} {m : Nat} (h : month? t = some m) :
    ∀ c ∈ t.take 3, c.isAlpha = true := by
  obtain ⟨a, b, c, ht, ha, hb, hc⟩ := (isMonthName_of_monthOfAbbreviation? h).exists_three
  rw [ht]
  simp [ha, hb, hc]

theorem DateParts.not_mem {p q e : Text} {date : YearMonthDay} (h : DateParts p q e date) {s : Char}
    (hs : s = '/' ∨ s = '-' ∨ s = '.') : s ∉ q.take 3 := by
  have hnum {n : Nat} (hq : number? 2 q = some n) : s ∉ q.take 3 := by
    intro hmem
    have hdigit := (number?_eq_some hq).2.1 s (List.mem_of_mem_take hmem)
    obtain rfl | rfl | rfl := hs <;> cases hdigit
  cases h with
  | named hmonth =>
    intro hmem
    have halpha := isAlpha_of_month? hmonth s hmem
    obtain rfl | rfl | rfl := hs <;> cases halpha
  | yearFirst _ _ _ hmonth => exact hnum hmonth
  | monthFirst _ _ _ _ hday => exact hnum hday

section

variable {a x y : Text} {s : Char} {r : WallReading} (hs : s = '/' ∨ s = '-' ∨ s = '.')

include hs

theorem read?_of_blank_before_mark {p b : Text} (hne : p ≠ []) (hp : IsNumber p) (hb : b ≠ [])
    (hblank : ∀ c ∈ b, isBlank c = true) (t : Text) : read? (p ++ (b ++ s :: t)) = none := by
  obtain ⟨z, b, rfl⟩ := List.exists_cons_of_ne_nil hb
  have hz : isBlank z = true := hblank z (by simp)
  have hzdigit : z.isDigit = false := isDigit_of_isBlank hz
  by_cases hsep : isSeparator z = true
  · obtain ⟨k, c, u, htext, hk, hc, hcsep, hparen⟩ :=
      exists_second_mark (b := b) (fun c hc => hblank c (by simp [hc])) hs t
    rw [List.cons_append, htext]
    exact read?_of_second_mark (a := z :: k) (hp.startsWithDigit hne)
      (fun d hd => isSeparator_of_isDigit (hp d hd))
      (by simpa using not_mem_of_isNumber hp (c := ':') rfl) (by simp) (by simpa [hsep] using hk)
      hc hcsep hparen u
  · cases hread : read? (p ++ (z :: b ++ s :: t)) with
    | none => rfl
    | some r =>
      have hcolon : z ≠ ':' := by
        rintro rfl
        cases hz
      obtain ⟨hmark, -⟩ := read?_of_digits hne hp hzdigit (by simpa using hsep) hcolon hread
      obtain rfl | rfl | rfl := hmark <;> cases hz

theorem isSeparator_of_mark : isSeparator s = false := by
  obtain rfl | rfl | rfl := hs <;> rfl

theorem not_endsToken : ¬ EndsToken (s :: y) := by
  rintro (h | ⟨c, u, h, hc⟩)
  · cases h
  · obtain ⟨rfl, -⟩ := List.cons.inj h
    simp [isSeparator_of_mark hs] at hc

theorem exists_separator {e tail : Text} (he : s ∉ e) (htail : EndsToken tail)
    (h : x ++ s :: y = e ++ tail) : ∃ c v, isSeparator c = true ∧ x = e ++ c :: v := by
  obtain ⟨v, rfl, hv⟩ | ⟨v, rfl, rfl⟩ := List.append_eq_append_iff.mp h
  · cases v with
    | nil =>
      rw [List.nil_append] at hv
      exact absurd (hv ▸ htail) (not_endsToken hs)
    | cons d v =>
      obtain ⟨rfl, -⟩ := List.cons.inj hv
      simp at he
  · cases v with
    | nil => exact absurd htail (not_endsToken hs)
    | cons c v =>
      obtain htail | ⟨d, u, htail, hd⟩ := htail
      · cases htail
      · obtain ⟨rfl, -⟩ := List.cons.inj htail
        exact ⟨c, v, hd, rfl⟩

theorem read?_of_point {p t b : Text} (hne : p ≠ []) (hp : IsNumber p) (ht : '.' ∉ t)
    (hlen : (t ++ b).length ≤ 2) (hb : ∀ c ∈ b, isBlank c = true)
    (hx : s = '.' → x.length ≤ 2) :
    read? (p ++ '.' :: (t ++ b ++ s :: (x ++ s :: y))) = none := by
  cases hread : read? (p ++ '.' :: (t ++ b ++ s :: (x ++ s :: y))) with
  | none => rfl
  | some r =>
    exfalso
    obtain ⟨-, q, e, tail, date, hv, htail, hqe, hcolon, hparts, -⟩ :=
      read?_of_digits hne hp rfl rfl (by decide) hread
    have htb : ∀ c ∈ t ++ b, (c == '.') = false := by
      intro c hc
      rw [beq_eq_false_iff_ne]
      rintro rfl
      obtain hc | hc := List.mem_append.mp hc
      · exact ht hc
      · cases hb _ hc
    have hq : ∀ c ∈ q, (c == '.') = false :=
      fun c hc => beq_eq_false_iff_ne.mpr (hqe c (by simp [hc])).2
    by_cases hdot : s = '.'
    · subst hdot
      obtain ⟨rfl, -, hrest⟩ := append_cons_inj htb hq rfl rfl hv
      have he : '.' ∉ e := fun hmem => (hqe '.' (by simp [hmem])).2 rfl
      obtain ⟨c, v, hc, rfl⟩ := exists_separator hs he htail hrest
      obtain rfl : v = [] := by
        have hshort := hx rfl
        have hpos := List.length_pos_iff.mpr hparts.isNumber.2.2.1
        rw [List.length_append, List.length_cons] at hshort
        exact List.length_eq_zero_iff.mp (by omega)
      have htext : p ++ '.' :: (t ++ b ++ '.' :: (e ++ [c] ++ '.' :: y)) =
          (p ++ '.' :: (t ++ b ++ '.' :: e)) ++ ([c] ++ '.' :: y) := by simp
      rw [htext, read?_of_second_mark ((hp.startsWithDigit hne).append _) _ hcolon (by simp)
        (by simpa using hc) rfl rfl (by decide)] at hread
      · cases hread
      · intro d hd
        rw [List.mem_append, List.mem_cons, List.mem_append, List.mem_cons] at hd
        obtain hd | rfl | hd | rfl | hd := hd
        · exact isSeparator_of_isDigit (hp d hd)
        · rfl
        · exact (hqe d (List.mem_append_left _ hd)).1
        · rfl
        · exact (hqe d (List.mem_append_right _ hd)).1
    · obtain ⟨v, rfl, hrest⟩ | ⟨v, hsplit, hrest⟩ := List.append_eq_append_iff.mp hv
      · cases v with
        | nil => exact hdot (List.cons.inj hrest).1
        | cons d v =>
          obtain ⟨rfl, -⟩ := List.cons.inj hrest
          obtain ⟨k, hk⟩ : ∃ k, 3 - (t ++ b).length = k + 1 :=
            Nat.exists_eq_add_one.mpr (by omega)
          refine hparts.not_mem hs ?_
          rw [List.take_append, hk, List.take_succ_cons]
          simp
      · cases v with
        | nil => exact hdot (List.cons.inj hrest).1.symm
        | cons d v =>
          obtain ⟨rfl, -⟩ := List.cons.inj hrest
          have := htb '.' (by simp [hsplit])
          cases this

/-- An accepted text with digits before its first mark starts with a date between such marks. -/
theorem read?_of_whole {p : Text} (hne : p ≠ []) (hp : IsNumber p)
    (hx : x.length ≤ 2 ∨ s ≠ '.' ∧ s ∉ x) (h : read? (p ++ s :: (x ++ s :: y)) = some r) :
    ∃ e tail date, y = e ++ tail ∧ EndsToken tail ∧ DateParts p x e date ∧ r.IsOf date := by
  have hs' : s.isDigit = false ∧ s ≠ ':' := by
    obtain rfl | rfl | rfl := hs <;> decide
  obtain ⟨-, q, e, tail, date, hv, htail, hqe, -, hparts, hof⟩ :=
    read?_of_digits hne hp hs'.1 (isSeparator_of_mark hs) hs'.2 h
  have hq : ∀ c ∈ q, (c == s) = false :=
    fun c hc => beq_eq_false_iff_ne.mpr (hqe c (List.mem_append_left _ hc)).2
  by_cases hmem : s ∈ x
  · exfalso
    obtain ⟨x₁, x₂, rfl, hx₁⟩ := List.eq_append_cons_of_mem hmem
    have hx₁' : ∀ c ∈ x₁, (c == s) = false := by
      intro c hc
      rw [beq_eq_false_iff_ne]
      rintro rfl
      exact hx₁ hc
    rw [List.append_assoc, List.cons_append] at hv
    obtain ⟨rfl, -, hrest⟩ := append_cons_inj hx₁' hq (by simp) (by simp) hv
    have hlen := hx.resolve_right fun hnot => hnot.2 hmem
    have hpos := List.length_pos_iff.mpr hparts.ne_nil
    rw [List.length_append, List.length_cons] at hlen
    obtain rfl : x₂ = [] := List.length_eq_zero_iff.mp (by omega)
    obtain ⟨d, e, rfl⟩ := List.exists_cons_of_ne_nil hparts.isNumber.2.2.1
    obtain ⟨rfl, -⟩ := List.cons.inj hrest
    exact (hqe s (by simp)).2 rfl
  · have hx' : ∀ c ∈ x, (c == s) = false := by
      intro c hc
      rw [beq_eq_false_iff_ne]
      rintro rfl
      exact hmem hc
    obtain ⟨rfl, -, hrest⟩ := append_cons_inj hx' hq (by simp) (by simp) hv
    exact ⟨e, tail, date, hrest, htail, hparts, hof⟩

/-- An accepted text with a number before its first mark starts with a date between such marks. -/
theorem read?_of_part (hnan : (numberOf a).isNaN = false) (ha : a.length ≤ 4)
    (hx : x.length ≤ 2 ∨ s ≠ '.' ∧ s ∉ x)
    (h : read? (a.dropWhile isBlank ++ s :: (x ++ s :: y)) = some r) :
    ∃ e tail date, IsNumber (a.dropWhile isBlank) ∧ trim a = a.dropWhile isBlank ∧ y = e ++ tail ∧
      EndsToken tail ∧ DateParts (a.dropWhile isBlank) x e date ∧ r.IsOf date := by
  obtain ⟨b, hdrop, hb⟩ := exists_blanks (a.dropWhile isBlank)
  change _ = trim a ++ b at hdrop
  have hlen : (a.dropWhile isBlank).length ≤ 4 := ((a.dropWhile_suffix isBlank).length_le).trans ha
  rw [hdrop, List.length_append] at hlen
  have hstart := startsNumber_trim hnan (by omega)
  rw [hdrop] at h ⊢
  have hmark : s.isAlphanum = false ∧ s ≠ '(' := by
    obtain rfl | rfl | rfl := hs <;> decide
  generalize trim a = u at *
  cases hstart with
  | blank =>
    cases b with
    | nil => simp [read?_of_mark hmark.1 (isSeparator_of_mark hs) hmark.2] at h
    | cons c b =>
      have hc := List.head_dropWhile_not isBlank (l := a) (by simp [hdrop])
      simp [hdrop, hb c] at hc
  | @marked c t hc =>
    have hc' : c.isAlphanum = false ∧ isSeparator c = false ∧ c ≠ '(' := by
      obtain rfl | rfl | rfl := hc <;> decide
    rw [List.cons_append, List.cons_append, read?_of_mark hc'.1 hc'.2.1 hc'.2.2] at h
    cases h
  | whole hne hp =>
    by_cases hbnil : b = []
    · subst hbnil
      rw [List.append_nil] at h ⊢
      obtain ⟨e, tail, date, hy, htail, hparts, hof⟩ := read?_of_whole hs hne hp hx h
      exact ⟨e, tail, date, hp, rfl, hy, htail, hparts, hof⟩
    · rw [List.append_assoc, read?_of_blank_before_mark hs hne hp hbnil hb] at h
      cases h
  | @point p t hne hp ht =>
    have hpos := List.length_pos_iff.mpr hne
    rw [List.length_append, List.length_cons] at hlen
    have htext : p ++ '.' :: t ++ b ++ s :: (x ++ s :: y) =
        p ++ '.' :: (t ++ b ++ s :: (x ++ s :: y)) := by simp
    rw [htext, read?_of_point hs hne hp ht (by rw [List.length_append]; omega) hb
      (fun hdot => hx.resolve_right fun hnot => hnot.1 hdot)] at h
    cases h
  | @exponent p t c hne hp hc =>
    have hc' : c.isDigit = false ∧ isSeparator c = false ∧ c ≠ ':' := by
      obtain rfl | rfl := hc <;> decide
    rw [List.append_assoc, List.append_assoc] at h
    obtain ⟨hz, -⟩ := read?_of_digits hne hp hc'.1 hc'.2.1 hc'.2.2 h
    obtain rfl | rfl := hc <;> simp at hz

end

end Loose

end Coercion
