import Coercion.Proofs.Double.Integers
import Coercion.Proofs.Text.Numerals
import Coercion.Proofs.Text.Splitting
import Coercion.Reading.Shape

namespace Coercion

open Text

theorem splitDigits_append {p t : Text} (hp : IsNumber p) (ht : ∀ c ∈ t.head?, c.isDigit = false) :
    splitDigits (p ++ t) = (p, t) := by
  have htake : t.takeWhile Char.isDigit = [] := by
    cases t with
    | nil => rfl
    | cons c t => simp [ht c rfl]
  have hdrop : t.dropWhile Char.isDigit = t := by
    cases t with
    | nil => rfl
    | cons c t => simp [ht c rfl]
  rw [splitDigits, List.takeWhile_append_of_pos hp, List.dropWhile_append_of_pos hp, htake, hdrop,
    List.append_nil]

theorem splitSign_of_isDigit {c : Char} {t : Text} (h : c.isDigit = true) :
    splitSign (c :: t) = (false, c :: t) := by
  unfold splitSign
  split
  · simp_all
  · simp_all
  · rfl

theorem Literal.read?_of_isNumber {p : Text} (hne : p ≠ []) (hp : IsNumber p) :
    Literal.read? p = some ⟨false, p, [], 0⟩ := by
  obtain ⟨c, t, rfl⟩ := List.exists_cons_of_ne_nil hne
  have hsign := splitSign_of_isDigit (t := t) (hp c (by simp))
  have hdigits := splitDigits_append (t := []) hp (by simp)
  rw [List.append_nil] at hdigits
  simp [Literal.read?, Literal.splitFraction, hsign, hdigits]

theorem Literal.toDouble_of_isNumber {p : Text} (hp : IsNumber p) (hlen : p.length ≤ 15) :
    Literal.toDouble ⟨false, p, [], 0⟩ = .ofInt (toNat p) := by
  have hlt : toNat p < 10 ^ 15 := (toNat_lt hp).trans_le (Nat.pow_le_pow_right (by decide) hlen)
  have hdigits : (ofNat (toNat p)).length ≤ 15 :=
    (Nat.length_toDigits_le_iff (by decide) (by decide)).mpr hlt
  have hpos : ¬ ((toNat p : Int) < 0) := by omega
  unfold Literal.toDouble Double.ofInt
  simp only [Literal.significand, Literal.scale, List.append_nil, List.length_nil, hpos]
  split_ifs with h0 h1 h2
  · simp only [h0]
    rfl
  · omega
  · omega
  · simp

/-- A row of digits, perhaps between blanks, denotes its integer. -/
theorem numberOf_of_trim {t p : Text} (ht : trim t = p) (hne : p ≠ []) (hp : IsNumber p)
    (hlen : p.length ≤ 15) : numberOf t = .ofInt (toNat p) := by
  obtain ⟨c, u, rfl⟩ := List.exists_cons_of_ne_nil hne
  have hc := hp c (by simp)
  have hword : ¬ (c :: u = "Infinity".toList) := by
    intro h
    obtain rfl : c = 'I' := (List.cons.inj h).1
    simp at hc
  unfold numberOf
  simp only [ht, splitSign_of_isDigit hc]
  rw [if_neg (by simp), if_neg (by simpa using hword), Literal.read?_of_isNumber hne hp]
  exact Literal.toDouble_of_isNumber hp hlen

theorem numberOf_of_isDigits {k : Nat} {p : Text} (h : IsDigits (k + 1) p) (hk : k < 15) :
    numberOf p = .ofInt (toNat p) :=
  numberOf_of_trim (trim_of_isWord h.isNumber.isWord) h.ne_nil h.isNumber
    (by rw [h.length_eq]; omega)

/-- What starts with a digit and is no literal denotes no number. -/
theorem numberOf_of_startsWithDigit {t : Text} (htrim : trim t = t) (ht : StartsWithDigit t)
    (hread : Literal.read? t = none) : numberOf t = .nan := by
  obtain ⟨c, u, rfl, hc⟩ := ht
  unfold numberOf
  simp only [htrim, hread]
  rw [splitSign_of_isDigit hc, if_neg (by simp), if_neg]
  · rfl
  · intro hword
    obtain rfl : c = 'I' := (List.cons.inj (beq_iff_eq.mp hword)).1
    cases hc

theorem numberOf_of_hyphen {p t : Text} (hne : p ≠ []) (hp : IsNumber p)
    (htrim : trim (p ++ '-' :: t) = p ++ '-' :: t) : numberOf (p ++ '-' :: t) = .nan := by
  refine numberOf_of_startsWithDigit htrim ((hp.startsWithDigit hne).append _) ?_
  have hwhole := splitDigits_append (t := '-' :: t) hp (by simp)
  obtain ⟨c, u, rfl⟩ := List.exists_cons_of_ne_nil hne
  rw [List.cons_append] at hwhole ⊢
  simp only [Literal.read?, splitSign_of_isDigit (hp c (by simp)), hwhole]
  simp [Literal.splitFraction]

theorem numberOf_of_marks {p q e : Text} {s : Char} (hne : p ≠ []) (hp : IsNumber p)
    (hq : IsNumber q) (he : IsWord e) (hs : s ∈ ['/', '-', '.']) :
    numberOf (p ++ s :: (q ++ s :: e)) = .nan := by
  have hread : Literal.read? (p ++ s :: (q ++ s :: e)) = none := by
    have hmark : s.isDigit = false := by
      simp only [List.mem_cons, List.not_mem_nil, or_false] at hs
      obtain rfl | rfl | rfl := hs <;> rfl
    have hwhole := splitDigits_append (t := s :: (q ++ s :: e)) hp (by simpa using hmark)
    have hfraction := splitDigits_append (t := s :: e) hq (by simpa using hmark)
    obtain ⟨c, u, rfl⟩ := List.exists_cons_of_ne_nil hne
    rw [List.cons_append] at hwhole ⊢
    simp only [Literal.read?, splitSign_of_isDigit (hp c (by simp)), hwhole]
    simp only [List.mem_cons, List.not_mem_nil, or_false] at hs
    obtain rfl | rfl | rfl := hs <;> simp [Literal.splitFraction, hfraction]
  have hblank : ∀ x ∈ p ++ s :: (q ++ s :: e), isBlank x = false := by
    intro x hx
    have hmark : isBlank s = false := by
      simp only [List.mem_cons, List.not_mem_nil, or_false] at hs
      obtain rfl | rfl | rfl := hs <;> rfl
    simp only [List.mem_append, List.mem_cons] at hx
    obtain hx | rfl | hx | rfl | hx := hx
    · exact isBlank_of_isDigit (hp x hx)
    · exact hmark
    · exact isBlank_of_isDigit (hq x hx)
    · exact hmark
    · exact isBlank_of_isAlphanum (he x hx)
  have htrim : trim (p ++ s :: (q ++ s :: e)) = p ++ s :: (q ++ s :: e) :=
    trim_of_ends (fun x hx => hblank x (List.mem_of_mem_head? hx))
      fun x hx => hblank x (List.mem_of_mem_getLast? hx)
  exact numberOf_of_startsWithDigit htrim ((hp.startsWithDigit hne).append _) hread

/-- How a part that denotes a number looks at its start. -/
inductive StartsNumber : Text → Prop
  | blank : StartsNumber []
  | marked {c : Char} {t : Text} (hc : c = '+' ∨ c = '-' ∨ c = '.') : StartsNumber (c :: t)
  | whole {p : Text} (hne : p ≠ []) (hp : IsNumber p) : StartsNumber p
  | point {p t : Text} (hne : p ≠ []) (hp : IsNumber p) (ht : '.' ∉ t) :
      StartsNumber (p ++ '.' :: t)
  | exponent {p t : Text} {c : Char} (hne : p ≠ []) (hp : IsNumber p) (hc : c = 'e' ∨ c = 'E') :
      StartsNumber (p ++ c :: t)

theorem exists_splitDigits (t : Text) : ∃ p u, splitDigits t = (p, u) ∧ t = p ++ u ∧ IsNumber p :=
  ⟨_, _, rfl, List.takeWhile_append_dropWhile.symm, fun _ hc => List.mem_takeWhile_imp hc⟩

theorem not_mem_of_isNumber {p : Text} (hp : IsNumber p) {c : Char} (hc : c.isDigit = false) :
    c ∉ p := by
  intro hmem
  simp [hp c hmem] at hc

theorem splitSign_cases (t : Text) : t = (splitSign t).2 ∧ (splitSign t).1 = false ∨
    ∃ c, (c = '+' ∨ c = '-') ∧ t = c :: (splitSign t).2 := by
  unfold splitSign
  split
  · exact .inr ⟨'-', .inr rfl, rfl⟩
  · exact .inr ⟨'+', .inl rfl, rfl⟩
  · exact .inl ⟨rfl, rfl⟩

namespace Literal

theorem not_mem_of_readExponent? {t : Text} {n : Int} (h : readExponent? t = some n) :
    '.' ∉ t := by
  by_cases hnum : isNumeral (splitSign t).2 = true
  · have hdot := not_mem_of_isNumber ((isNumeral_iff _).mp hnum).2 (c := '.') rfl
    obtain ⟨ht, -⟩ | ⟨c, hc, ht⟩ := splitSign_cases t
    · rwa [ht]
    · rw [ht, List.mem_cons, not_or]
      refine ⟨?_, hdot⟩
      obtain rfl | rfl := hc <;> decide
  · simp [readExponent?, hnum] at h

theorem startsNumber {t : Text} {l : Literal} (h : read? t = some l) : StartsNumber t := by
  cases t with
  | nil => exact .blank
  | cons c t =>
    obtain ⟨hsplit, hpos⟩ | ⟨d, hd, ht⟩ := splitSign_cases (c :: t)
    · obtain ⟨p, u, hdigits, htext, hp⟩ := exists_splitDigits (c :: t)
      unfold read? at h
      dsimp only at h
      rw [← hsplit, hdigits] at h
      dsimp only at h
      rw [htext]
      cases u with
      | nil =>
        rw [List.append_nil]
        rw [List.append_nil] at htext
        exact .whole (by simp [← htext]) hp
      | cons d u =>
        by_cases hdot : d = '.'
        · subst hdot
          obtain ⟨q, v, hfraction, rfl, hq⟩ := exists_splitDigits u
          simp only [splitFraction, hfraction] at h
          by_cases hne : p = []
          · rw [hne]
            exact .marked (.inr (.inr rfl))
          rw [if_neg (by simp [hne])] at h
          refine .point hne hp ?_
          rw [List.mem_append, not_or]
          refine ⟨not_mem_of_isNumber hq rfl, ?_⟩
          cases v with
          | nil => exact List.not_mem_nil
          | cons mark r =>
            dsimp only at h
            split_ifs at h with hmark
            obtain ⟨n, hexponent, -⟩ := Option.map_eq_some_iff.mp h
            rw [List.mem_cons, not_or]
            refine ⟨?_, not_mem_of_readExponent? hexponent⟩
            rintro rfl
            cases hmark
        · simp only [splitFraction, List.cons.injEq, hdot, false_and, imp_self, implies_true] at h
          split_ifs at h with hempty hmark
          refine .exponent (by simpa using hempty) hp ?_
          simpa using hmark
    · obtain ⟨rfl, -⟩ := List.cons.inj ht
      exact .marked (by tauto)

end Literal

theorem cases_of_numberOf {t : Text} (h : (numberOf t).isNaN = false) : trim t = [] ∨
    (splitSign (trim t)).2 = "Infinity".toList ∨ ∃ l, Literal.read? (trim t) = some l := by
  unfold numberOf at h
  dsimp only at h
  split_ifs at h with hempty hword
  · exact .inl (List.isEmpty_iff.mp hempty)
  · exact .inr (.inl (beq_iff_eq.mp hword))
  · cases hread : Literal.read? (trim t) with
    | none => simp [hread, Double.isNaN] at h
    | some l => exact .inr (.inr ⟨l, rfl⟩)

theorem startsNumber_trim {t : Text} (h : (numberOf t).isNaN = false) (hlen : (trim t).length < 8) :
    StartsNumber (trim t) := by
  obtain hnil | hword | ⟨l, hread⟩ := cases_of_numberOf h
  · rw [hnil]
    exact .blank
  · exfalso
    have height : "Infinity".toList.length = 8 := rfl
    obtain ⟨ht, -⟩ | ⟨c, -, ht⟩ := splitSign_cases (trim t)
    · rw [ht, hword] at hlen
      omega
    · rw [ht, List.length_cons, hword] at hlen
      omega
  · exact Literal.startsNumber hread

end Coercion
