import Coercion.Proofs.Text.Words

namespace Coercion.Text

section

variable {p : Char → Bool} {a t : Text} {c : Char}

theorem split_of_forall (h : ∀ d ∈ a, p d = false) : split p a = [a] := by
  induction a with
  | nil => rfl
  | cons d a ih =>
    rw [split, if_neg (by simp [h d]), ih fun e he => h e (by simp [he])]
    rfl

theorem split_append_cons (h : ∀ d ∈ a, p d = false) (hc : p c = true) :
    split p (a ++ c :: t) = a :: split p t := by
  induction a with
  | nil => simp [split, hc]
  | cons d a ih =>
    rw [List.cons_append, split, if_neg (by simp [h d]), ih fun e he => h e (by simp [he])]
    rfl

theorem split_inversion {parts : List Text} (h : split p t = a :: parts) :
    (∀ d ∈ a, p d = false) ∧
      (t = a ∧ parts = [] ∨ ∃ c u, t = a ++ c :: u ∧ p c = true ∧ split p u = parts) := by
  induction t generalizing a parts with
  | nil =>
    obtain ⟨rfl, rfl⟩ : [] = a ∧ [] = parts := by simpa [split] using h
    exact ⟨by simp, .inl ⟨rfl, rfl⟩⟩
  | cons d t ih =>
    by_cases hd : p d = true
    · rw [split, if_pos hd] at h
      obtain ⟨rfl, rfl⟩ : [] = a ∧ split p t = parts := by simpa using h
      exact ⟨by simp, .inr ⟨d, t, rfl, hd, rfl⟩⟩
    · rw [split, if_neg hd] at h
      cases hs : split p t with
      | nil => simp [hs] at h
      | cons b rest =>
        obtain ⟨rfl, rfl⟩ : d :: b = a ∧ rest = parts := by simpa [hs] using h
        obtain ⟨hb, hrest⟩ := ih hs
        refine ⟨by simpa [hd] using hb, ?_⟩
        obtain ⟨rfl, rfl⟩ | ⟨c, u, rfl, hc, hu⟩ := hrest
        · exact .inl ⟨rfl, rfl⟩
        · exact .inr ⟨c, u, rfl, hc, hu⟩

theorem exists_append_of_head_split {b : Text} (h : (split p t).head? = some b) :
    ∃ u, t = b ++ u ∧ ∀ d ∈ u.head?, p d = true := by
  obtain ⟨parts, hparts⟩ := List.head?_eq_some_iff.mp h
  obtain ⟨-, ⟨rfl, -⟩ | ⟨d, u, rfl, hd, -⟩⟩ := split_inversion hparts
  · exact ⟨[], by simp, by simp⟩
  · exact ⟨d :: u, rfl, by simpa using hd⟩

theorem append_cons_inj {b u : Text} {d : Char} (ha : ∀ x ∈ a, p x = false)
    (hb : ∀ x ∈ b, p x = false) (hc : p c = true) (hd : p d = true)
    (h : a ++ c :: t = b ++ d :: u) : a = b ∧ c = d ∧ t = u := by
  have hsplit := congrArg (split p) h
  rw [split_append_cons ha hc, split_append_cons hb hd] at hsplit
  obtain rfl := (List.cons.inj hsplit).1
  obtain ⟨rfl, rfl⟩ := List.cons.inj (List.append_cancel_left h)
  exact ⟨rfl, rfl, rfl⟩

theorem split_ne_nil : split p t ≠ [] := by
  induction t with
  | nil => simp [split]
  | cons d t ih =>
    rw [split]
    split_ifs
    · simp
    · cases hs : split p t with
      | nil => exact absurd hs ih
      | cons b rest => simp

theorem split_append (a t : Text) (hc : p c = true) :
    split p (a ++ c :: t) = split p a ++ split p t := by
  induction a with
  | nil => simp [split, hc]
  | cons d a ih =>
    rw [List.cons_append, split, split, ih]
    split_ifs
    · rfl
    · obtain ⟨b, rest, hs⟩ := List.exists_cons_of_ne_nil (split_ne_nil (p := p) (t := a))
      rw [hs]
      rfl

theorem mem_of_mem_split {d : Char} (ha : a ∈ split p t) (hd : d ∈ a) : d ∈ t := by
  induction t generalizing a with
  | nil =>
    obtain rfl : a = [] := by simpa [split] using ha
    exact hd
  | cons e t ih =>
    rw [split] at ha
    split_ifs at ha
    · obtain rfl | ha := List.mem_cons.mp ha
      · cases hd
      · exact List.mem_cons_of_mem e (ih ha hd)
    · obtain ⟨b, rest, hs⟩ := List.exists_cons_of_ne_nil (split_ne_nil (p := p) (t := t))
      rw [hs] at ih
      rw [hs, List.modifyHead_cons, List.mem_cons] at ha
      obtain rfl | ha := ha
      · obtain rfl | hd := List.mem_cons.mp hd
        · exact List.mem_cons_self
        · exact List.mem_cons_of_mem e (ih List.mem_cons_self hd)
      · exact List.mem_cons_of_mem e (ih (List.mem_cons_of_mem b ha) hd)

end

theorem trim_of_ends {t : Text} (hhead : ∀ c ∈ t.head?, isBlank c = false)
    (hlast : ∀ c ∈ t.getLast?, isBlank c = false) : trim t = t := by
  have hdrop {u : Text} (h : ∀ c ∈ u.head?, isBlank c = false) : u.dropWhile isBlank = u := by
    cases u with
    | nil => rfl
    | cons c u => simp [h c rfl]
  unfold trim
  rw [hdrop hhead, hdrop (by simpa using hlast), List.reverse_reverse]

theorem trim_of_isWord {p : Text} (hp : IsWord p) : trim p = p := by
  apply trim_of_ends
  · exact fun c hc => isBlank_of_isAlphanum (hp c (List.mem_of_mem_head? hc))
  · exact fun c hc => isBlank_of_isAlphanum (hp c (List.mem_of_mem_getLast? hc))

theorem trim_blanks {b t a : Text} (hb : ∀ c ∈ b, isBlank c = true)
    (ha : ∀ c ∈ a, isBlank c = true) (ht : ∀ c ∈ t, isBlank c = false) :
    trim (b ++ t ++ a) = t := by
  have hend : (t ++ a).reverse.dropWhile isBlank = t.reverse := by
    have hself : t.reverse.dropWhile isBlank = t.reverse :=
      List.dropWhile_eq_self_iff.mpr fun hpos => by
        simpa using ht _ (List.mem_reverse.mp (List.getElem_mem hpos))
    rw [List.reverse_append, List.dropWhile_append_of_pos (by simpa using ha), hself]
  rw [trim, List.append_assoc, List.dropWhile_append_of_pos hb]
  cases t with
  | nil =>
    rw [List.nil_append, List.dropWhile_eq_nil_iff.mpr ha]
    rfl
  | cons c t =>
    rw [List.cons_append, List.dropWhile_cons_of_neg (by simp [ht]), ← List.cons_append, hend,
      List.reverse_reverse]

theorem dropWhile_append_cons {p : Char → Bool} {c : Char} (h : p c = false) (a t : Text) :
    (a ++ c :: t).dropWhile p = a.dropWhile p ++ c :: t := by
  induction a with
  | nil => simp [h]
  | cons d a ih =>
    by_cases hd : p d = true
    · simp [hd, ih]
    · simp [hd]

theorem exists_dropped_end (p : Char → Bool) (t : Text) :
    ∃ b, t = (t.reverse.dropWhile p).reverse ++ b ∧ ∀ c ∈ b, p c = true := by
  refine ⟨(t.reverse.takeWhile p).reverse, ?_, fun c hc => ?_⟩
  · rw [← List.reverse_append, List.takeWhile_append_dropWhile, List.reverse_reverse]
  · exact List.mem_takeWhile_imp (List.mem_reverse.mp hc)

/-- A text without its blanks at the end is the text up to them. -/
theorem exists_blanks (t : Text) :
    ∃ b, t = (t.reverse.dropWhile isBlank).reverse ++ b ∧ ∀ c ∈ b, isBlank c = true :=
  exists_dropped_end isBlank t

theorem mem_of_mem_trim {t : Text} {c : Char} (h : c ∈ trim t) : c ∈ t :=
  (List.dropWhile_suffix isBlank).mem
    (List.mem_reverse.mp ((List.dropWhile_suffix isBlank).mem (List.mem_reverse.mp h)))

theorem mem_trim {t : Text} {c : Char} (hc : isBlank c = false) (h : c ∈ t) : c ∈ trim t := by
  rw [← List.takeWhile_append_dropWhile (p := isBlank) (l := t), List.mem_append] at h
  have hdrop := h.resolve_left fun hstart => by simp [List.mem_takeWhile_imp hstart] at hc
  obtain ⟨b, hb, hblank⟩ := exists_blanks (t.dropWhile isBlank)
  rw [hb, List.mem_append] at hdrop
  exact hdrop.resolve_right fun hend => by simp [hblank c hend] at hc

/-- Trimming a text takes nothing out of a part of it that ends without blanks. -/
theorem exists_trim_append (a y : Text) {m : Text} (hne : m ≠ [])
    (hhead : ∀ c ∈ m.head?, isBlank c = false) (hlast : ∀ c ∈ m.getLast?, isBlank c = false) :
    ∃ y' b, y = y' ++ b ∧ (∀ c ∈ b, isBlank c = true) ∧
      trim (a ++ (m ++ y)) = a.dropWhile isBlank ++ (m ++ y') := by
  have hdrop {k : Text} (hk : k ≠ []) (hc : ∀ c ∈ k.head?, isBlank c = false) (b t : Text) :
      (b ++ (k ++ t)).dropWhile isBlank = b.dropWhile isBlank ++ (k ++ t) := by
    obtain ⟨c, k, rfl⟩ := List.exists_cons_of_ne_nil hk
    exact dropWhile_append_cons (hc c rfl) b (k ++ t)
  obtain ⟨b, hy, hb⟩ := exists_blanks y
  refine ⟨_, b, hy, hb, ?_⟩
  rw [trim, hdrop hne hhead, List.reverse_append, List.reverse_append, List.append_assoc,
    hdrop (by simpa using hne) (by simpa using hlast)]
  simp

/-- Trimming a text leaves two marks in it and what is between them. -/
theorem trim_append_marks (a x y : Text) {s : Char} (h : isBlank s = false) :
    ∃ y' b, y = y' ++ b ∧ (∀ c ∈ b, isBlank c = true) ∧
      trim (a ++ s :: (x ++ s :: y)) = a.dropWhile isBlank ++ s :: (x ++ s :: y') := by
  have hlast : (s :: (x ++ [s])).getLast? = some s := by
    rw [← List.cons_append, List.getLast?_concat]
  have htrim := exists_trim_append a y (m := s :: (x ++ [s])) (by simp) (by simpa using h)
    (by simpa [hlast] using h)
  simpa using htrim

theorem isBlank_head_trim (t : Text) : ∀ c ∈ (trim t).head?, isBlank c = false := by
  intro c hc
  obtain ⟨b, hdrop, -⟩ := exists_blanks (t.dropWhile isBlank)
  change _ = trim t ++ b at hdrop
  obtain ⟨u, hu⟩ : ∃ u, trim t = c :: u := by
    cases ht : trim t with
    | nil => simp [ht] at hc
    | cons d u => exact ⟨u, by simpa [ht] using hc⟩
  have hhead := List.head_dropWhile_not isBlank (l := t) (by simp [hdrop, hu])
  simpa [hdrop, hu] using hhead

end Coercion.Text
