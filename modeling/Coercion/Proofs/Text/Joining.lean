import Coercion.Proofs.Text.Splitting

namespace Coercion.Text

/-- Parts without marks come back from the text that joins them by a mark. -/
theorem split_intercalate {p : Char → Bool} {c : Char} {parts : List Text} (hc : p c = true)
    (hne : parts ≠ []) (h : ∀ a ∈ parts, ∀ d ∈ a, p d = false) :
    split p (List.intercalate [c] parts) = parts := by
  induction parts with
  | nil => exact absurd rfl hne
  | cons a parts ih =>
    have ha : ∀ d ∈ a, p d = false := h a (by simp)
    cases parts with
    | nil => rw [List.intercalate_singleton, split_of_forall ha]
    | cons b parts =>
      have hrest := ih (by simp) fun e he => h e (by simp [he])
      rw [List.intercalate_cons_cons, List.append_assoc, List.singleton_append,
        split_append_cons ha hc, hrest]

theorem isAscii_intercalate {parts : List Text} (h : ∀ a ∈ parts, IsAscii a) :
    IsAscii (List.intercalate [' '] parts) := by
  induction parts with
  | nil => exact isAscii_nil
  | cons a parts ih =>
    have hrest := ih fun b hb => h b (by simp [hb])
    cases parts with
    | nil => simpa using h a (by simp)
    | cons b parts =>
      rw [List.intercalate_cons_cons, isAscii_append, isAscii_append]
      exact ⟨⟨h a (by simp), isAscii_cons.mpr ⟨by decide, isAscii_nil⟩⟩, hrest⟩

theorem mem_intercalate {a : Text} {parts : List Text} (ha : a ∈ parts) {c : Char} (hc : c ∈ a) :
    c ∈ List.intercalate [' '] parts := by
  induction parts with
  | nil => cases ha
  | cons b parts ih =>
    cases parts with
    | nil =>
      obtain rfl := List.mem_singleton.mp ha
      rwa [List.intercalate_singleton]
    | cons d parts =>
      rw [List.intercalate_cons_cons, List.mem_append, List.mem_append]
      obtain rfl | ha := List.mem_cons.mp ha
      · exact .inl (.inl hc)
      · exact .inr (ih ha)

/-- Something without blanks in it. -/
structure IsSolid (a : Text) : Prop where
  ne_nil : a ≠ []
  isBlank_eq : ∀ c ∈ a, isBlank c = false

theorem IsDateText.isSolid {a : Text} (hne : a ≠ []) (h : IsDateText a) : IsSolid a := by
  refine ⟨hne, fun c hc => ?_⟩
  obtain hc | hc := h c hc
  · exact isBlank_of_isAlphanum hc
  · simp only [List.mem_cons, List.not_mem_nil, or_false] at hc
    obtain rfl | rfl | rfl | rfl := hc <;> rfl

section

variable {parts : List Text} (h : ∀ a ∈ parts, IsSolid a)

include h

theorem isBlank_head_intercalate :
    ∀ c ∈ (List.intercalate [' '] parts).head?, isBlank c = false := by
  cases parts with
  | nil => simp
  | cons a parts =>
    have ha := h a (by simp)
    have hhead : (List.intercalate [' '] (a :: parts)).head? = a.head? := by
      cases parts with
      | nil => rw [List.intercalate_singleton]
      | cons b parts =>
        rw [List.intercalate_cons_cons, List.append_assoc, List.head?_append_of_ne_nil _ ha.ne_nil]
    rw [hhead]
    exact fun c hc => ha.isBlank_eq c (List.mem_of_mem_head? hc)

theorem isBlank_getLast_intercalate :
    ∀ c ∈ (List.intercalate [' '] parts).getLast?, isBlank c = false := by
  induction parts with
  | nil => simp
  | cons a parts ih =>
    have ha := h a (by simp)
    have hrest := ih fun b hb => h b (by simp [hb])
    cases parts with
    | nil =>
      rw [List.intercalate_singleton]
      exact fun c hc => ha.isBlank_eq c (List.mem_of_mem_getLast? hc)
    | cons b parts =>
      have hb := (h b (by simp)).ne_nil
      have hne : List.intercalate [' '] (b :: parts) ≠ [] := by
        cases parts with
        | nil => rwa [List.intercalate_singleton]
        | cons e parts => simp
      rwa [List.intercalate_cons_cons, List.getLast?_append_of_ne_nil _ hne]

theorem trim_intercalate : trim (List.intercalate [' '] parts) = List.intercalate [' '] parts :=
  trim_of_ends (isBlank_head_intercalate h) (isBlank_getLast_intercalate h)

theorem split_spaces (hne : parts ≠ []) :
    split (· == ' ') (List.intercalate [' '] parts) = parts := by
  apply split_intercalate (by rfl) hne
  intro a ha c hc
  rw [beq_eq_false_iff_ne]
  rintro rfl
  have hblank := (h a ha).isBlank_eq _ hc
  cases hblank

end

end Coercion.Text
