import Coercion.Proofs.Text.Positions
import Mathlib.Data.List.TakeWhile

namespace Coercion.Text

theorem isUpper_iff (c : Char) : c.isUpper = true ↔ 65 ≤ c.toNat ∧ c.toNat ≤ 90 := by
  change decide (c.val ≥ 'A'.val ∧ c.val ≤ 'Z'.val) = true ↔ _
  rw [decide_eq_true_eq, ge_iff_le, UInt32.le_iff_toNat_le, UInt32.le_iff_toNat_le]
  rfl

theorem isLower_iff (c : Char) : c.isLower = true ↔ 97 ≤ c.toNat ∧ c.toNat ≤ 122 := by
  change (decide (c.val ≥ 'a'.val) && decide (c.val ≤ 'z'.val)) = true ↔ _
  rw [Bool.and_eq_true, decide_eq_true_eq, decide_eq_true_eq, ge_iff_le, UInt32.le_iff_toNat_le,
    UInt32.le_iff_toNat_le]
  rfl

theorem isDigit_iff (c : Char) : c.isDigit = true ↔ 48 ≤ c.toNat ∧ c.toNat ≤ 57 := by
  simp [Char.isDigit, UInt32.le_iff_toNat_le]

theorem isAlpha_iff (c : Char) : c.isAlpha = true ↔
    65 ≤ c.toNat ∧ c.toNat ≤ 90 ∨ 97 ≤ c.toNat ∧ c.toNat ≤ 122 := by
  rw [← isUpper_iff, ← isLower_iff, ← Bool.or_eq_true]
  rfl

theorem isAlphanum_iff (c : Char) : c.isAlphanum = true ↔
    65 ≤ c.toNat ∧ c.toNat ≤ 90 ∨ 97 ≤ c.toNat ∧ c.toNat ≤ 122 ∨ 48 ≤ c.toNat ∧ c.toNat ≤ 57 := by
  rw [← or_assoc, ← isAlpha_iff, ← isDigit_iff, ← Bool.or_eq_true]
  rfl

theorem isAlphanum_of_isDigit {c : Char} (h : c.isDigit = true) : c.isAlphanum = true := by
  simp [Char.isAlphanum, h]

theorem isAlphanum_of_isAlpha {c : Char} (h : c.isAlpha = true) : c.isAlphanum = true := by
  simp [Char.isAlphanum, h]

theorem utf8Size_of_isAlphanum {c : Char} (h : c.isAlphanum = true) : c.utf8Size = 1 := by
  rw [isAlphanum_iff] at h
  rw [Char.utf8Size_eq_one_iff, UInt32.le_iff_toNat_le]
  change c.toNat ≤ 127
  omega

theorem isBlank_of_isAlphanum {c : Char} (h : c.isAlphanum = true) : isBlank c = false := by
  rw [isAlphanum_iff] at h
  simp only [isBlank, Bool.or_eq_false_iff, Bool.and_eq_false_iff, decide_eq_false_iff_not,
    beq_eq_false_iff_ne]
  omega

theorem utf8Size_of_isDigit {c : Char} (h : c.isDigit = true) : c.utf8Size = 1 :=
  utf8Size_of_isAlphanum (isAlphanum_of_isDigit h)

theorem isBlank_of_isDigit {c : Char} (h : c.isDigit = true) : isBlank c = false :=
  isBlank_of_isAlphanum (isAlphanum_of_isDigit h)

theorem isDigit_of_isBlank {c : Char} (h : isBlank c = true) : c.isDigit = false := by
  rw [← Bool.not_eq_true]
  intro hdigit
  simp [isBlank_of_isDigit hdigit] at h

theorem beq_of_isDigit {c d : Char} (h : c.isDigit = true) (hd : d.isDigit = false) :
    (c == d) = false := by
  rw [beq_eq_false_iff_ne]
  rintro rfl
  simp [h] at hd

theorem utf8Size_of_isAlpha {c : Char} (h : c.isAlpha = true) : c.utf8Size = 1 :=
  utf8Size_of_isAlphanum (isAlphanum_of_isAlpha h)

theorem beq_of_isAlpha {c d : Char} (h : c.isAlpha = true) (hd : d.isAlpha = false) :
    (c == d) = false := by
  rw [beq_eq_false_iff_ne]
  rintro rfl
  simp [h] at hd

theorem not_isAlpha_of_isDigit {c : Char} (h : c.isDigit = true) : c.isAlpha = false := by
  rw [isDigit_iff] at h
  rw [Bool.eq_false_iff, ne_eq, isAlpha_iff]
  omega

theorem isAlpha_of_toLower {c : Char} (h : c.toLower.isAlpha = true) : c.isAlpha = true := by
  unfold Char.toLower at h
  split_ifs at h with hc
  · rw [isAlpha_iff]
    rw [ge_iff_le, UInt32.le_iff_toNat_le, UInt32.le_iff_toNat_le] at hc
    change 65 ≤ c.toNat ∧ c.toNat ≤ 90 at hc
    omega
  · exact h

theorem toLower_of_isDigit {c : Char} (h : c.isDigit = true) : c.toLower = c := by
  rw [isDigit_iff] at h
  unfold Char.toLower
  rw [dif_neg]
  rintro ⟨h1, -⟩
  rw [ge_iff_le, UInt32.le_iff_toNat_le] at h1
  change 65 ≤ c.toNat at h1
  omega

theorem sameLetters_congr {a b : Text} (h : sameLetters a b = true) (t : Text) :
    sameLetters t a = sameLetters t b := by
  rw [sameLetters, sameLetters, beq_iff_eq.mp h]

theorem ne_of_isAlphanum {c d : Char} (h : c.isAlphanum = true) (hd : d.isAlphanum = false) :
    c ≠ d := by
  rintro rfl
  simp [h] at hd

/-- Only letters and digits. -/
def IsWord (t : Text) : Prop := ∀ c ∈ t, c.isAlphanum = true

/-- Only digits. -/
def IsNumber (t : Text) : Prop := ∀ c ∈ t, c.isDigit = true

theorem IsNumber.isWord {t : Text} (h : IsNumber t) : IsWord t :=
  fun c hc => isAlphanum_of_isDigit (h c hc)

/-- Only letters, digits and the marks between the parts of a date. -/
def IsDateText (t : Text) : Prop := ∀ c ∈ t, c.isAlphanum = true ∨ c ∈ ['-', '/', '.', '_']

@[simp] theorem isDateText_cons {c : Char} {t : Text} : IsDateText (c :: t) ↔
    (c.isAlphanum = true ∨ c ∈ ['-', '/', '.', '_']) ∧ IsDateText t := by
  simp [IsDateText]

@[simp] theorem isDateText_append {a t : Text} :
    IsDateText (a ++ t) ↔ IsDateText a ∧ IsDateText t := by
  simp only [IsDateText, List.mem_append, or_imp, forall_and]

theorem IsDateText.isAscii {a : Text} (h : IsDateText a) : IsAscii a := by
  intro c hc
  obtain hc | hc := h c hc
  · exact utf8Size_of_isAlphanum hc
  · simp only [List.mem_cons, List.not_mem_nil, or_false] at hc
    obtain rfl | rfl | rfl | rfl := hc <;> decide

/-- A digit stands first. -/
def StartsWithDigit (t : Text) : Prop := ∃ c u, t = c :: u ∧ c.isDigit = true

namespace StartsWithDigit

variable {t : Text} (h : StartsWithDigit t)

include h

theorem append (u : Text) : StartsWithDigit (t ++ u) := by
  obtain ⟨c, t, rfl, hc⟩ := h
  exact ⟨c, t ++ u, rfl, hc⟩

theorem ne_nil : t ≠ [] := by
  obtain ⟨c, u, rfl, -⟩ := h
  exact List.cons_ne_nil c u

theorem head_ne {d : Char} (hd : d.isDigit = false) : t.head? ≠ some d := by
  obtain ⟨c, u, rfl, hc⟩ := h
  intro hhead
  obtain rfl : c = d := by simpa using hhead
  simp [hc] at hd

end StartsWithDigit

theorem IsNumber.startsWithDigit {t : Text} (h : IsNumber t) (hne : t ≠ []) :
    StartsWithDigit t := by
  obtain ⟨c, u, rfl⟩ := List.exists_cons_of_ne_nil hne
  exact ⟨c, u, rfl, h c (by simp)⟩

/-- A row of so many digits. -/
structure IsDigits (k : Nat) (t : Text) : Prop where
  isNumber : IsNumber t
  length_eq : t.length = k

namespace IsDigits

variable {t : Text}

theorem ne_nil {k : Nat} (h : IsDigits (k + 1) t) : t ≠ [] := by
  rintro rfl
  simpa using h.length_eq

theorem eq_nil (h : IsDigits 0 t) : t = [] :=
  List.eq_nil_of_length_eq_zero h.length_eq

theorem exists_cons {k : Nat} (h : IsDigits (k + 1) t) :
    ∃ c u, t = c :: u ∧ c.isDigit = true ∧ IsDigits k u := by
  obtain ⟨c, u, rfl⟩ := List.exists_cons_of_ne_nil h.ne_nil
  have hlen := h.length_eq
  simp only [List.length_cons, Nat.add_right_cancel_iff] at hlen
  exact ⟨c, u, rfl, h.isNumber c (by simp), fun d hd => h.isNumber d (by simp [hd]), hlen⟩

theorem exists_two (h : IsDigits 2 t) :
    ∃ a b, t = [a, b] ∧ a.isDigit = true ∧ b.isDigit = true := by
  obtain ⟨a, b, rfl⟩ := List.length_eq_two.mp h.length_eq
  exact ⟨a, b, rfl, h.isNumber a (by simp), h.isNumber b (by simp)⟩

theorem exists_four (h : IsDigits 4 t) : ∃ a b c d, t = [a, b, c, d] ∧ a.isDigit = true ∧
    b.isDigit = true ∧ c.isDigit = true ∧ d.isDigit = true := by
  have hlen := h.length_eq
  match t, hlen with
  | [a, b, c, d], _ =>
    exact ⟨a, b, c, d, rfl, h.isNumber a (by simp), h.isNumber b (by simp),
      h.isNumber c (by simp), h.isNumber d (by simp)⟩

theorem byteLength_eq {k : Nat} (h : IsDigits k t) : byteLength t = k := by
  have hascii : IsAscii t := fun c hc => utf8Size_of_isDigit (h.isNumber c hc)
  rw [hascii.byteLength_eq, h.length_eq]

theorem startsWithDigit {k : Nat} (h : IsDigits (k + 1) t) : StartsWithDigit t :=
  h.isNumber.startsWithDigit h.ne_nil

theorem isDateText {k : Nat} (h : IsDigits k t) : IsDateText t :=
  fun c hc => .inl (isAlphanum_of_isDigit (h.isNumber c hc))

theorem append {k n : Nat} {a b : Text} (ha : IsDigits k a) (hb : IsDigits n b) :
    IsDigits (k + n) (a ++ b) := by
  refine ⟨fun c hc => ?_, by rw [List.length_append, ha.length_eq, hb.length_eq]⟩
  obtain hc | hc := List.mem_append.mp hc
  · exact ha.isNumber c hc
  · exact hb.isNumber c hc

end IsDigits

namespace IsWord

variable {a : Text} (h : IsWord a)

include h

theorem isAscii : IsAscii a :=
  fun c hc => utf8Size_of_isAlphanum (h c hc)

theorem not_mem {d : Char} (hd : d.isAlphanum = false) : d ∉ a :=
  fun hmem => ne_of_isAlphanum (h d hmem) hd rfl

theorem isDateText : IsDateText a :=
  fun c hc => .inl (h c hc)

end IsWord

end Coercion.Text
