import Coercion.Proofs.Double.Arithmetic

namespace Coercion

open Text

def NamesInfinity (word : Text) : Prop :=
  sameLetters word "inf".toList = true ∨ sameLetters word "infinity".toList = true

/-- The double that a value stands for. The sign of zero is left open. -/
inductive Raw.StandsFor : Raw → Double → Prop
  | number (f : Double) : StandsFor (.number f) f
  | flag {b : Bool} {f : Double} (hf : Double.Rounds b.toNat f) : StandsFor (.flag b) f
  | blank {t : Text} {f : Double} (ht : trim t = []) (hf : Double.Rounds 0 f) :
      StandsFor (.text t) f
  | written {t : Text} {w : WrittenNumber} {f : Double} (ht : trim t = w.text)
      (hf : Double.Rounds w.value f) : StandsFor (.text t) f
  | infinity {t word : Text} {s : SignMark} (ht : trim t = s.text ++ word)
      (hword : NamesInfinity word) : StandsFor (.text t) (.infinite s.negative)
  | other {t : Text} (hne : trim t ≠ []) (hnumber : ∀ w : WrittenNumber, trim t ≠ w.text)
      (hinfinity : ∀ (s : SignMark) (word : Text), trim t = s.text ++ word → ¬NamesInfinity word) :
      StandsFor (.text t) .nan

theorem NamesInfinity.splitSign_append {word : Text} (h : NamesInfinity word) (s : SignMark) :
    splitSign (s.text ++ word) = (s.negative, word) := by
  have hfirst : ∃ c t, word = c :: t ∧ c.toLower = 'i' := by
    cases word with
    | nil => obtain h | h := h <;> cases h
    | cons c t =>
      refine ⟨c, t, rfl, ?_⟩
      obtain h | h := h
      · exact (List.cons.inj (beq_iff_eq.mp h)).1
      · exact (List.cons.inj (beq_iff_eq.mp h)).1
  obtain ⟨c, t, rfl, hc⟩ := hfirst
  cases s with
  | plus | minus => rfl
  | none =>
    change splitSign (c :: t) = (false, c :: t)
    unfold splitSign
    split
    · rename_i heq
      rw [(List.cons.inj heq).1] at hc
      cases hc
    · rename_i heq
      rw [(List.cons.inj heq).1] at hc
      cases hc
    · rfl

namespace Double

theorem Rounds.isNaN_eq {x : ℚ} {f : Double} (hf : Rounds x f) : f.isNaN = false := by
  obtain ⟨negative, rank, rfl, -⟩ := hf
  unfold ofRank
  split_ifs
  · rfl
  · rfl

theorem read?_infinity {word : Text} (h : NamesInfinity word) (s : SignMark) :
    read? (s.text ++ word) = some (.infinite s.negative) := by
  have hword : (sameLetters word "inf".toList || sameLetters word "infinity".toList) = true := by
    rw [Bool.or_eq_true]
    exact h
  rw [read?, h.splitSign_append]
  dsimp only
  rw [if_pos hword]

theorem read?_other {t : Text} (hnumber : ∀ w : WrittenNumber, t ≠ w.text)
    (hinfinity : ∀ (s : SignMark) (word : Text), t = s.text ++ word → ¬NamesInfinity word) :
    (read? t).getD .nan = .nan := by
  obtain ⟨s, ht, -⟩ := exists_splitSign t
  have hword := hinfinity s _ ht
  unfold read?
  dsimp only
  split_ifs with hinf hnan
  · rw [Bool.or_eq_true] at hinf
    exact absurd hinf hword
  · rfl
  · cases hread : Literal.read? t with
    | none => rfl
    | some l =>
      obtain ⟨w, hw, -⟩ := Literal.exists_text_of_read? hread
      exact absurd hw (hnumber w)

end Double

namespace Raw

theorem toDouble_blank {t : Text} (ht : trim t = []) : (Raw.text t).toDouble = .zero := by
  rw [toDouble, Text.toDouble, ht]
  rfl

theorem toDouble_of_ne_nil {t : Text} (hne : trim t ≠ []) :
    (Raw.text t).toDouble = (Double.read? (trim t)).getD .nan := by
  rw [toDouble, Text.toDouble, if_neg (by simpa using hne)]

theorem standsFor_toDouble (r : Raw) : r.StandsFor r.toDouble := by
  cases r with
  | number f => exact .number f
  | flag b => exact .flag (by exact_mod_cast Double.rounds_ofInt b.toNat)
  | text t =>
    by_cases hne : trim t = []
    · rw [toDouble_blank hne]
      exact .blank hne (by exact_mod_cast Double.rounds_ofInt 0)
    by_cases hnumber : ∃ w : WrittenNumber, trim t = w.text
    · obtain ⟨w, ht⟩ := hnumber
      refine .written ht ?_
      rw [toDouble, Text.toDouble_of_trim ht]
      exact w.rounds
    by_cases hinfinity : ∃ (s : SignMark) (word : Text), trim t = s.text ++ word ∧
        NamesInfinity word
    · obtain ⟨s, word, ht, hword⟩ := hinfinity
      rw [toDouble_of_ne_nil hne, ht, Double.read?_infinity hword]
      exact .infinity ht hword
    · push Not at hnumber hinfinity
      rw [toDouble_of_ne_nil hne, Double.read?_other hnumber hinfinity]
      exact .other hne hnumber hinfinity

/-- What a value stands for is the double that is read from it, up to the sign of zero. -/
theorem StandsFor.same {r : Raw} {f : Double} (h : r.StandsFor f) :
    r.toDouble.isNaN = f.isNaN ∧ r.toDouble.isFinite = f.isFinite ∧
      r.toDouble.toRat = f.toRat := by
  have hrounds {x : ℚ} {g : Double} (hg : Double.Rounds x g) (hf : Double.Rounds x f) :
      g.isNaN = f.isNaN ∧ g.isFinite = f.isFinite ∧ g.toRat = f.toRat :=
    ⟨hg.isNaN_eq.trans hf.isNaN_eq.symm, hg.same_value hf⟩
  cases h with
  | number => exact ⟨rfl, rfl, rfl⟩
  | flag hf => exact hrounds (by exact_mod_cast Double.rounds_ofInt _) hf
  | blank ht hf =>
    rw [toDouble_blank ht]
    exact hrounds (by exact_mod_cast Double.rounds_ofInt 0) hf
  | @written t w f ht hf =>
    rw [toDouble, Text.toDouble_of_trim ht]
    exact hrounds w.rounds hf
  | @infinity t word s ht hword =>
    have hne : trim t ≠ [] := by
      rw [ht]
      intro hnil
      obtain ⟨-, rfl⟩ := List.append_eq_nil_iff.mp hnil
      obtain hword | hword := hword <;> cases hword
    rw [toDouble_of_ne_nil hne, ht, Double.read?_infinity hword]
    exact ⟨rfl, rfl, rfl⟩
  | other hne hnumber hinfinity =>
    rw [toDouble_of_ne_nil hne, Double.read?_other hnumber hinfinity]
    exact ⟨rfl, rfl, rfl⟩

end Raw

end Coercion
