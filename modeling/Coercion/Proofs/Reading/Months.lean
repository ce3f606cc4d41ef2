import Coercion.Proofs.Double.Integers
import Coercion.Proofs.Text.Words
import Coercion.Reading.Loose
import Coercion.Reading.Shape
import Mathlib.Tactic.IntervalCases

namespace Coercion

open Calendar Text

/-- The abbreviation of a month in any letter case. -/
def IsMonthName (month : Nat) (t : Text) : Prop :=
  1 ≤ month ∧ ∃ name ∈ monthAbbreviations[month - 1]?, sameLetters name.toList t = true

namespace IsMonthName
variable {month : Nat} {t : Text} (h : IsMonthName month t)
include h

theorem month_le : month ≤ 12 := by
  obtain ⟨-, name, hname, -⟩ := h
  have := (List.getElem?_eq_some_iff.mp hname).1
  simp only [monthAbbreviations, List.length_cons, List.length_nil] at this
  omega

theorem monthOfAbbreviation?_eq : monthOfAbbreviation? t = some month := by
  have hle := h.month_le
  obtain ⟨hpos, name, hname, hsame⟩ := h
  have hlower := beq_iff_eq.mp hsame
  simp only [monthOfAbbreviation?, position?, sameLetters, ← hlower]
  interval_cases month <;> cases hname <;> rfl

theorem exists_three : ∃ a b c, t = [a, b, c] ∧ a.isAlpha = true ∧ b.isAlpha = true ∧
    c.isAlpha = true := by
  have hle := h.month_le
  obtain ⟨hpos, name, hname, hsame⟩ := h
  have hlower := beq_iff_eq.mp hsame
  have hname' : ∃ n₁ n₂ n₃, name.toList.map Char.toLower = [n₁, n₂, n₃] ∧ n₁.isAlpha = true ∧
      n₂.isAlpha = true ∧ n₃.isAlpha = true := by
    interval_cases month <;> cases hname <;> exact ⟨_, _, _, rfl, rfl, rfl, rfl⟩
  obtain ⟨n₁, n₂, n₃, hthree, h₁, h₂, h₃⟩ := hname'
  rw [hlower, List.map_eq_cons_iff] at hthree
  obtain ⟨a, u, rfl, rfl, hu⟩ := hthree
  obtain ⟨b, v, rfl, rfl, hv⟩ := List.map_eq_cons_iff.mp hu
  obtain ⟨c, rfl, rfl⟩ := List.map_eq_singleton_iff.mp hv
  exact ⟨a, b, c, rfl, isAlpha_of_toLower h₁, isAlpha_of_toLower h₂, isAlpha_of_toLower h₃⟩

theorem isWord : IsWord t := by
  obtain ⟨a, b, c, rfl, ha, hb, hc⟩ := h.exists_three
  simp [IsWord, isAlphanum_of_isAlpha, *]

theorem ne_nil : t ≠ [] := by
  obtain ⟨a, b, c, rfl, -⟩ := h.exists_three
  exact List.cons_ne_nil _ _

theorem monthNumberOf_eq : monthNumberOf t = .ofInt month := by
  obtain ⟨a, b, c, rfl, -⟩ := h.exists_three
  simp [monthNumberOf, h.monthOfAbbreviation?_eq]

theorem month?_eq : Loose.month? t = some month := by
  have hm := h.monthOfAbbreviation?_eq
  obtain ⟨a, b, c, rfl, -⟩ := h.exists_three
  exact hm

end IsMonthName

theorem monthOfAbbreviation?_congr {a b : Text} (h : sameLetters a b = true) :
    monthOfAbbreviation? a = monthOfAbbreviation? b := by
  simp only [monthOfAbbreviation?, position?, sameLetters_congr h]

theorem isMonthName_of_monthOfAbbreviation? {month : Nat} {t : Text}
    (h : monthOfAbbreviation? t = some month) : IsMonthName month t := by
  obtain ⟨i, hi, rfl⟩ := Option.map_eq_some_iff.mp h
  obtain ⟨hlt, hsame, -⟩ := List.findIdx?_eq_some_iff_getElem.mp hi
  exact ⟨Nat.le_add_left .., _, List.getElem?_eq_getElem hlt, hsame⟩

/-- A number from one on is that of a name. -/
theorem isMonthName_of_integer? {month : Int} {t : Text}
    (h : (monthNumberOf t).integer? = some month) (hpos : 0 < month) :
    ∃ m : Nat, month = m ∧ IsMonthName m t := by
  have hzero : Double.zero.integer? = some 0 := Double.integer?_ofInt (by decide)
  have hminus : (Double.ofInt (-1)).integer? = some (-1) := Double.integer?_ofInt (by decide)
  unfold monthNumberOf at h
  split_ifs at h
  · rw [hzero] at h
    obtain rfl := Option.some.inj h
    exact absurd hpos (by decide)
  · cases hm : monthOfAbbreviation? t with
    | none =>
      rw [hm, Option.map_none, Option.getD_none, hminus] at h
      obtain rfl := Option.some.inj h
      exact absurd hpos (by decide)
    | some m =>
      have hname := isMonthName_of_monthOfAbbreviation? hm
      have hm' := hname.month_le
      rw [hm, Option.map_some, Option.getD_some] at h
      have hm'' : (Double.ofInt (m : Int)).integer? = some (m : Int) :=
        Double.integer?_ofInt (by omega)
      exact ⟨m, Option.some.inj (h.symm.trans hm''), hname⟩

end Coercion
