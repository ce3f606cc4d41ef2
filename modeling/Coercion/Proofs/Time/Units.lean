import Coercion.Proofs.Text.Joining
import Coercion.Time.Unit
import Mathlib.Data.List.Basic

namespace Coercion

open Text

namespace TimeUnit

def Spells (u : TimeUnit) (name : Text) : Prop :=
  ∃ s ∈ u.spellings, sameLetters s.toList name = true

theorem ofName?_of_mem {u : TimeUnit} : ∀ s ∈ u.spellings, ofName? s.toList = some u := by
  cases u <;> decide

theorem Spells.ofName?_eq {u : TimeUnit} {name : Text} (h : u.Spells name) :
    ofName? name = some u := by
  obtain ⟨s, hs, hsame⟩ := h
  rw [← ofName?_of_mem s hs]
  simp only [ofName?, sameLetters_congr hsame]

/-- The spellings of the units of intervals are words of letters. -/
theorem Spells.isSolid {u : TimeUnit} {name : Text} (h : u.Spells name)
    (hu : u.measuresIntervals = true) : IsSolid name := by
  obtain ⟨s, hs, hsame⟩ := h
  have hletters : ∀ s ∈ u.spellings,
      s.toList ≠ [] ∧ (s.toList.all fun c => c.toLower.isAlpha) = true := by
    cases u with
    | week | isoWeek | quarter => cases hu
    | second | minute | hour | day | month | year => decide
  obtain ⟨hne, hall⟩ := hletters s hs
  have hlower := beq_iff_eq.mp hsame
  refine ⟨?_, fun c hc => ?_⟩
  · rintro rfl
    exact hne (List.map_eq_nil_iff.mp hlower)
  · have hmem : c.toLower ∈ s.toList.map Char.toLower := by
      rw [hlower]
      exact List.mem_map_of_mem hc
    obtain ⟨d, hd, heq⟩ := List.mem_map.mp hmem
    have halpha := List.all_eq_true.mp hall d hd
    rw [heq] at halpha
    exact isBlank_of_isAlphanum (isAlphanum_of_isAlpha (isAlpha_of_toLower halpha))

theorem spells_plural {u : TimeUnit} (hu : u.measuresIntervals = true) :
    u.Spells u.plural.toList := by
  cases u with
  | week | isoWeek | quarter => cases hu
  | second | minute | hour | day | month | year => exact ⟨_, .tail _ (.head _), rfl⟩

theorem exists_millis {u : TimeUnit} (hu : u.measuresIntervals = true) :
    ∃ length : Int, u.millis? = some length ∧ 1000 ≤ length ∧ length ≤ 31556952000 := by
  cases u with
  | week | isoWeek | quarter => cases hu
  | second | minute | hour | day | month | year => exact ⟨_, rfl, by decide, by decide⟩

theorem rank_injective {u v : TimeUnit} (h : u.rank = v.rank) : u = v := by
  cases u <;> cases v <;> first | rfl | cases h

theorem finer_year (u : TimeUnit) : finer .year u = u := by
  cases u <;> rfl

/-- The finest of some units and a first one. -/
def finest (u : TimeUnit) (units : List TimeUnit) : TimeUnit :=
  units.foldl finer u

theorem finest_mem (u : TimeUnit) (units : List TimeUnit) : finest u units ∈ u :: units := by
  induction units generalizing u with
  | nil => exact .head _
  | cons v units ih =>
    have hrest : finest u (v :: units) = finest (u.finer v) units := rfl
    rw [hrest]
    obtain heq | hmem := List.mem_cons.mp (ih (u.finer v))
    · rw [heq, finer]
      split_ifs
      · exact .tail _ (.head _)
      · exact .head _
    · exact .tail _ (.tail _ hmem)

theorem rank_finest_le (u : TimeUnit) (units : List TimeUnit) :
    ∀ v ∈ u :: units, (finest u units).rank ≤ v.rank := by
  induction units generalizing u with
  | nil => simp [finest]
  | cons w units ih =>
    have hrest : finest u (w :: units) = finest (u.finer w) units := rfl
    have hfiner : (u.finer w).rank ≤ u.rank ∧ (u.finer w).rank ≤ w.rank := by
      unfold finer
      split_ifs <;> omega
    have hfirst := ih (u.finer w) _ (.head _)
    rw [hrest]
    intro v hv
    simp only [List.mem_cons] at hv
    obtain rfl | rfl | hv := hv
    · exact hfirst.trans hfiner.1
    · exact hfirst.trans hfiner.2
    · exact ih (u.finer w) v (.tail _ hv)

theorem finest_perm (u : TimeUnit) {units units' : List TimeUnit} (h : units.Perm units') :
    finest u units = finest u units' := by
  have hcons := h.cons u
  have hle := rank_finest_le u units _ (hcons.mem_iff.mpr (finest_mem u units'))
  have hge := rank_finest_le u units' _ (hcons.mem_iff.mp (finest_mem u units))
  exact rank_injective (hle.antisymm hge)

theorem finest_year_mem {units : List TimeUnit} (hne : units ≠ []) :
    finest .year units ∈ units := by
  obtain ⟨u, rest, rfl⟩ := List.exists_cons_of_ne_nil hne
  have hfirst : finest .year (u :: rest) = finest u rest := by
    rw [finest, List.foldl_cons, finer_year]
    rfl
  rw [hfirst]
  exact finest_mem u rest

end TimeUnit

end Coercion
