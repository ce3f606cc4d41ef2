import Coercion.Proofs.Time.Daylight

namespace Coercion

open Calendar

namespace Transition

variable {t : Transition} (h : t.IsRegular) (year : Int) {month : Nat}

include h

theorem IsRegular.reading_add_le (hm : t.month ≤ month) :
    t.reading year + 3600 ≤ monthStart (12 * year + month) * 86400 := by
  have hhour := h.hour
  have hlt := h.day.2
  have hday := (h.day_bounds year).2
  have hmono : monthStart (12 * year + t.month) ≤ monthStart (12 * year + month) :=
    monthStart_strictMono.monotone (by omega)
  unfold reading
  omega

theorem IsRegular.lt_reading (hm : month < t.month) :
    monthStart (12 * year + month) * 86400 + 3600 < t.reading year := by
  have hpos := h.day.1
  have hday := (h.day_bounds year).1
  have hmono : monthStart (12 * year + month) ≤ monthStart (12 * year + (t.month - 1)) :=
    monthStart_strictMono.monotone (by omega)
  unfold reading
  omega

end Transition

namespace DaylightRule

def seasonEnd (r : DaylightRule) (year : Int) : Int :=
  r.ends.reading (if r.starts.month < r.ends.month then year else year + 1) - r.daylight

/-- Whether an instant is in a season of daylight saving time. -/
def IsOn (r : DaylightRule) (instant : Int) : Prop :=
  ∃ year, r.starts.reading year - r.standard ≤ instant ∧ instant < r.seasonEnd year

def IsSeasonal (r : DaylightRule) : Prop :=
  r.starts.month ≤ 6 ∧ 6 < r.ends.month ∨ r.ends.month ≤ 6 ∧ 6 < r.starts.month

theorem yearOf_eq {year s : Int} (hlow : yearStart year * 86400 ≤ s)
    (hhigh : s < yearStart (year + 1) * 86400) : yearOf s = year := by
  have hle (y : Int) : y ≤ yearOf s ↔ yearStart y ≤ s / 86400 := le_year_iff y _
  have := hle year
  have := hle (year + 1)
  omega

variable {r : DaylightRule} (h : r.IsRegular)

include h

theorem IsRegular.isOn_iff (s : Int) : r.IsOn s ↔ r.offsetAt s = r.daylight := by
  have hgap := h.gap
  have hbounds := h.bounds
  rw [offsetAt_eq_offsetIn]
  constructor
  · rintro ⟨year, hstart, hstop⟩
    have hpositions := h.positions year
    have hnext := h.positions (year + 1)
    unfold seasonEnd at hstop
    by_cases hs : s < yearStart (year + 1) * 86400
    · rw [yearOf_eq (by omega) hs]
      unfold offsetIn
      dsimp only
      split_ifs at hstop ⊢ <;> omega
    · rw [yearOf_eq (not_lt.mp hs) (by split_ifs at hstop <;> omega)]
      unfold offsetIn
      dsimp only
      split_ifs at hstop ⊢ <;> omega
  · intro hoffset
    have hpositions := h.positions (yearOf s)
    have hbefore := h.positions (yearOf s - 1)
    have hnext := h.positions (yearOf s + 1)
    have hs := yearOf_bounds s
    rw [sub_add_cancel] at hbefore
    unfold offsetIn at hoffset
    dsimp only at hoffset
    by_cases hstart : r.starts.reading (yearOf s) - r.standard ≤ s
    · refine ⟨yearOf s, hstart, ?_⟩
      unfold seasonEnd
      split_ifs at hoffset ⊢ <;> omega
    · refine ⟨yearOf s - 1, by omega, ?_⟩
      unfold seasonEnd
      rw [sub_add_cancel]
      split_ifs at hoffset ⊢ <;> omega

theorem IsRegular.readingOffset?_january (year : Int) :
    r.readingOffset? (yearStart year * 86400) =
      some (if r.starts.month < r.ends.month then r.standard else r.daylight) := by
  have hpositions := h.positions year
  have hyear := yearStart_bounds year
  rw [h.readingOffset?_eq_in year (by omega) (by omega), readingOffsetIn?]
  split_ifs <;> first | rfl | omega

/-- July is in the one half of the year, and the transitions are away from its first day. -/
theorem IsRegular.readingOffset?_july (hs : r.IsSeasonal) (year : Int) :
    r.readingOffset? (monthStart (12 * year + 6) * 86400) =
      some (if r.starts.month < r.ends.month then r.daylight else r.standard) := by
  have hpositions := h.positions year
  have hlow : yearStart year ≤ monthStart (12 * year + 6) :=
    monthStart_strictMono.monotone (by omega)
  have hhigh : monthStart (12 * year + 6) < yearStart (year + 1) :=
    monthStart_strictMono (by omega)
  have hyear : yearOf (monthStart (12 * year + 6) * 86400) = year :=
    yearOf_eq (by omega) (by omega)
  rw [h.readingOffset?_eq, hyear, readingOffsetIn?]
  obtain ⟨hm, hm'⟩ | ⟨hm, hm'⟩ := hs
  · have hstart : r.starts.reading year + 3600 ≤ monthStart (12 * year + 6) * 86400 :=
      h.starts.reading_add_le year hm
    have hend : monthStart (12 * year + 6) * 86400 + 3600 < r.ends.reading year :=
      h.ends.lt_reading year hm'
    split_ifs <;> first | rfl | omega
  · have hend : r.ends.reading year + 3600 ≤ monthStart (12 * year + 6) * 86400 :=
      h.ends.reading_add_le year hm
    have hstart : monthStart (12 * year + 6) * 86400 + 3600 < r.starts.reading year :=
      h.starts.lt_reading year hm'
    split_ifs <;> first | rfl | omega

end DaylightRule

end Coercion
