import Coercion.Proofs.Time.Daylight
import Coercion.Proofs.Time.Offsets

namespace Coercion

open Calendar

namespace Offset

theorem exists_ofSeconds? {seconds : Int} (h : seconds % 60 = 0)
    (hbounds : -50400 ≤ seconds ∧ seconds ≤ 50400) :
    ∃ o, ofSeconds? seconds = some o ∧ o.millis = seconds * 1000 := by
  obtain ⟨minutes, rfl⟩ : ∃ minutes, seconds = minutes * 60 := ⟨seconds / 60, by omega⟩
  have hminutes : (minutes * 60).tdiv 60 = minutes := Int.mul_tdiv_cancel _ (by decide)
  have hrange : -840 ≤ minutes ∧ minutes ≤ 840 := by omega
  refine ⟨⟨minutes, hrange⟩, ?_, ?_⟩
  · simp only [ofSeconds?, hminutes, ofMinutes, hrange, and_self, ↓reduceDIte]
    rfl
  · change minutes * millisPerMinute = _
    unfold millisPerMinute
    omega

end Offset

namespace Zone

theorem hostKnows_iff (millis : Int) :
    hostKnows millis = true ↔ -8334601228800000 ≤ millis ∧ millis ≤ 8210266876799999 := by
  simp [hostKnows]

theorem yearStart_hostKnows :
    yearStart (-262143) * 86400000 = -8334601228800000 ∧
      yearStart 262143 * 86400000 = 8210266876800000 := by
  decide

theorem inRange_of_hostKnows {millis : Int} (h : hostKnows millis = true) :
    inRange millis = true := by
  rw [hostKnows_iff] at h
  simp only [inRange, Bool.and_eq_true, decide_eq_true_eq]
  unfold maxInstant millisPerDay
  omega

/-- Weeks away from the turn of a year, the days around belong to the range of the rule too. -/
theorem hostKnows_of_midyear (year : Int) {v n : Int} (hv : hostKnows v = true)
    (hlow : yearStart year * 86400 + 1209600 ≤ v / 1000)
    (hhigh : v / 1000 + 1209600 ≤ yearStart (year + 1) * 86400)
    (hnear : v - 86400000 ≤ n ∧ n ≤ v + 86400000) : hostKnows n = true := by
  obtain ⟨hmin, hmax⟩ := yearStart_hostKnows
  rw [hostKnows_iff] at hv ⊢
  have hfirst : yearStart year < yearStart 262143 := by omega
  have hlast : yearStart (-262143) < yearStart (year + 1) := by omega
  have hyear : year < 262143 := by
    have := monthStart_strictMono.lt_iff_lt.mp hfirst
    omega
  have hyear' : -262143 < year + 1 := by
    have := monthStart_strictMono.lt_iff_lt.mp hlast
    omega
  have hmono : yearStart (-262143) ≤ yearStart year :=
    monthStart_strictMono.monotone (by omega)
  have hmono' : yearStart (year + 1) ≤ yearStart 262143 :=
    monthStart_strictMono.monotone (by omega)
  omega

section

variable {rule : HostZone}

theorem offsetAt_host_of_unknown {instant : Int} (hunknown : hostKnows instant = false) :
    (host rule).offsetAt instant = .utc := by
  rw [offsetAt, if_neg (by simp [hunknown])]

theorem offsetOfLocal_of_unknown {wall : Int} (hunknown : hostKnows wall = false) :
    (host rule).offsetOfLocal wall = .utc := by
  rw [offsetOfLocal, if_neg (by simp [hunknown])]

/-- Past the range of the rule an instant is its own reading. -/
theorem wallAt_of_unknown {m : Int} (hunknown : hostKnows m = false) :
    (host rule).wallAt m = m := by
  have hutc : Offset.utc.millis = 0 := rfl
  rw [wallAt_eq, offsetAt_host_of_unknown hunknown, hutc, add_zero]

end

section

variable {r : DaylightRule} (h : r.IsRegular)

include h

theorem exists_ofSeconds?_of_isRegular {seconds : Int}
    (hseconds : seconds = r.standard ∨ seconds = r.daylight) :
    ∃ o, Offset.ofSeconds? seconds = some o ∧ o.millis = seconds * 1000 := by
  have := h.gap
  have := h.hour
  have := h.bounds
  exact Offset.exists_ofSeconds? (by omega) (by omega)

theorem offsetAt_host {instant : Int} (hknown : hostKnows instant = true) :
    ((host (.daylight r)).offsetAt instant).millis = r.offsetAt (instant / 1000) * 1000 := by
  obtain ⟨o, ho, hmillis⟩ :=
    exists_ofSeconds?_of_isRegular h (r.offsetAt_cases (instant / millisPerSecond))
  rw [offsetAt, if_pos hknown]
  change ((Offset.ofSeconds? (r.offsetAt (instant / millisPerSecond))).getD .utc).millis = _
  rw [ho]
  exact hmillis

omit h in
theorem resolved?_eq {wall offset : Int} (hoffset : r.readingOffset? (wall / 1000) = some offset) :
    resolved? (.daylight r) wall =
      if hostKnows (wall - offset * 1000) then some offset else none := by
  have hresolved : resolved? (.daylight r) wall = (r.readingOffset? (wall / 1000)).filter
      fun offset => hostKnows (wall - offset * millisPerSecond) := rfl
  rw [hresolved, hoffset]
  rfl

/-- The offset of a reading that is not skipped, where its instant is in the range of the rule. -/
theorem offsetOfLocal_host {wall offset : Int} (hknown : hostKnows wall = true)
    (hoffset : r.readingOffset? (wall / 1000) = some offset)
    (hcases : offset = r.standard ∨ offset = r.daylight)
    (hinstant : hostKnows (wall - offset * 1000) = true) :
    ((host (.daylight r)).offsetOfLocal wall).millis = offset * 1000 := by
  obtain ⟨o, ho, hmillis⟩ := exists_ofSeconds?_of_isRegular h hcases
  rw [offsetOfLocal, if_pos hknown, resolved?_eq hoffset, if_pos hinstant]
  simp [ho, hmillis]

omit h in
theorem offsetOfLocal_of_unknown_instant {wall offset : Int} (hknown : hostKnows wall = true)
    (hoffset : r.readingOffset? (wall / 1000) = some offset)
    (hinstant : hostKnows (wall - offset * 1000) = false) :
    (host (.daylight r)).offsetOfLocal wall =
      (host (.daylight r)).offsetAt (wall - millisPerDay) := by
  rw [offsetOfLocal, if_pos hknown, resolved?_eq hoffset, hinstant]
  rfl

end

end Zone

theorem wallAt_host {r : DaylightRule} (h : r.IsRegular) {v : Int}
    (hv : Zone.hostKnows v = true) :
    (Zone.host (.daylight r)).wallAt v = v + r.offsetAt (v / 1000) * 1000 := by
  rw [Zone.wallAt_eq, Zone.offsetAt_host h hv]

theorem ofText_northern : HostZone.ofText "EST5EDT,M3.2.0,M11.1.0".toList =
    .daylight ⟨-18000, -14400, ⟨3, 2, 0, 7200⟩, ⟨11, 1, 0, 7200⟩⟩ := by
  decide

theorem ofText_southern : HostZone.ofText "AEST-10AEDT,M10.1.0,M4.1.0/3".toList =
    .daylight ⟨36000, 39600, ⟨10, 1, 0, 7200⟩, ⟨4, 1, 0, 10800⟩⟩ := by
  decide

theorem isRegular_of_ofText {r : DaylightRule}
    (h : HostZone.ofText "EST5EDT,M3.2.0,M11.1.0".toList = .daylight r ∨
      HostZone.ofText "AEST-10AEDT,M10.1.0,M4.1.0/3".toList = .daylight r) : r.IsRegular := by
  rw [ofText_northern, ofText_southern] at h
  obtain h | h := h
  · obtain rfl := HostZone.daylight.inj h
    exact ⟨by decide, by decide, by decide, ⟨by decide, by decide, by decide, by decide⟩,
      ⟨by decide, by decide, by decide, by decide⟩, by decide⟩
  · obtain rfl := HostZone.daylight.inj h
    exact ⟨by decide, by decide, by decide, ⟨by decide, by decide, by decide, by decide⟩,
      ⟨by decide, by decide, by decide, by decide⟩, by decide⟩

end Coercion
