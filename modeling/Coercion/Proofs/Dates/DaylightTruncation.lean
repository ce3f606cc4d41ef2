import Coercion.Proofs.Dates.UnitStarts
import Coercion.Proofs.Time.HostOffsets
import Coercion.Reporting.Dates

namespace Coercion

open Calendar

namespace TimeUnit

theorem start_cases (u : TimeUnit) (wall : Int) :
    day.rank ≤ u.rank ∧ u.start (Civil.ofMillis wall) % 86400000 = 0 ∨
      u.rank < day.rank ∧ u.start (Civil.ofMillis wall) % 1000 = 0 ∧
        u.start (Civil.ofMillis wall) / 3600000 = wall / 3600000 := by
  have hstarts := (u.start_isGreatest wall).1.1
  cases u with
  | second =>
    rw [start_second]
    unfold millisPerSecond
    exact .inr ⟨by decide, by omega, by omega⟩
  | minute =>
    rw [start_minute]
    unfold millisPerMinute
    exact .inr ⟨by decide, by omega, by omega⟩
  | hour =>
    rw [start_hour]
    unfold millisPerHour
    exact .inr ⟨by decide, by omega, by omega⟩
  | day => exact .inl ⟨by decide, hstarts⟩
  | week | isoWeek | month | quarter | year => exact .inl ⟨by decide, hstarts.1⟩

end TimeUnit

section

variable {r : DaylightRule} (h : r.IsRegular)

include h

theorem exists_readingOffset?_start (u : TimeUnit) {v wall b : Int}
    (hwall : wall = v + r.offsetAt (v / 1000) * 1000) (hb : b = u.start (Civil.ofMillis wall)) :
    ∃ offset, r.readingOffset? (b / 1000) = some offset ∧
      (offset = r.standard ∨ offset = r.daylight) ∧
      (u.rank < TimeUnit.day.rank ∧ r.InLastHour (v / 1000) →
        wall - b < (r.offsetAt (v / 1000) - offset) * 1000) ∧
      (¬(u.rank < TimeUnit.day.rank ∧ r.InLastHour (v / 1000)) →
        (r.offsetAt (v / 1000) - offset) * 1000 ≤ wall - b) := by
  have hgap := h.gap
  have hcases := r.offsetAt_cases (v / 1000)
  have hle : b ≤ wall := hb ▸ (u.start_isGreatest wall).1.2
  have hstart := u.start_cases wall
  rw [← hb] at hstart
  by_cases hnear : v / 1000 + r.offsetAt (v / 1000) - b / 1000 < 3600
  · obtain ⟨offset, hoffset, hcases', hlast, hother⟩ :=
      h.readingOffset?_near (v / 1000) (b / 1000) (by omega) hnear (by omega)
    refine ⟨offset, hoffset, hcases', ?_, ?_⟩
    · rintro ⟨hfine, hlastHour⟩
      have := hlast hlastHour
      omega
    · intro hno
      by_cases hlastHour : r.InLastHour (v / 1000)
      · have := hlast hlastHour
        have : ¬u.rank < TimeUnit.day.rank := fun hfine => hno ⟨hfine, hlastHour⟩
        omega
      · have := hother hlastHour
        omega
  · have hmidnight : b / 1000 % 86400 = 0 ∧ ¬u.rank < TimeUnit.day.rank := by omega
    obtain ⟨offset, hoffset, hcases'⟩ := h.readingOffset?_midnight hmidnight.1
    refine ⟨offset, hoffset, hcases', ?_, ?_⟩
    · exact fun hfine => absurd hfine.1 hmidnight.2
    · intro
      omega

theorem hostKnows_of_inLastHour {v n : Int} (hv : Zone.hostKnows v = true)
    (hlast : r.InLastHour (v / 1000)) (hnear : v - 86400000 ≤ n ∧ n ≤ v + 86400000) :
    Zone.hostKnows n = true := by
  have hgap := h.gap
  have hbounds := h.bounds
  obtain ⟨hlow, hhigh⟩ := (h.inLastHour_iff _).mp hlast
  have hpositions := h.positions (DaylightRule.yearOf (v / 1000))
  exact Zone.hostKnows_of_midyear (DaylightRule.yearOf (v / 1000)) hv (by omega) (by omega) hnear

theorem not_lt_of_unknown_instant {v wall b offset : Int} (hv : Zone.hostKnows v = true)
    (hwall : wall = v + r.offsetAt (v / 1000) * 1000) (hle : b ≤ wall)
    (hstart : b % 86400000 = 0 ∨ b / 3600000 = wall / 3600000)
    (hknown : Zone.hostKnows b = true) (hoffset : r.readingOffset? (b / 1000) = some offset)
    (hcases : offset = r.standard ∨ offset = r.daylight)
    (hinstant : Zone.hostKnows (b - offset * 1000) = false) :
    ¬v < b - ((Zone.host (.daylight r)).offsetOfLocal b).millis := by
  have hgap := h.gap
  have hhour := h.hour
  have hbounds := h.bounds
  have hcases' := r.offsetAt_cases (v / 1000)
  obtain ⟨hmin, hmax⟩ := Zone.yearStart_hostKnows
  have hv' := (Zone.hostKnows_iff v).mp hv
  have hb' := (Zone.hostKnows_iff b).mp hknown
  have hout := mt (Zone.hostKnows_iff (b - offset * 1000)).mpr (Bool.eq_false_iff.mp hinstant)
  rw [Zone.offsetOfLocal_of_unknown_instant hknown hoffset hinstant]
  by_cases hlow : b - offset * 1000 < -8334601228800000
  · -- The day before is not in the range either, so the reading is taken as one of UTC.
    have hdayBefore : Zone.hostKnows (b - millisPerDay) = false := by
      rw [← Bool.not_eq_true, Zone.hostKnows_iff]
      unfold millisPerDay
      omega
    rw [Zone.offsetAt_host_of_unknown hdayBefore]
    change ¬v < b - 0
    intro hlt
    have := h.offsetAt_eq_of_yearEnd (-262143) (by omega) (by omega) hoffset (s := v / 1000)
    omega
  · exfalso
    have := h.offsetAt_eq_of_yearEnd 262143 (by omega) (by omega) hoffset (s := v / 1000)
    omega

theorem lt_start_iff (u : TimeUnit) {v wall b : Int} (hv : Zone.hostKnows v = true)
    (hwall : wall = v + r.offsetAt (v / 1000) * 1000) (hb : b = u.start (Civil.ofMillis wall)) :
    v < b - ((Zone.host (.daylight r)).offsetOfLocal b).millis ↔
      u.rank < TimeUnit.day.rank ∧ r.InLastHour (v / 1000) ∨ 8210266876799999 < b := by
  have hgap := h.gap
  have hbounds := h.bounds
  have hcases := r.offsetAt_cases (v / 1000)
  have hle : b ≤ wall := hb ▸ (u.start_isGreatest wall).1.2
  have hstart := u.start_cases wall
  rw [← hb] at hstart
  obtain ⟨offset, hoffset, hcases', hlast, hother⟩ := exists_readingOffset?_start h u hwall hb
  have hnear (hfine : u.rank < TimeUnit.day.rank ∧ r.InLastHour (v / 1000)) :
      Zone.hostKnows b = true ∧ Zone.hostKnows (b - offset * 1000) = true := by
    exact ⟨hostKnows_of_inLastHour h hv hfine.2 (by omega),
      hostKnows_of_inLastHour h hv hfine.2 (by omega)⟩
  obtain ⟨hmin, hmax⟩ := Zone.yearStart_hostKnows
  have hv' := (Zone.hostKnows_iff v).mp hv
  by_cases hknown : Zone.hostKnows b = true
  · have hb' := (Zone.hostKnows_iff b).mp hknown
    by_cases hinstant : Zone.hostKnows (b - offset * 1000) = true
    · rw [Zone.offsetOfLocal_host h hknown hoffset hcases' hinstant]
      by_cases hfine : u.rank < TimeUnit.day.rank ∧ r.InLastHour (v / 1000)
      · have := hlast hfine
        exact iff_of_true (by omega) (.inl hfine)
      · have := hother hfine
        exact iff_of_false (by omega) (not_or.mpr ⟨hfine, by omega⟩)
    · have hfine : ¬(u.rank < TimeUnit.day.rank ∧ r.InLastHour (v / 1000)) :=
        fun hfine => hinstant (hnear hfine).2
      have hnot := not_lt_of_unknown_instant h hv hwall hle
        (hstart.imp And.right fun hfine => hfine.2.2) hknown hoffset hcases'
        (Bool.eq_false_iff.mpr hinstant)
      exact iff_of_false hnot (not_or.mpr ⟨hfine, by omega⟩)
  · have hfine : ¬(u.rank < TimeUnit.day.rank ∧ r.InLastHour (v / 1000)) :=
      fun hfine => hknown (hnear hfine).1
    have hout := mt (Zone.hostKnows_iff b).mpr hknown
    rw [Bool.not_eq_true] at hknown
    rw [Zone.offsetOfLocal_of_unknown hknown]
    change v < b - 0 ↔ _
    by_cases hpast : 8210266876799999 < b
    · exact iff_of_true (by omega) (.inr hpast)
    · exact iff_of_false (by omega) (not_or.mpr ⟨hfine, hpast⟩)

end

/-- On a host with daylight saving time the result of a truncation is after the instant only in two
cases: in the last hour of daylight saving time, truncated to a unit finer than a day, whose start
is a reading that comes again an hour later; and if the start of the unit is a reading past the
range of the host's rule, which is taken as one of UTC. -/
theorem truncateTo_daylight_after_iff {r : DaylightRule}
    (h : HostZone.ofText "EST5EDT,M3.2.0,M11.1.0".toList = .daylight r ∨
      HostZone.ofText "AEST-10AEDT,M10.1.0,M4.1.0/3".toList = .daylight r)
    (clock : Clock) (u : TimeUnit) {v : Int} (dateOnly : Bool) (hv : Zone.hostKnows v = true)
    {t : Temporal} (ht : (Dates.truncateTo ⟨.host (.daylight r), clock⟩ u
      (.value (.instant v dateOnly (Zone.inRange_of_hostKnows hv)))).result = .ok t) :
    ∃ b, IsGreatest {b | u.Starts b ∧ b ≤ (Zone.host (.daylight r)).wallAt v} b ∧
      (v < t.millis ↔
        u.rank < TimeUnit.day.rank ∧ r.InLastHour (v / 1000) ∨ 8210266876799999 < b) := by
  have hregular := isRegular_of_ofText h
  obtain ⟨wall, hwall⟩ : ∃ wall, wall = (Zone.host (.daylight r)).wallAt v := ⟨_, rfl⟩
  obtain ⟨b, hb⟩ : ∃ b, b = u.start (Civil.ofMillis wall) := ⟨_, rfl⟩
  have hmillis : t.millis = b - ((Zone.host (.daylight r)).offsetOfLocal b).millis := by
    rw [Dates.truncateTo, Dates.result_ofDate_value, Ending.ofExcept_eq_ok, Temporal.truncate,
      Context.localFields, ← hwall, ← hb] at ht
    obtain ⟨instant, hrange, hinstant, rfl⟩ := Temporal.ofInstant_eq_ok_iff.mp ht
    unfold Zone.instantOfLocal? at hinstant
    dsimp only at hinstant
    split_ifs at hinstant
    exact (Option.some.inj hinstant).symm
  refine ⟨b, hwall ▸ hb ▸ u.start_isGreatest wall, ?_⟩
  rw [hmillis]
  exact lt_start_iff hregular u hv (hwall.trans (wallAt_host hregular hv)) hb

theorem truncateTo_daylight_after_southern :
    HostZone.ofText "AEST-10AEDT,M10.1.0,M4.1.0/3".toList =
      .daylight ⟨36000, 39600, ⟨10, 1, 0, 7200⟩, ⟨4, 1, 0, 10800⟩⟩ ∧
    Zone.hostKnows 1586015999999 = true ∧
    (Dates.truncateTo
      ⟨.host (.daylight ⟨36000, 39600, ⟨10, 1, 0, 7200⟩, ⟨4, 1, 0, 10800⟩⟩), .fixed 0⟩ .minute
      (.value (.instant 1586015999999 false))).result = .ok (.instant 1586019540000 false) ∧
    (DaylightRule.mk 36000 39600 ⟨10, 1, 0, 7200⟩ ⟨4, 1, 0, 10800⟩).InLastHour 1586015999 := by
  have hresult : (Dates.truncateTo
      ⟨.host (.daylight ⟨36000, 39600, ⟨10, 1, 0, 7200⟩, ⟨4, 1, 0, 10800⟩⟩), .fixed 0⟩ .minute
      (.value (.instant 1586015999999 false))).result = .ok (.instant 1586019540000 false) := by
    decide +kernel
  obtain ⟨b, hb, hiff⟩ := truncateTo_daylight_after_iff (.inr ofText_southern) (.fixed 0) .minute
    false (by decide) hresult
  obtain rfl : b = 1586055540000 := hb.unique (TimeUnit.start_isGreatest .minute _)
  exact ⟨ofText_southern, by decide, hresult,
    ((hiff.mp (by decide)).resolve_right (by decide)).2⟩

theorem truncateTo_hour_after :
    (Dates.truncateTo ⟨.host (.ofText "EST5EDT,M3.2.0,M11.1.0".toList), .fixed 0⟩ .hour
      (.value (.instant 1604210399000 false))).result = .ok (.instant 1604210400000 false) := by
  rw [ofText_northern]
  decide

end Coercion
