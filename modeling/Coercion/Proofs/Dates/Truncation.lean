import Coercion.Proofs.Dates.UnitStarts
import Coercion.Reporting.Dates

namespace Coercion

open Calendar

namespace Zone

theorem wallAt_fixed (o : Offset) (instant : Int) :
    (Zone.fixed o).wallAt instant = instant + o.millis := rfl

end Zone

/-- The starts of a unit are midnights exactly from the day on. -/
theorem TimeUnit.startsDays_eq (u : TimeUnit) : u.startsDays = decide (day.rank ≤ u.rank) := by
  cases u <;> rfl

section

variable (o : Offset) (clock : Clock) (u : TimeUnit) {v : Int}

def startAt (o : Offset) (u : TimeUnit) (v : Int) : Int :=
  u.start (Civil.ofMillis (v + o.millis)) - o.millis

theorem startAt_le (v : Int) : startAt o u v ≤ v := by
  have := (u.start_isGreatest (v + o.millis)).1.2
  unfold startAt
  omega

theorem startAt_mono {v v' : Int} (h : v ≤ v') : startAt o u v ≤ startAt o u v' := by
  obtain ⟨hstarts, hle⟩ := (u.start_isGreatest (v + o.millis)).1
  have := (u.start_isGreatest (v' + o.millis)).2 ⟨hstarts, by omega⟩
  unfold startAt
  omega

/-- The start of a part of the unit lies in the same unit. -/
theorem startAt_startAt {fine : TimeUnit} (h : fine.PartOf u) (v : Int) :
    startAt o u (startAt o fine v) = startAt o u v := by
  obtain ⟨hstarts, hle⟩ := (u.start_isGreatest (v + o.millis)).1
  have hfine := (fine.start_isGreatest (v + o.millis)).2 ⟨h _ hstarts, hle⟩
  apply le_antisymm
  · exact startAt_mono o u (startAt_le o fine v)
  · have := (u.start_isGreatest (startAt o fine v + o.millis)).2
      ⟨hstarts, by unfold startAt; omega⟩
    unfold startAt at *
    omega

theorem inRange_startAt_iff (hv : inRange v = true) :
    inRange (startAt o u v) = true ↔ -maxInstant ≤ startAt o u v := by
  have := startAt_le o u v
  simp only [inRange, Bool.and_eq_true, decide_eq_true_eq] at hv ⊢
  omega

theorem result_truncateTo_fixed (dateOnly : Bool) (hv : inRange v = true) :
    (Dates.truncateTo ⟨.fixed o, clock⟩ u (.value (.instant v dateOnly))).result =
      .ofExcept (Temporal.ofInstant (some (startAt o u v)) u.startsDays) := by
  have hinstant : (Zone.fixed o).instantOfLocal? (u.start (Civil.ofMillis (v + o.millis))) =
      if inRange (startAt o u v) then some (startAt o u v) else none := rfl
  simp only [Dates.truncateTo, Dates.ofDate, Report.result_reported, Report.result_bind]
  change Ending.ofExcept (Temporal.ofInstant ((Zone.fixed o).instantOfLocal?
    (u.start (Civil.ofMillis (v + o.millis)))) u.startsDays) = _
  rw [hinstant]
  split_ifs with hin
  · rfl
  · rw [Temporal.ofInstant_of_not_inRange hin, Temporal.ofInstant_none]

variable {o clock u} in
theorem result_truncateTo_eq_ok {dateOnly : Bool} {hv : inRange v = true} {t : Temporal}
    (h : (Dates.truncateTo ⟨.fixed o, clock⟩ u (.value (.instant v dateOnly))).result = .ok t) :
    ∃ hin : inRange (startAt o u v) = true, t = .instant (startAt o u v) u.startsDays := by
  rw [result_truncateTo_fixed o clock u dateOnly hv, Ending.ofExcept_eq_ok,
    Temporal.ofInstant_eq_ok_iff] at h
  obtain ⟨n, hin, hn, rfl⟩ := h
  obtain rfl := Option.some.inj hn
  exact ⟨hin, rfl⟩

end

/-- At a constant offset an instant is truncated to the last start of the unit that is not after
its local reading, unless that instant is before the range. So the result is not after the instant,
it stays as it is when it is truncated again, a later instant has no earlier result, and it does
not matter whether the instant is first truncated to a part of the unit. -/
theorem truncateTo_fixed (o : Offset) (clock : Clock) (u : TimeUnit) {v : Int} (dateOnly : Bool)
    (hv : inRange v = true) :
    (∃ b, IsGreatest {b | u.Starts b ∧ b ≤ v + o.millis} b ∧
      (-maxInstant ≤ b - o.millis → ∃ hb : inRange (b - o.millis) = true,
        (Dates.truncateTo ⟨.fixed o, clock⟩ u (.value (.instant v dateOnly))).result =
          .ok (.instant (b - o.millis) (decide (TimeUnit.day.rank ≤ u.rank)))) ∧
      (b - o.millis < -maxInstant →
        (Dates.truncateTo ⟨.fixed o, clock⟩ u (.value (.instant v dateOnly))).result =
          .error .invalidDate)) ∧
    (∀ t, (Dates.truncateTo ⟨.fixed o, clock⟩ u (.value (.instant v dateOnly))).result = .ok t →
      t.millis ≤ v ∧
      (Dates.truncateTo ⟨.fixed o, clock⟩ u (.value t)).result = .ok t ∧
      ∀ v' dateOnly' (hv' : inRange v' = true), v ≤ v' → ∃ t',
        (Dates.truncateTo ⟨.fixed o, clock⟩ u (.value (.instant v' dateOnly'))).result = .ok t' ∧
          t.millis ≤ t'.millis) ∧
    ∀ fine : TimeUnit, fine.PartOf u →
      ((Dates.truncateTo ⟨.fixed o, clock⟩ fine (.value (.instant v dateOnly))).result.bind
        fun t => (Dates.truncateTo ⟨.fixed o, clock⟩ u (.value t)).result) =
      (Dates.truncateTo ⟨.fixed o, clock⟩ u (.value (.instant v dateOnly))).result := by
  have hresult := result_truncateTo_fixed o clock u dateOnly hv
  refine ⟨⟨startAt o u v + o.millis, ?_, fun hstart => ?_, fun hstart => ?_⟩, ?_, ?_⟩
  · rw [startAt, Int.sub_add_cancel]
    exact u.start_isGreatest _
  · rw [Int.add_sub_cancel] at hstart
    have hin := (inRange_startAt_iff o u hv).mpr hstart
    simp only [Int.add_sub_cancel]
    exact ⟨hin, by rw [hresult, Temporal.ofInstant_some hin, u.startsDays_eq, Ending.ofExcept_ok]⟩
  · rw [Int.add_sub_cancel] at hstart
    have hout := mt (inRange_startAt_iff o u hv).mp (not_le.mpr hstart)
    rw [hresult, Temporal.ofInstant_of_not_inRange hout, Ending.ofExcept_error]
  · intro t ht
    obtain ⟨hin, rfl⟩ := result_truncateTo_eq_ok ht
    refine ⟨startAt_le o u v, ?_, ?_⟩
    · rw [result_truncateTo_fixed o clock u _ hin, startAt_startAt o u (fun _ h => h),
        Temporal.ofInstant_some hin, Ending.ofExcept_ok]
    · intro v' dateOnly' hv' hle
      have hmono := startAt_mono o u hle
      have hin' := (inRange_startAt_iff o u hv').mpr
        (((inRange_startAt_iff o u hv).mp hin).trans hmono)
      refine ⟨.instant (startAt o u v') u.startsDays, ?_, hmono⟩
      rw [result_truncateTo_fixed o clock u dateOnly' hv', Temporal.ofInstant_some hin',
        Ending.ofExcept_ok]
  · intro fine hpart
    rw [hresult, result_truncateTo_fixed o clock fine dateOnly hv]
    by_cases hin : inRange (startAt o fine v) = true
    · rw [Temporal.ofInstant_some hin, Ending.ofExcept_ok, Ending.bind_ok,
        result_truncateTo_fixed o clock u _ hin, startAt_startAt o u hpart]
    · have hle : startAt o u v ≤ startAt o fine v := by
        rw [← startAt_startAt o u hpart]
        exact startAt_le o u _
      have hout : ¬inRange (startAt o u v) = true := by
        rw [inRange_startAt_iff o u hv]
        rw [inRange_startAt_iff o fine hv] at hin
        omega
      rw [Temporal.ofInstant_of_not_inRange hin, Temporal.ofInstant_of_not_inRange hout]
      rfl

theorem truncateTo_fixed_monday : inRange (-1) = true ∧ TimeUnit.second.PartOf .week ∧
    (Dates.truncateTo ⟨.fixed ⟨330, by decide⟩, .fixed 0⟩ .week
      (.value (.instant (-1) false))).result = .ok (.instant (-279000000) true) ∧
    (Dates.truncateTo ⟨.fixed ⟨330, by decide⟩, .fixed 0⟩ .week
      (.value (.instant (-279000000) true))).result = .ok (.instant (-279000000) true) ∧
    ((Dates.truncateTo ⟨.fixed ⟨330, by decide⟩, .fixed 0⟩ .second
        (.value (.instant (-1) false))).result.bind fun t =>
      (Dates.truncateTo ⟨.fixed ⟨330, by decide⟩, .fixed 0⟩ .week (.value t)).result) =
        .ok (.instant (-279000000) true) := by
  have hpart : TimeUnit.second.PartOf .week :=
    TimeUnit.partOf_of_rank_le (by decide) (by decide)
  obtain ⟨⟨b, hb, hresult⟩, hagain, hparts⟩ :=
    truncateTo_fixed ⟨330, by decide⟩ (.fixed 0) .week (v := -1) false (by decide)
  obtain rfl : b = -259200000 := hb.unique (TimeUnit.start_isGreatest .week _)
  obtain ⟨_, hresult⟩ := hresult.1 (by decide)
  exact ⟨by decide, hpart, hresult, (hagain _ hresult).2.1, (hparts _ hpart).trans hresult⟩

end Coercion
