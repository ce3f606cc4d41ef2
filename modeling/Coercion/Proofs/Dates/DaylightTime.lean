import Coercion.Proofs.Dates.UnitStarts
import Coercion.Proofs.Reporting.Queries
import Coercion.Proofs.Time.LocalReadings
import Coercion.Proofs.Time.Seasons

namespace Coercion

open Calendar

namespace HostZone

/-- The offset of standard time in seconds. -/
def standard : HostZone → Int
  | constant offset => offset
  | daylight r => r.standard

/-- The offset that a zone has in standard time. One that is too large for a zone is UTC. -/
def standardOffset (rule : HostZone) : Offset :=
  (Offset.ofSeconds? rule.standard).getD .utc

theorem standardOffset_eq {rule : HostZone} {o : Offset}
    (h : Offset.ofSeconds? rule.standard = some o) : rule.standardOffset = o := by
  rw [standardOffset, h, Option.getD_some]

/-- Whether daylight saving time is in effect at an instant, in seconds. -/
def IsDaylight : HostZone → Int → Prop
  | constant _, _ => False
  | daylight r, instant => r.IsOn instant

def IsSeasonal : HostZone → Prop
  | constant _ => True
  | daylight r => r.IsRegular ∧ r.IsSeasonal

theorem isSeasonal_of_mem_rules {text : String} (h : text ∈ rules) :
    (ofText text.toList).IsSeasonal := by
  have hregular := isRegular_of_mem_rules h
  simp only [rules, List.mem_cons, List.not_mem_nil, or_false] at h
  obtain rfl | rfl | rfl | rfl | rfl | rfl | rfl | rfl | rfl | rfl := h
  iterate 8 trivial
  · rw [ofText_northern] at hregular ⊢
    exact ⟨hregular, .inl (by decide)⟩
  · rw [ofText_southern] at hregular ⊢
    exact ⟨hregular, .inr (by decide)⟩

end HostZone

theorem Offset.lt_of_ofSeconds? {seconds : Int} {o : Offset} (h : ofSeconds? seconds = some o) :
    -50460 < seconds ∧ seconds < 50460 := by
  have hminutes := minutes_of_ofSeconds? h
  have hcut := Int.mul_tdiv_add_tmod seconds 60
  have hrest := Int.tmod_lt_of_pos seconds (by decide : (0 : Int) < 60)
  have hrest' := Int.lt_tmod_of_pos seconds (by decide : (0 : Int) < 60)
  have := o.inRange
  omega

theorem Offset.sign_of_ofSeconds? {seconds : Int} {o : Offset} (h : ofSeconds? seconds = some o) :
    (0 < seconds → 0 ≤ o.minutes) ∧ (seconds ≤ 0 → o.minutes ≤ 0) := by
  rw [minutes_of_ofSeconds? h]
  refine ⟨fun heast => Int.tdiv_nonneg heast.le (by decide), fun hwest => ?_⟩
  have hneg := Int.tdiv_nonneg (a := -seconds) (b := 60) (by omega) (by decide)
  rw [Int.neg_tdiv] at hneg
  omega

namespace Zone

theorem hostKnows_monthStart_iff (index : Int) :
    hostKnows (monthStart index * millisPerDay) = true ↔
      12 * -262143 ≤ index ∧ index < 12 * 262143 := by
  obtain ⟨hmin, hmax⟩ := yearStart_hostKnows
  have hlow : monthStart (12 * -262143) ≤ monthStart index ↔ 12 * -262143 ≤ index :=
    monthStart_strictMono.le_iff_le
  have hhigh : monthStart index < monthStart (12 * 262143) ↔ index < 12 * 262143 :=
    monthStart_strictMono.lt_iff_lt
  rw [hostKnows_iff, ← hlow, ← hhigh]
  unfold yearStart at hmin hmax
  unfold millisPerDay
  omega

/-- Whether the host's rule covers the first days of January and July of a year. -/
def coversYear (year : Int) : Bool :=
  hostKnows (carriedMillis year 0 1 0 0 0) && hostKnows (carriedMillis year 6 1 0 0 0)

theorem coversYear_iff (year : Int) :
    coversYear year = true ↔ -262143 ≤ year ∧ year ≤ 262142 := by
  rw [coversYear, Bool.and_eq_true, carriedMillis_month, carriedMillis_month,
    hostKnows_monthStart_iff, hostKnows_monthStart_iff]
  omega

variable {rule : HostZone}

theorem hostKnows_of_coversYear {millis : Int}
    (hyear : coversYear (Civil.ofMillis ((host rule).wallAt millis)).year = true) :
    hostKnows millis = true := by
  by_contra hunknown
  rw [wallAt_of_unknown (by simpa using hunknown), coversYear_iff] at hyear
  obtain ⟨hmin, hmax⟩ := yearStart_hostKnows
  have hle (y : Int) : y ≤ (Civil.ofMillis millis).year ↔ yearStart y ≤ millis / millisPerDay :=
    le_year_iff y _
  have hfirst := (hle (-262143)).mp hyear.1
  have hlast := (hle 262143).not.mp (by omega)
  rw [hostKnows_iff] at hunknown
  unfold millisPerDay at *
  omega

theorem hostKnows_near_month {index n : Int} (h : 12 * -262143 < index ∧ index < 12 * 262143)
    (hnear : monthStart index * millisPerDay - millisPerDay ≤ n ∧
      n < monthStart index * millisPerDay + millisPerDay) : hostKnows n = true := by
  obtain ⟨hmin, hmax⟩ := yearStart_hostKnows
  have hlow : monthStart (12 * -262143) < monthStart index := monthStart_strictMono h.1
  have hhigh : monthStart index < monthStart (12 * 262143) := monthStart_strictMono h.2
  rw [hostKnows_iff]
  unfold yearStart at hmin hmax
  unfold millisPerDay at hnear
  omega

section

variable {seconds : Int} {o : Offset} (ho : Offset.ofSeconds? seconds = some o)

include ho

theorem offsetOfLocal_month {index : Int} (h : 12 * -262143 < index ∧ index < 12 * 262143)
    (hresolved : resolved? rule (monthStart index * millisPerDay) =
      if hostKnows (monthStart index * millisPerDay - seconds * 1000) then some seconds
      else none) :
    (host rule).offsetOfLocal (monthStart index * millisPerDay) = o := by
  have hseconds := Offset.lt_of_ofSeconds? ho
  have hknown : hostKnows (monthStart index * millisPerDay) = true :=
    (hostKnows_monthStart_iff index).mpr ⟨h.1.le, h.2⟩
  have hinstant : hostKnows (monthStart index * millisPerDay - seconds * 1000) = true :=
    hostKnows_near_month h (by unfold millisPerDay; omega)
  rw [if_pos hinstant] at hresolved
  rw [offsetOfLocal, if_pos hknown, hresolved, Option.bind_some, ho, Option.getD_some]

theorem offsetOfLocal_first (hresolved : resolved? rule (yearStart (-262143) * millisPerDay) =
      if hostKnows (yearStart (-262143) * millisPerDay - seconds * 1000) then some seconds
      else none) :
    (host rule).offsetOfLocal (yearStart (-262143) * millisPerDay) =
      if 0 < seconds then .utc else o := by
  have hseconds := Offset.lt_of_ofSeconds? ho
  have hfirst : yearStart (-262143) * millisPerDay = -8334601228800000 := yearStart_hostKnows.1
  rw [hfirst] at hresolved ⊢
  rw [offsetOfLocal, if_pos (by decide), hresolved]
  split_ifs with hinstant heast heast
  · rw [hostKnows_iff] at hinstant
    omega
  · rw [Option.bind_some, ho, Option.getD_some]
  · exact @offsetAt_host_of_unknown rule (-8334601228800000 - millisPerDay) (by decide)
  · rw [hostKnows_iff] at hinstant
    omega

end

theorem offsetOfLocal_constant_of_none {s : Int} (ho : Offset.ofSeconds? s = none) (wall : Int) :
    (host (.constant s)).offsetOfLocal wall = .utc := by
  have hutc (instant : Int) : (host (.constant s)).offsetAt instant = .utc := by
    by_cases hknown : hostKnows instant = true
    · rw [offsetAt_constant hknown, ho, Option.getD_none]
    · exact offsetAt_host_of_unknown (by simpa using hknown)
  rw [offsetOfLocal, resolved?_constant, hutc]
  split_ifs <;> simp [ho]

def leastOffset (z : Zone) (year : Int) : Int :=
  min (z.offsetOfLocal (carriedMillis year 0 1 0 0 0)).minutes
    (z.offsetOfLocal (carriedMillis year 6 1 0 0 0)).minutes

section

variable {year : Int} (hyear : coversYear year = true)

include hyear

theorem leastOffset_of_resolved {january july : Int} {o p : Offset}
    (ho : Offset.ofSeconds? january = some o) (hp : Offset.ofSeconds? july = some p)
    (hjanuary : resolved? rule (yearStart year * millisPerDay) =
      if hostKnows (yearStart year * millisPerDay - january * 1000) then some january else none)
    (hjuly : resolved? rule (monthStart (12 * year + 6) * millisPerDay) =
      if hostKnows (monthStart (12 * year + 6) * millisPerDay - july * 1000) then some july
      else none) :
    (host rule).leastOffset year =
      min (if year = -262143 ∧ 0 < january then 0 else o.minutes) p.minutes := by
  rw [coversYear_iff] at hyear
  rw [leastOffset, carriedMillis_month, carriedMillis_month, add_zero,
    offsetOfLocal_month hp (by omega) hjuly]
  congr 1
  by_cases hfirst : year = -262143
  · subst hfirst
    have hoffset := offsetOfLocal_first ho hjanuary
    unfold yearStart at hoffset
    rw [hoffset]
    simp only [true_and]
    split_ifs <;> rfl
  · have hoffset : (host rule).offsetOfLocal (monthStart (12 * year) * millisPerDay) = o :=
      offsetOfLocal_month ho (by omega) hjanuary
    rw [hoffset, if_neg (by simp [hfirst])]

theorem leastOffset_constant (s : Int) : (host (.constant s)).leastOffset year =
    if year = -262143 ∧ 0 < (HostZone.constant s).standardOffset.minutes then 0
    else (HostZone.constant s).standardOffset.minutes := by
  cases ho : Offset.ofSeconds? s with
  | none =>
    have hstandard : (HostZone.constant s).standardOffset = .utc := by
      simp [HostZone.standardOffset, HostZone.standard, ho]
    rw [leastOffset, offsetOfLocal_constant_of_none ho, offsetOfLocal_constant_of_none ho,
      hstandard]
    exact (ite_self 0).symm
  | some o =>
    have hstandard : (HostZone.constant s).standardOffset = o := HostZone.standardOffset_eq ho
    obtain ⟨heast, hwest⟩ := Offset.sign_of_ofSeconds? ho
    rw [leastOffset_of_resolved hyear ho ho (resolved?_constant _) (resolved?_constant _),
      hstandard]
    split_ifs <;> omega

theorem leastOffset_daylight {r : DaylightRule} (h : r.IsRegular) (hs : r.IsSeasonal) :
    (host (.daylight r)).leastOffset year =
      if year = -262143 ∧ 0 < (HostZone.daylight r).standardOffset.minutes then 0
      else (HostZone.daylight r).standardOffset.minutes := by
  have hgap := h.gap
  have hsecond (day : Int) : day * millisPerDay / 1000 = day * 86400 := by
    unfold millisPerDay
    omega
  obtain ⟨o, ho, hmillis⟩ := exists_ofSeconds?_of_isRegular h (.inl rfl)
  obtain ⟨p, hp, hmillis'⟩ := exists_ofSeconds?_of_isRegular h (.inr rfl)
  have hjanuary := h.readingOffset?_january year
  have hjuly := h.readingOffset?_july hs year
  rw [← hsecond] at hjanuary hjuly
  have hstandard : (HostZone.daylight r).standardOffset = o := HostZone.standardOffset_eq ho
  unfold Offset.millis millisPerMinute at hmillis hmillis'
  rw [hstandard]
  by_cases hnorth : r.starts.month < r.ends.month
  · rw [if_pos hnorth] at hjanuary hjuly
    rw [leastOffset_of_resolved hyear ho hp (resolved?_eq hjanuary) (resolved?_eq hjuly)]
    split_ifs <;> omega
  · rw [if_neg hnorth] at hjanuary hjuly
    rw [leastOffset_of_resolved hyear hp ho (resolved?_eq hjanuary) (resolved?_eq hjuly)]
    split_ifs <;> omega

theorem leastOffset_eq (h : rule.IsSeasonal) : (host rule).leastOffset year =
    if year = -262143 ∧ 0 < rule.standardOffset.minutes then 0
    else rule.standardOffset.minutes := by
  cases rule with
  | constant s => exact leastOffset_constant hyear s
  | daylight r => exact leastOffset_daylight hyear h.1 h.2

end

theorem leastOffset_of_not_coversYear {year : Int} (hyear : coversYear year = false) :
    (host rule).leastOffset year = 0 := by
  have hcovers := coversYear_iff year
  have hindex (month0 : Int) (hmonth : 0 ≤ month0 ∧ month0 ≤ 6) :
      hostKnows (carriedMillis year month0 1 0 0 0) = false := by
    rw [← Bool.not_eq_true, carriedMillis_month, hostKnows_monthStart_iff]
    simp only [hyear, Bool.false_eq_true, false_iff] at hcovers
    omega
  rw [leastOffset, offsetOfLocal_of_unknown (hindex 0 (by decide)),
    offsetOfLocal_of_unknown (hindex 6 (by decide))]
  rfl

theorem minutes_offsetAt (h : rule.IsSeasonal) {millis : Int} (hknown : hostKnows millis = true) :
    (rule.IsDaylight (millis / 1000) →
      ((host rule).offsetAt millis).minutes = rule.standardOffset.minutes + 60) ∧
    (¬rule.IsDaylight (millis / 1000) →
      ((host rule).offsetAt millis).minutes = rule.standardOffset.minutes) := by
  cases rule with
  | constant s => exact ⟨False.elim, fun _ => by rw [offsetAt_constant hknown]; rfl⟩
  | daylight r =>
    have hgap := h.1.gap
    have hoffset := offsetAt_host h.1 hknown
    obtain ⟨o, ho, hmillis⟩ := exists_ofSeconds?_of_isRegular h.1 (.inl rfl)
    have hstandard : (HostZone.daylight r).standardOffset = o := HostZone.standardOffset_eq ho
    rw [hstandard, HostZone.IsDaylight, h.1.isOn_iff]
    unfold Offset.millis millisPerMinute at hoffset hmillis
    have hcases := r.offsetAt_cases (millis / 1000)
    omega

end Zone

theorem Dates.result_isDaylight (z : Zone) (clock : Clock) {millis : Int}
    (h : inRange millis = true) (dateOnly : Bool) :
    (Dates.isDaylight ⟨z, clock⟩ (.value (.instant millis dateOnly))).result =
      .ok (z.leastOffset (Civil.ofMillis (z.wallAt millis)).year != (z.offsetAt millis).minutes) :=
  Dates.result_ofDate_value _ _

/-- Daylight saving time is told by its seasons, in which the daylight offset is in effect. East of
UTC the first year that the host's rule covers passes for daylight saving time as a whole, and past
the years that it covers so does every instant with an offset. A fixed zone has none. -/
theorem isDaylight_host {text : String} (htext : text ∈ HostZone.rules) {rule : HostZone}
    (hrule : HostZone.ofText text.toList = rule) (clock : Clock) {millis : Int}
    (h : inRange millis = true) (dateOnly : Bool) :
    let z : Zone := .host rule
    let year := (Civil.ofMillis (z.wallAt millis)).year
    (∃ b, (Dates.isDaylight ⟨z, clock⟩ (.value (.instant millis dateOnly))).result = .ok b ∧
      (Zone.coversYear year = true → (b = true ↔ rule.IsDaylight (millis / 1000) ∨
        (year = -262143 ∧ 0 < rule.standardOffset.minutes))) ∧
      (Zone.coversYear year = false → (b = true ↔ (z.offsetAt millis).minutes ≠ 0))) ∧
    (∀ r, rule = .daylight r → Zone.coversYear year = true →
      (rule.IsDaylight (millis / 1000) ↔ (z.offsetAt millis).millis = r.daylight * 1000)) ∧
    ∀ offset, (Dates.isDaylight ⟨.fixed offset, clock⟩ (.value (.instant millis dateOnly))).result =
      .ok false := by
  intro z year
  have hseasonal : rule.IsSeasonal := hrule ▸ HostZone.isSeasonal_of_mem_rules htext
  refine ⟨⟨_, Dates.result_isDaylight z clock h dateOnly, fun hyear => ?_, fun hyear => ?_⟩,
    ?_, fun offset => ?_⟩
  · obtain ⟨hon, hoff⟩ := Zone.minutes_offsetAt hseasonal (Zone.hostKnows_of_coversYear hyear)
    rw [Zone.leastOffset_eq hyear hseasonal, bne_iff_ne]
    by_cases hdaylight : rule.IsDaylight (millis / 1000)
    · simp only [hdaylight, true_or, iff_true]
      rw [hon hdaylight]
      split_ifs <;> omega
    · simp only [hdaylight, false_or]
      rw [hoff hdaylight]
      split_ifs with hfirst
      · exact iff_of_true (by omega) hfirst
      · exact iff_of_false (not_not.mpr rfl) hfirst
  · rw [Zone.leastOffset_of_not_coversYear hyear, bne_iff_ne]
    exact ne_comm
  · rintro r rfl hyear
    rw [HostZone.IsDaylight, hseasonal.1.isOn_iff,
      Zone.offsetAt_host hseasonal.1 (Zone.hostKnows_of_coversYear hyear)]
    omega
  · rw [Dates.result_isDaylight]
    simp [Zone.leastOffset, Zone.offsetOfLocal, Zone.offsetAt]

theorem isDaylight_host_southern :
    let r : DaylightRule := ⟨36000, 39600, ⟨10, 1, 0, 7200⟩, ⟨4, 1, 0, 10800⟩⟩
    let z : Zone := .host (.daylight r)
    ("AEST-10AEDT,M10.1.0,M4.1.0/3" ∈ HostZone.rules ∧
      HostZone.ofText "AEST-10AEDT,M10.1.0,M4.1.0/3".toList = .daylight r ∧
      inRange 1577836800000 = true ∧
      Zone.coversYear (Civil.ofMillis (z.wallAt 1577836800000)).year = true ∧
      r.IsOn 1577836800) ∧
    (Dates.isDaylight ⟨z, .fixed 0⟩ (.value (.instant 1577836800000 false))).result = .ok true := by
  intro r z
  have hmem : "AEST-10AEDT,M10.1.0,M4.1.0/3" ∈ HostZone.rules := by decide
  have hyear : Zone.coversYear (Civil.ofMillis (z.wallAt 1577836800000)).year = true := by
    decide +kernel
  have hstart : r.starts.reading 2019 - r.standard ≤ 1577836800 := by decide +kernel
  have hstop : 1577836800 < r.seasonEnd 2019 := by decide +kernel
  have hon : r.IsOn 1577836800 := ⟨2019, hstart, hstop⟩
  obtain ⟨⟨b, hresult, hcovered, -⟩, -⟩ :=
    isDaylight_host hmem ofText_southern (.fixed 0)
      (by decide : inRange 1577836800000 = true) false
  obtain rfl : b = true := (hcovered hyear).mpr (.inl hon)
  exact ⟨⟨hmem, ofText_southern, by decide, hyear, hon⟩, hresult⟩

theorem isDaylight_firstYear :
    let z : Zone := .host (.constant 19800)
    "IST-5:30" ∈ HostZone.rules ∧ HostZone.ofText "IST-5:30".toList = .constant 19800 ∧
      Zone.coversYear (Civil.ofMillis (z.wallAt (-8334600000000000))).year = true ∧
      (Dates.isDaylight ⟨z, .fixed 0⟩ (.value (.instant (-8334600000000000) false))).result =
        .ok true := by
  decide +kernel

end Coercion
