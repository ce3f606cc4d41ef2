import Coercion.Proofs.Time.HostOffsets

namespace Coercion

open Calendar

namespace HostZone

def IsRegular : HostZone → Prop
  | constant offset => offset ≤ 0 ∨ offset % 60 = 0
  | daylight r => r.IsRegular

/-- Whether an instant is in the last hour of daylight saving time, whose readings come again. -/
def InLastHour : HostZone → Int → Prop
  | constant _, _ => False
  | daylight r, instant => r.InLastHour instant

/-- Rules for local time: constant offsets, two of which stand for UTC because they are too large or
no offset at all, and daylight saving time on both hemispheres. -/
def rules : List String :=
  ["UTC0", "", "IST-5:30", "XXX-15", "XXX-14", "XXX14:00:59", "LMT0:09:21", "XXX-25",
    "EST5EDT,M3.2.0,M11.1.0", "AEST-10AEDT,M10.1.0,M4.1.0/3"]

theorem isRegular_of_mem_rules {text : String} (h : text ∈ rules) :
    (ofText text.toList).IsRegular := by
  simp only [rules, List.mem_cons, List.not_mem_nil, or_false] at h
  obtain rfl | rfl | rfl | rfl | rfl | rfl | rfl | rfl | rfl | rfl := h
  · exact .inl (by decide)
  · exact .inl (by decide)
  · exact .inr (by decide)
  · exact .inr (by decide)
  · exact .inr (by decide)
  · exact .inl (by decide)
  · exact .inl (by decide)
  · exact .inl (by decide)
  · rw [ofText_northern]
    exact isRegular_of_ofText (.inl ofText_northern)
  · rw [ofText_southern]
    exact isRegular_of_ofText (.inr ofText_southern)

end HostZone

namespace Offset

theorem minutes_of_ofSeconds? {seconds : Int} {o : Offset} (h : ofSeconds? seconds = some o) :
    o.minutes = seconds.tdiv 60 := by
  unfold ofSeconds? ofMinutes at h
  split_ifs at h with hrange
  · rw [← Option.some.inj h]
  · cases h

theorem millis_of_ofSeconds? {seconds : Int} {o : Offset} (h : ofSeconds? seconds = some o)
    (hseconds : seconds ≤ 0 ∨ seconds % 60 = 0) :
    seconds * 1000 ≤ o.millis ∧ o.millis < seconds * 1000 + 60000 := by
  have hminutes := minutes_of_ofSeconds? h
  have hcut := Int.mul_tdiv_add_tmod seconds 60
  have hrest : seconds.tmod 60 ≤ 0 ∧ -60 < seconds.tmod 60 := by
    obtain hneg | hwhole := hseconds
    · have hmod := Int.tmod_eq_emod_of_nonneg (a := -seconds) (b := 60) (by omega)
      rw [Int.neg_tmod] at hmod
      omega
    · rw [Int.tmod_eq_zero_of_dvd (Int.dvd_of_emod_eq_zero hwhole)]
      decide
  unfold millis millisPerMinute
  omega

end Offset

namespace Zone

section

variable {s m : Int}

theorem offsetAt_constant (hm : hostKnows m = true) :
    (host (.constant s)).offsetAt m = (Offset.ofSeconds? s).getD .utc :=
  if_pos hm

theorem resolved?_constant (wall : Int) : resolved? (.constant s) wall =
    if hostKnows (wall - s * 1000) then some s else none := rfl

theorem offsetOfLocal_constant (hs : s ≤ 0 ∨ s % 60 = 0) (hm : hostKnows m = true)
    (hw : hostKnows ((host (.constant s)).wallAt m) = true) :
    (host (.constant s)).offsetOfLocal ((host (.constant s)).wallAt m) =
      (host (.constant s)).offsetAt m := by
  have hwall := (host (.constant s)).wallAt_eq m
  rw [offsetAt_constant hm] at hwall ⊢
  generalize (host (.constant s)).wallAt m = wall at hw hwall ⊢
  rw [offsetOfLocal, if_pos hw, resolved?_constant]
  cases ho : Offset.ofSeconds? s with
  | none =>
    have hutc (instant : Int) : (host (.constant s)).offsetAt instant = .utc := by
      by_cases hknown : hostKnows instant = true
      · rw [offsetAt_constant hknown, ho, Option.getD_none]
      · exact if_neg hknown
    by_cases hinstant : hostKnows (wall - s * 1000) = true
    · simp [hinstant, ho, hutc]
    · simp [hinstant, hutc]
  | some o =>
    rw [ho, Option.getD_some] at hwall
    have hmillis := Offset.millis_of_ofSeconds? ho hs
    obtain ⟨hlo, hhi⟩ := o.inRange
    by_cases hinstant : hostKnows (wall - s * 1000) = true
    · simp [hinstant, ho]
    · have hdayBefore : hostKnows (wall - millisPerDay) = true := by
        rw [hostKnows_iff] at hm hw hinstant ⊢
        unfold Offset.millis millisPerMinute at *
        unfold millisPerDay
        omega
      simp [hinstant, offsetAt_constant hdayBefore, ho]

end

section

variable {r : DaylightRule} (h : r.IsRegular)

include h

theorem offsetOfLocal_daylight {m : Int} (hm : hostKnows m = true)
    (hw : hostKnows ((host (.daylight r)).wallAt m) = true)
    (hlast : ¬r.InLastHour (m / 1000)) :
    ((host (.daylight r)).offsetOfLocal ((host (.daylight r)).wallAt m)).millis =
      ((host (.daylight r)).offsetAt m).millis := by
  have hwall := wallAt_host h hm
  have hsecond : (host (.daylight r)).wallAt m / 1000 = m / 1000 + r.offsetAt (m / 1000) := by
    omega
  have hreading := h.readingOffset?_wall hlast
  rw [← hsecond] at hreading
  rw [offsetAt_host h hm]
  refine offsetOfLocal_host h hw hreading (r.offsetAt_cases _) ?_
  rwa [hwall, add_sub_cancel_right]

theorem offsetOfLocal_skipped (year : Int) {w : Int} (hw : hostKnows w = true)
    (hlow : r.starts.reading year ≤ w / 1000) (hhigh : w / 1000 < r.starts.reading year + 3600) :
    ((host (.daylight r)).offsetOfLocal w).millis = r.standard * 1000 := by
  have hpositions := h.positions year
  have hbounds := h.bounds
  have hnear {n : Int} := hostKnows_of_midyear (n := n) year hw (by omega) (by omega)
  obtain ⟨hnone | hsome, hbefore, -⟩ := h.readingOffset?_skipped year hlow hhigh
  · have hresolved : resolved? (.daylight r) w = none := by
      have hfilter : resolved? (.daylight r) w = (r.readingOffset? (w / 1000)).filter
        fun offset => hostKnows (w - offset * millisPerSecond) := rfl
      rw [hfilter, hnone]
      rfl
    have hday : (w - millisPerDay) / 1000 = w / 1000 - 86400 := by
      unfold millisPerDay
      omega
    rw [offsetOfLocal, if_pos hw, hresolved, Option.bind_none, Option.getD_none,
      offsetAt_host h (hnear (by unfold millisPerDay; omega)), hday, hbefore]
  · exact offsetOfLocal_host h hw hsome (.inl rfl) (hnear (by omega))

end

theorem instantOfLocal?_eq {z : Zone} {wall instant : Int}
    (h : (z.offsetOfLocal wall).millis = wall - instant) (hinstant : hostKnows instant = true) :
    z.instantOfLocal? wall = some instant := by
  have hback : wall - (z.offsetOfLocal wall).millis = instant := by omega
  rw [instantOfLocal?, hback]
  exact if_pos (inRange_of_hostKnows hinstant)

end Zone

section

variable {rule : HostZone} (h : rule.IsRegular)

include h

theorem instantOfLocal?_wallAt {m : Int} (hm : Zone.hostKnows m = true)
    (hw : Zone.hostKnows ((Zone.host rule).wallAt m) = true)
    (hlast : ¬rule.InLastHour (m / 1000)) :
    (Zone.host rule).instantOfLocal? ((Zone.host rule).wallAt m) = some m := by
  have hwall := (Zone.host rule).wallAt_eq m
  have hoffset : ((Zone.host rule).offsetOfLocal ((Zone.host rule).wallAt m)).millis =
      ((Zone.host rule).offsetAt m).millis := by
    cases rule with
    | constant s => rw [Zone.offsetOfLocal_constant h hm hw]
    | daylight r => exact Zone.offsetOfLocal_daylight h hm hw hlast
  exact Zone.instantOfLocal?_eq (by omega) hm

end

theorem instantOfLocal?_skipped {r : DaylightRule} (h : r.IsRegular) (year : Int) {w : Int}
    (hw : Zone.hostKnows w = true) (hlow : r.starts.reading year ≤ w / 1000)
    (hhigh : w / 1000 < r.starts.reading year + 3600) :
    (Zone.host (.daylight r)).instantOfLocal? w = some (w - r.standard * 1000) ∧
      (Zone.host (.daylight r)).wallAt (w - r.standard * 1000) = w + 3600000 := by
  have hgap := h.gap
  have hpositions := h.positions year
  have hbounds := h.bounds
  have hknown : Zone.hostKnows (w - r.standard * 1000) = true :=
    Zone.hostKnows_of_midyear year hw (by omega) (by omega) (by omega)
  have hsecond : (w - r.standard * 1000) / 1000 = w / 1000 - r.standard := by omega
  obtain ⟨-, -, hafter⟩ := h.readingOffset?_skipped year hlow hhigh
  refine ⟨Zone.instantOfLocal?_eq ?_ hknown, ?_⟩
  · rw [Zone.offsetOfLocal_skipped h year hw hlow hhigh]
    omega
  · rw [wallAt_host h hknown, hsecond, hafter]
    omega

theorem wallAt_ne_skipped {r : DaylightRule} (h : r.IsRegular) (year : Int) {w : Int}
    (hw : Zone.hostKnows w = true) (hlow : r.starts.reading year ≤ w / 1000)
    (hhigh : w / 1000 < r.starts.reading year + 3600) (m : Int) :
    (Zone.host (.daylight r)).wallAt m ≠ w := by
  rintro rfl
  cases hknown : Zone.hostKnows m with
  | true =>
    have hsecond :
        (Zone.host (.daylight r)).wallAt m / 1000 = m / 1000 + r.offsetAt (m / 1000) := by
      rw [wallAt_host h hknown]
      omega
    exact h.ne_skipped year hlow hhigh (m / 1000) hsecond.symm
  | false =>
    rw [Zone.wallAt_of_unknown hknown, hknown] at hw
    cases hw

/-- The reading of an instant on a host is read back as the instant, unless it is in the last hour
of daylight saving time, whose readings come again. A reading that the clock leaps over when
daylight saving time starts is that of no instant. It is read at the offset of standard time, so
that the clock then shows an hour more. Past the range of the host's rule local time is UTC, and no
reading comes again or is left out. -/
theorem localReadings_host {text : String} (htext : text ∈ HostZone.rules) {rule : HostZone}
    (hrule : HostZone.ofText text.toList = rule) :
    (∀ m, Zone.hostKnows m = true → Zone.hostKnows ((Zone.host rule).wallAt m) = true →
      ¬rule.InLastHour (m / 1000) →
      (Zone.host rule).instantOfLocal? ((Zone.host rule).wallAt m) = some m) ∧
    (∀ r, rule = .daylight r → ∀ year w, Zone.hostKnows w = true →
      r.starts.reading year ≤ w / 1000 → w / 1000 < r.starts.reading year + 3600 →
      (∀ m, inRange m = true → (Zone.host rule).wallAt m ≠ w) ∧
        (Zone.host rule).instantOfLocal? w = some (w - r.standard * 1000) ∧
        (Zone.host rule).wallAt (w - r.standard * 1000) = w + 3600000) ∧
    ∀ w, Zone.hostKnows w = false →
      (Zone.host rule).instantOfLocal? w = (if inRange w then some w else none) ∧
        (inRange w = true → (Zone.host rule).wallAt w = w) := by
  have hregular : rule.IsRegular := hrule ▸ HostZone.isRegular_of_mem_rules htext
  refine ⟨fun m hm hw hlast => instantOfLocal?_wallAt hregular hm hw hlast, ?_, ?_⟩
  · rintro r rfl year w hw hlow hhigh
    exact ⟨fun m _ => wallAt_ne_skipped hregular year hw hlow hhigh m,
      instantOfLocal?_skipped hregular year hw hlow hhigh⟩
  · intro w hw
    have hutc : Offset.utc.millis = 0 := rfl
    refine ⟨?_, fun _ => Zone.wallAt_of_unknown hw⟩
    rw [Zone.instantOfLocal?, Zone.offsetOfLocal_of_unknown hw, hutc, sub_zero]

theorem localReadings_host_northern :
    let r : DaylightRule := ⟨-18000, -14400, ⟨3, 2, 0, 7200⟩, ⟨11, 1, 0, 7200⟩⟩
    let z : Zone := .host (.daylight r)
    ("EST5EDT,M3.2.0,M11.1.0" ∈ HostZone.rules ∧
      HostZone.ofText "EST5EDT,M3.2.0,M11.1.0".toList = .daylight r ∧
      Zone.hostKnows 1604210400000 = true ∧ Zone.hostKnows (z.wallAt 1604210400000) = true ∧
      ¬r.InLastHour 1604210400 ∧ Zone.hostKnows 1615689000000 = true ∧
      r.starts.reading 2021 ≤ 1615689000 ∧ 1615689000 < r.starts.reading 2021 + 3600 ∧
      Zone.hostKnows 8210266876800000 = false) ∧
    z.instantOfLocal? (z.wallAt 1604210400000) = some 1604210400000 ∧
    (∀ m, inRange m = true → z.wallAt m ≠ 1615689000000) ∧
    z.instantOfLocal? 1615689000000 = some 1615707000000 ∧
    z.wallAt 1615707000000 = 1615692600000 ∧
    z.instantOfLocal? 8210266876800000 = some 8210266876800000 ∧
    z.wallAt 8210266876800000 = 8210266876800000 := by
  intro r z
  have hmem : "EST5EDT,M3.2.0,M11.1.0" ∈ HostZone.rules := by decide
  have hlast : ¬r.InLastHour 1604210400 := by
    rw [(isRegular_of_ofText (.inl ofText_northern)).inLastHour_iff]
    decide +kernel
  have hlow : r.starts.reading 2021 ≤ 1615689000 := by decide +kernel
  have hhigh : 1615689000 < r.starts.reading 2021 + 3600 := by decide +kernel
  have hknown : Zone.hostKnows (z.wallAt 1604210400000) = true := by decide +kernel
  obtain ⟨hback, hskipped, hpast⟩ := localReadings_host hmem ofText_northern
  obtain ⟨hnone, hinstant, hwall⟩ := hskipped r rfl 2021 1615689000000 (by decide) hlow hhigh
  obtain ⟨hinstant', hwall'⟩ := hpast 8210266876800000 (by decide)
  exact ⟨⟨hmem, ofText_northern, by decide, hknown, hlast, by decide, hlow, hhigh, by decide⟩,
    hback _ (by decide) hknown hlast, hnone, hinstant, hwall, hinstant', hwall' (by decide)⟩

end Coercion
