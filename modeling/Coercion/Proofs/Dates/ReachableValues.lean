import Coercion.Proofs.Reading.ReadRanges
import Mathlib.Data.List.Infix

namespace Coercion

open Calendar

def Duration.total (ds : List Duration) : Int :=
  (ds.map millis).sum

@[simp] theorem Duration.total_nil : total [] = 0 := rfl

@[simp] theorem Duration.total_cons (d : Duration) (ds : List Duration) :
    total (d :: ds) = d.millis + total ds :=
  List.sum_cons

theorem Duration.total_perm {ds es : List Duration} (h : es.Perm ds) : total es = total ds :=
  (h.map millis).sum_eq

namespace Temporal

def admits : Temporal → Int → Bool
  | instant _ _ _, millis => inRange millis
  | interval _, millis => fitsWord millis

/-- The value of the same kind with other milliseconds: the note that an instant was given without
a time of day stays, and so does the unit of an interval. -/
def withMillis : (v : Temporal) → (millis : Int) → v.admits millis = true → Temporal
  | instant _ dateOnly _, millis, h => instant millis dateOnly h
  | interval own, millis, _ => interval ⟨millis, own.unit⟩

section

variable (v : Temporal) {millis other : Int} (h : v.admits millis = true)

@[simp] theorem millis_withMillis : (v.withMillis millis h).millis = millis := by
  cases v <;> rfl

@[simp] theorem admits_withMillis (other : Int) :
    (v.withMillis millis h).admits other = v.admits other := by
  cases v <;> rfl

theorem withMillis_withMillis (h' : (v.withMillis millis h).admits other = true)
    (h'' : v.admits other = true) :
    (v.withMillis millis h).withMillis other h' = v.withMillis other h'' := by
  cases v <;> rfl

theorem withMillis_millis (h : v.admits v.millis = true) : v.withMillis v.millis h = v := by
  cases v <;> rfl

theorem withMillis_congr (heq : millis = other) (h' : v.admits other = true) :
    v.withMillis millis h = v.withMillis other h' := by
  subst heq
  rfl

variable {v}

theorem admits_millis (h : fitsWord v.millis = true) : v.admits v.millis = true := by
  cases v with
  | instant _ _ hrange => exact hrange
  | interval _ => exact h

end

theorem add?_eq (v : Temporal) (d : Duration) : v.add? d =
    if h : v.admits (v.millis + d.millis) = true then
      some (v.withMillis (v.millis + d.millis) h)
    else none := by
  cases v with
  | instant millis dateOnly hinstant =>
    by_cases hrange : inRange (millis + d.millis) = true
    · simp [add?, admits, withMillis, Temporal.millis, instant?, hrange,
        fitsWord_of_inRange hrange]
    · simp [add?, admits, Temporal.millis, instant?, hrange]
  | interval own =>
    cases hword : fitsWord (own.millis + d.millis) <;>
      simp [add?, admits, withMillis, Temporal.millis, hword]

theorem foldlM_add? {v : Temporal} (hv : v.admits v.millis = true) (ds : List Duration) :
    ds.foldlM add? v =
      if h : ∀ p ∈ ds.inits, v.admits (v.millis + Duration.total p) = true then
        some (v.withMillis (v.millis + Duration.total ds)
          (h ds ((List.mem_inits ds ds).mpr List.prefix_rfl)))
      else none := by
  induction ds generalizing v with
  | nil => simp [hv, withMillis_millis]
  | cons d ds ih =>
    have hinits : (∀ p ∈ (d :: ds).inits, v.admits (v.millis + Duration.total p) = true) ↔
        ∀ p ∈ ds.inits, v.admits (v.millis + d.millis + Duration.total p) = true := by
      simp [List.inits, hv, Int.add_assoc]
    rw [List.foldlM_cons, add?_eq]
    by_cases hsum : v.admits (v.millis + d.millis) = true
    · rw [dif_pos hsum]
      refine (ih (by simpa using hsum)).trans ?_
      simp only [admits_withMillis, millis_withMillis]
      by_cases hall : ∀ p ∈ ds.inits, v.admits (v.millis + d.millis + Duration.total p) = true
      · have htotal := hall ds ((List.mem_inits ds ds).mpr List.prefix_rfl)
        rw [dif_pos hall, dif_pos (hinits.mpr hall), v.withMillis_withMillis _ _ htotal]
        exact congrArg some (v.withMillis_congr _ (by rw [Duration.total_cons, Int.add_assoc]) _)
      · rw [dif_neg hall, dif_neg (mt hinits.mp hall)]
    · have hfirst : ¬∀ p ∈ (d :: ds).inits, v.admits (v.millis + Duration.total p) = true :=
        fun h => hsum (by simpa using h [d] ((List.mem_inits _ _).mpr ⟨ds, rfl⟩))
      rw [dif_neg hsum, dif_neg hfirst]
      rfl

/-- The values that come of making, reading, truncating and adding. An input is a text, a number of
milliseconds, or a value that came about before. -/
inductive Reachable : Temporal → Prop
  | instant {millis : Int} {dateOnly : Bool} {v : Temporal}
      (h : instant? millis dateOnly = some v) : Reachable v
  | interval {d : Duration} (h : fitsWord d.millis = true) : Reachable (.interval d)
  | read {c : Context} {input : DateInput} {v : Temporal}
      (hinput : ∀ w, input = .value w → Reachable w)
      (h : (Dates.toDate c input).result = .ok v) : Reachable v
  | truncateTo {c : Context} {u : TimeUnit} {input : DateInput} {v : Temporal}
      (hinput : ∀ w, input = .value w → Reachable w)
      (h : (Dates.truncateTo c u input).result = .ok v) : Reachable v
  | dateTruncate {c : Context} {unit : Text} {input : DateInput} {v : Temporal}
      (hinput : ∀ w, input = .value w → Reachable w)
      (h : (Dates.dateTruncate c unit input).result = .ok (some v)) : Reachable v
  | add {v w : Temporal} {d : Duration} (hv : Reachable v) (h : v.add? d = some w) : Reachable w

theorem fitsWord_of_ofInstant {millis : Option Int} {dateOnly : Bool} {v : Temporal}
    (h : ofInstant millis dateOnly = .ok v) : fitsWord v.millis = true := by
  obtain ⟨n, hn, -, rfl⟩ := ofInstant_eq_ok_iff.mp h
  exact fitsWord_of_inRange hn

theorem fitsWord_of_truncate {c : Context} {u : TimeUnit} {v w : Temporal}
    (h : v.truncate c u = .ok w) : fitsWord w.millis = true := by
  cases v with
  | interval d => cases h
  | instant millis dateOnly => exact fitsWord_of_ofInstant h

end Temporal

theorem Dates.exists_of_ofDate {α : Type} {c : Context} {input : DateInput}
    {find : Temporal → Ending Fault α} {a : α} (h : (ofDate c input find).result = .ok a) :
    ∃ v, (readDate c input).result = .ok v ∧ find v = .ok a := by
  rw [ofDate, Report.result_reported, Report.result_bind] at h
  exact Ending.bind_eq_ok.mp h

namespace Temporal

theorem Reachable.fitsWord_millis {v : Temporal} (hv : v.Reachable) :
    fitsWord v.millis = true := by
  induction hv with
  | @instant millis dateOnly v h =>
    have hmade : ofInstant (some millis) dateOnly = .ok v := by
      rw [ofInstant, Option.bind_some, h]
    exact fitsWord_of_ofInstant hmade
  | interval h => exact h
  | @read c input v hinput h ih =>
    rw [Dates.toDate, Report.result_reported] at h
    cases input with
    | text t =>
      refine fitsWord_of_inRange (Dates.inRange_of_toDate_text (c := c) (t := t) ?_)
      rw [Dates.toDate, Report.result_reported, h]
    | millis x =>
      have hread := Ending.ofExcept_eq_ok.mp h
      unfold instantOfMillis at hread
      dsimp only at hread
      split_ifs at hread
      exact fitsWord_of_ofInstant hread
    | value w =>
      obtain rfl : w = v := Ending.ok.inj h
      exact ih w rfl
  | truncateTo hinput h ih =>
    obtain ⟨w, -, hw⟩ := Dates.exists_of_ofDate h
    exact fitsWord_of_truncate (Ending.ofExcept_eq_ok.mp hw)
  | @dateTruncate c unit input v hinput h ih =>
    obtain ⟨w, -, hw⟩ := Dates.exists_of_ofDate h
    split at hw
    · obtain ⟨w', htruncate, hw⟩ := Ending.bind_eq_ok.mp hw
      obtain rfl := Option.some.inj (Ending.ok.inj hw)
      exact fitsWord_of_truncate (Ending.ofExcept_eq_ok.mp htruncate)
    · split_ifs at hw
      cases hw
  | @add v w d hv h ih =>
    rw [add?_eq] at h
    split_ifs at h with hsum
    obtain rfl := Option.some.inj h
    rw [millis_withMillis]
    cases v with
    | instant millis dateOnly => exact fitsWord_of_inRange hsum
    | interval own => exact hsum

theorem Reachable.foldlM {v : Temporal} (hv : v.Reachable) {ds : List Duration} {w : Temporal}
    (h : ds.foldlM add? v = some w) : w.Reachable := by
  induction ds generalizing v with
  | nil => exact Option.some.inj h ▸ hv
  | cons d ds ih =>
    rw [List.foldlM_cons] at h
    obtain ⟨v', hstep, hrest⟩ := Option.bind_eq_some_iff.mp h
    exact ih (.add hv hstep) hrest

/-- A value that operations lead to has the milliseconds of its kind, is not both an interval and a
date without a time of day, and is read as itself. Durations are added to it one by one if and only
if all sums on the way are in the range of its kind: then their total is added and nothing else is
changed, in whatever order they come, and otherwise a step fails. Each further value is again one
of those values. -/
theorem Reachable.add_durations {v : Temporal} (hv : v.Reachable) :
    (∀ millis dateOnly, ∀ h : inRange millis = true, v = .instant millis dateOnly h →
      |millis| ≤ maxInstant) ∧
    (v.isInterval = true → v.isDateOnly = false) ∧
    (∀ c, Dates.toDate c (.value v) = pure v) ∧
    (∀ d, v.admits (v.millis + d.millis) = false → v.add? d = none) ∧
    ∀ ds : List Duration,
      (ds.foldlM add? v =
        if h : ∀ p ∈ ds.inits, v.admits (v.millis + Duration.total p) = true then
          some (v.withMillis (v.millis + Duration.total ds)
            (h ds ((List.mem_inits ds ds).mpr List.prefix_rfl)))
        else none) ∧
      (∀ es : List Duration, es.Perm ds →
        (∀ p ∈ es.inits, v.admits (v.millis + Duration.total p) = true) →
        ∃ h : v.admits (v.millis + Duration.total ds) = true,
          es.foldlM add? v = some (v.withMillis (v.millis + Duration.total ds) h)) ∧
      ∀ w, ds.foldlM add? v = some w → w.Reachable := by
  have hmillis := admits_millis hv.fitsWord_millis
  refine ⟨?_, ?_, fun c => rfl, ?_, fun ds => ⟨foldlM_add? hmillis ds, ?_, ?_⟩⟩
  · rintro millis dateOnly hrange -
    simp only [inRange, Bool.and_eq_true, decide_eq_true_eq] at hrange
    exact abs_le.mpr hrange
  · intro hinterval
    cases v with
    | instant millis dateOnly => cases hinterval
    | interval d => rfl
  · intro d hd
    rw [add?_eq, dif_neg (by simp [hd])]
  · intro es hperm hes
    have htotal := hes es ((List.mem_inits es es).mpr List.prefix_rfl)
    rw [Duration.total_perm hperm] at htotal
    refine ⟨htotal, ?_⟩
    rw [foldlM_add? hmillis, dif_pos hes]
    exact congrArg some (v.withMillis_congr _ (by rw [Duration.total_perm hperm]) _)
  · intro w hw
    exact hv.foldlM hw

theorem Reachable.add_durations_days :
    let c : Context := ⟨.fixed .utc, .fixed 0⟩
    let v : Temporal := .interval ⟨172800000, .day⟩
    let ds : List Duration := [⟨-3600000, .hour⟩, ⟨greatestWord - 172800000, .second⟩,
      ⟨3600000, .hour⟩]
    let es : List Duration := [⟨greatestWord - 172800000, .second⟩, ⟨3600000, .hour⟩,
      ⟨-3600000, .hour⟩]
    (Dates.toDate c (.text "2 days".toList)).result = .ok v ∧ v.Reachable ∧
    ds.foldlM add? v = some (.interval ⟨greatestWord, .day⟩) ∧ es.Perm ds ∧
    es.foldlM add? v = none := by
  intro c v ds es
  have hread : (Dates.toDate c (.text "2 days".toList)).result = .ok v := by decide +kernel
  have hv : v.Reachable := .read (fun w h => by cases h) hread
  obtain ⟨-, -, -, -, hsums⟩ := Reachable.add_durations hv
  exact ⟨hread, hv, (hsums ds).1.trans (by decide +kernel), by decide,
    (hsums es).1.trans (by decide +kernel)⟩

end Temporal

end Coercion
