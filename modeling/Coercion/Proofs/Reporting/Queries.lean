import Coercion.Proofs.Reading.DateOnlyValues

namespace Coercion

open Calendar

namespace Report

variable {α β : Type}

theorem bind_ofEnding (r : Report α) (f : α → Ending Fault β) :
    (r >>= fun a => ofEnding (f a)) = ⟨r.events, r.result.bind f⟩ := by
  change bind r _ = _
  unfold bind
  cases r.result with
  | ok a => exact congrArg (mk · _) (List.append_nil _)
  | error e => rfl
  | stopped => rfl

theorem bind_pure_eq (r : Report α) (f : α → β) :
    (r >>= fun a => pure (f a)) = ⟨r.events, r.result.map f⟩ :=
  bind_ofEnding r fun a => .ok (f a)

theorem map_reported (r : Report α) (f : α → β) : (⟨(reported r).events,
    (reported r).result.map f⟩ : Report β) = reported ⟨r.events, r.result.map f⟩ := by
  unfold reported
  cases h : r.result with
  | ok a => simp only [h, Ending.map_ok]
  | error e => rfl
  | stopped => simp only [h, Ending.map_stopped]

end Report

/-- What reading a text reports: the rule whose value or whose parts were taken out of it. -/
theorem readText_eq (c : Context) (t : Text) : readText c t =
    match ShapeRule.first? (.ofText t) with
    | none => .ofExcept ((Restated.unchanged (.ofText t)).read c)
    | some rule => match rule.read c (.ofText t) with
      | .error e => .ofEnding (.error e)
      | .stopped => .ofEnding .stopped
      | .ok (.value v) => ⟨[.recognized rule], .ok v⟩
      | .ok (.restated r) => ⟨[.recognized rule], .ofExcept (r.read c)⟩ := by
  rw [readText]
  cases ShapeRule.first? (.ofText t) with
  | none => rfl
  | some rule =>
    dsimp only
    cases rule.read c (.ofText t) with
    | error e => rfl
    | stopped => rfl
    | ok recognition => cases recognition <;> rfl

section

variable {c c' : Context} {d : Duration}

theorem Temporal.ofInstant_ne_interval {millis : Option Int} {dateOnly : Bool} :
    ofInstant millis dateOnly ≠ .ok (interval d) := by
  intro h
  obtain ⟨n, hn, -, h⟩ := ofInstant_eq_ok_iff.mp h
  cases h

theorem Restated.read_ne_interval {r : Restated} : r.read c ≠ .ok (.interval d) := by
  unfold read
  intro h
  split at h
  · cases h
  · exact Temporal.ofInstant_ne_interval h

theorem ShapeRule.readKeyword_ne_interval {t : Text} : readKeyword c t ≠ .ok (.interval d) := by
  intro h
  unfold readKeyword at h
  split_ifs at h
  all_goals
    obtain ⟨_, -, h⟩ := Ending.bind_eq_ok.mp h
    exact Temporal.ofInstant_ne_interval (Ending.ofExcept_eq_ok.mp h)

theorem ShapeRule.eq_intervalSequence {rule : ShapeRule} {s : Shape}
    (h : rule.read c s = .ok (.value (.interval d))) : rule = intervalSequence := by
  cases rule with
  | intervalSequence => rfl
  | keyword => exact absurd (Recognition.of_map_value h) readKeyword_ne_interval
  | monthDay => exact absurd h (Recognition.map_restated_ne id _ _)
  | timeOfDay => exact absurd h (Recognition.map_restated_ne _ _ _)
  | _ => simp [read] at h

theorem readText_of_interval {t : Text} (h : (readText c t).result = .ok (.interval d)) :
    readText c' t = readText c t := by
  rw [readText_eq] at h
  rw [readText_eq, readText_eq]
  cases hfirst : ShapeRule.first? (.ofText t) with
  | none =>
    rw [hfirst] at h
    exact absurd (Ending.ofExcept_eq_ok.mp h)
      (Restated.read_ne_interval (r := .unchanged (.ofText t)))
  | some rule =>
    rw [hfirst] at h
    dsimp only at h ⊢
    cases hread : rule.read c (.ofText t) with
    | error e =>
      rw [hread] at h
      cases h
    | stopped =>
      rw [hread] at h
      cases h
    | ok recognition =>
      rw [hread] at h
      cases recognition with
      | restated r => exact absurd (Ending.ofExcept_eq_ok.mp h) Restated.read_ne_interval
      | value v =>
        obtain rfl : v = .interval d := Ending.ok.inj h
        obtain rfl := ShapeRule.eq_intervalSequence hread
        rw [show ShapeRule.read c' (.ofText t) .intervalSequence =
          ShapeRule.read c (.ofText t) .intervalSequence from rfl, hread]

theorem readDate_of_interval {input : DateInput}
    (h : (readDate c input).result = .ok (.interval d)) : readDate c' input = readDate c input := by
  cases input with
  | value v => rfl
  | millis x => rfl
  | text t => exact readText_of_interval h

end

namespace Dates

section

variable {α β : Type} (c : Context) (input : DateInput) (find : Temporal → Ending Fault α)

theorem ofDate_eq : ofDate c input find =
    ofDate c input fun v => (ofDate c (.value v) find).result := by
  simp only [result_ofDate_value]

theorem result_ofDate_congr {c c' : Context} {v : Temporal} {find find' : Temporal → Ending Fault α}
    (h : find v = find' v) :
    (ofDate c (.value v) find).result = (ofDate c' (.value v) find').result := by
  rw [result_ofDate_value, result_ofDate_value, h]

theorem map_ofDate (f : α → β) :
    f <$> ofDate c input find = ofDate c input fun v => (find v).map f := by
  change (ofDate c input find >>= fun a => pure (f a)) = _
  rw [Report.bind_pure_eq, ofDate, ofDate, Report.bind_ofEnding, Report.bind_ofEnding,
    Report.map_reported]
  cases (readDate c input).result <;> rfl

end

/-- What can be asked of a date, and what the answer is. -/
inductive Query : Type → Type
  | year : Query Int
  | quarter : Query Nat
  | month : Query Nat
  | week : Query Nat
  | weekIso : Query Nat
  | day : Query Nat
  | dayOfMonth : Query Nat
  | dayOfWeek (sunday : Option Int) : Query Int
  | dayOfYear : Query Nat
  | weekdayName : Query Text
  | hour : Query Nat
  | minute : Query Nat
  | second : Query Nat
  | subsecond : Query Nat
  | toText (pattern : Option Text) : Query Text
  | dateGmt : Query Text
  | isDaylight : Query Bool
  | interval (unit : Text) : Query (Option Double)
  | truncateTo (u : TimeUnit) : Query Temporal
  | dateTruncate (unit : Text) : Query (Option Temporal)
  | partOf (u : TimeUnit) : Query Int
  | datePart (unit : Text) : Query (Option Int)

namespace Query

variable {α : Type}

/-- What a query reports of an input. -/
def report (c : Context) (input : DateInput) : Query α → Report α
  | year => Dates.year c input
  | quarter => Dates.quarter c input
  | month => Dates.month c input
  | week => Dates.week c input
  | weekIso => Dates.weekIso c input
  | day => Dates.day c input
  | dayOfMonth => Dates.dayOfMonth c input
  | dayOfWeek sunday => Dates.dayOfWeek c input sunday
  | dayOfYear => Dates.dayOfYear c input
  | weekdayName => Dates.weekdayName c input
  | hour => Dates.hour c input
  | minute => Dates.minute c input
  | second => Dates.second c input
  | subsecond => Dates.subsecond input
  | toText pattern => Dates.toText c pattern input
  | dateGmt => Dates.dateGmt c input
  | isDaylight => Dates.isDaylight c input
  | interval unit => Dates.interval c unit input
  | truncateTo u => Dates.truncateTo c u input
  | dateTruncate unit => Dates.dateTruncate c unit input
  | partOf u => Dates.partOf c u input
  | datePart unit => Dates.datePart c unit input

def reads : Query α → Bool
  | subsecond => false
  | datePart unit => (TimeUnit.ofName? unit).isSome
  | _ => true

theorem report_eq {q : Query α} (h : q.reads = true) (c : Context) (input : DateInput) :
    q.report c input = ofDate c input fun v => (q.report c (.value v)).result := by
  cases q with
  | subsecond => cases h
  | datePart unit =>
    obtain ⟨u, hu⟩ := Option.isSome_iff_exists.mp h
    have hpart (input : DateInput) : (datePart unit).report c input =
        ofDate c input fun v => (Ending.orStop (u.part? (v.fields c))).map some := by
      rw [report, Dates.datePart, hu]
      exact map_ofDate c input _ some
    simp only [hpart, result_ofDate_value]
  | _ => exact ofDate_eq c input _

theorem report_of_not_reads {q : Query α} (h : q.reads = false) :
    ∃ a, ∀ c input, q.report c input = pure a := by
  cases q with
  | subsecond => exact ⟨0, fun _ _ => rfl⟩
  | datePart unit =>
    have hname : TimeUnit.ofName? unit = none :=
      Option.isNone_iff_eq_none.mp (Option.isSome_eq_false_iff.mp h)
    exact ⟨none, fun c input => by rw [report, Dates.datePart, hname]⟩
  | _ => cases h

theorem result_interval (q : Query α) (c c' : Context) (d : Duration) :
    (q.report c (.value (.interval d))).result = (q.report c' (.value (.interval d))).result := by
  cases q with
  | subsecond => rfl
  | datePart unit =>
    rw [report, report, Dates.datePart, Dates.datePart]
    cases TimeUnit.ofName? unit with
    | none => rfl
    | some u =>
      dsimp only
      rw [Dates.partOf, Dates.partOf, ofFields?, ofFields?, map_ofDate, map_ofDate]
      exact result_ofDate_congr rfl
  | _ => exact result_ofDate_congr rfl

theorem report_of_interval (q : Query α) {c c' : Context} {input : DateInput} {d : Duration}
    (h : (readDate c input).result = .ok (.interval d)) : q.report c input = q.report c' input := by
  cases hreads : q.reads with
  | false =>
    obtain ⟨a, ha⟩ := report_of_not_reads hreads
    rw [ha, ha]
  | true =>
    have hsame : readDate c' input = readDate c input := readDate_of_interval h
    rw [report_eq hreads, report_eq hreads, ofDate, ofDate, hsame, Report.bind_ofEnding,
      Report.bind_ofEnding, h, Ending.bind_ok, Ending.bind_ok, result_interval q c c' d]

end Query

end Dates

/-- An interval, written as a text or not, is the same in every zone and at every time, and so is
all that can be asked of it. Daylight saving time is not in effect, and it cannot be truncated, not
even to an unknown unit. -/
theorem toDate_interval_context (c c' : Context) {input : DateInput} {d : Duration}
    (h : (Dates.toDate c input).result = .ok (.interval d)) :
    Dates.toDate c' input = Dates.toDate c input ∧
    (∀ (α : Type) (q : Dates.Query α), q.report c' input = q.report c input) ∧
    (Temporal.interval d).isoText c' = (Temporal.interval d).isoText c ∧
    (Dates.isDaylight c input).result = .ok false ∧
    (∀ u, (Dates.truncateTo c u input).result = .error .intervalTruncate) ∧
    ∀ unit, (Dates.dateTruncate c unit input).result = .error .intervalTruncate := by
  rw [Dates.toDate, Report.result_reported] at h
  refine ⟨?_, fun α q => (q.report_of_interval h).symm, rfl, Dates.result_ofDate _ h,
    fun u => Dates.result_ofDate _ h, fun unit => ?_⟩
  · rw [Dates.toDate, Dates.toDate, readDate_of_interval h]
  · rw [Dates.dateTruncate, Dates.result_ofDate _ h]
    cases TimeUnit.ofName? unit <;> rfl

theorem toDate_interval_context_days :
    let c : Context := ⟨.host (.daylight ⟨-18000, -14400, ⟨3, 2, 0, 7200⟩, ⟨11, 1, 0, 7200⟩⟩),
      .fixed 1615737600000⟩
    let c' : Context := ⟨.fixed ⟨330, by decide⟩, .fixed 0⟩
    let t : Text := "2 days -1 hour".toList
    (Dates.toDate c (.text t)).result = .ok (.interval ⟨169200000, .hour⟩) ∧
    (Dates.toDate c' (.text t)).result = .ok (.interval ⟨169200000, .hour⟩) ∧
    (∀ pattern, Dates.toText c' pattern (.text t) = Dates.toText c pattern (.text t)) ∧
    (Dates.truncateTo c .day (.text t)).result = .error .intervalTruncate := by
  intro c c' t
  have hread : (Dates.toDate c (.text t)).result = .ok (.interval ⟨169200000, .hour⟩) := by
    decide +kernel
  obtain ⟨hdate, hqueries, -, -, htruncate, -⟩ := toDate_interval_context c c' hread
  exact ⟨hread, by rw [hdate, hread], fun pattern => hqueries _ (.toText pattern), htruncate .day⟩

end Coercion
