import Coercion.Proofs.Double.Truncation
import Coercion.Proofs.Reporting.Queries

namespace Coercion

open Calendar

/-- The check of a bound on a number without its fraction holds of the integer that is kept. -/
theorem Double.inRange_toInt {x : Double} (hx : x.isFinite = true)
    (h : x.trunc.within maxInstant = true) : inRange x.trunc.toInt = true := by
  obtain ⟨hfinite, hvalue⟩ := toRat_trunc hx
  rw [within_iff hfinite (by decide), hvalue] at h
  have habs : |towardZero x.toRat| ≤ maxInstant := by exact_mod_cast h
  rw [toInt_eq hfinite, hvalue, towardZero_intCast]
  simpa [inRange] using abs_le.mp habs

variable {c : Context} {v : Temporal} {e : Fault}

namespace Fault

variable {α β : Type}

theorem of_map {f : α → β} {x : Except Fault α} (h : x.map f = .error e) : x = .error e := by
  cases x with
  | error e' => exact congrArg Except.error (Except.error.inj h)
  | ok a => cases h

theorem of_foldlM {P : Fault → Prop} {f : β → α → Except Fault β}
    (hf : ∀ b a e, f b a = .error e → P e) {l : List α} {b : β} (h : l.foldlM f b = .error e) :
    P e := by
  induction l generalizing b with
  | nil => cases h
  | cons a l ih =>
    rw [List.foldlM_cons] at h
    cases hstep : f b a with
    | error e' =>
      rw [hstep] at h
      obtain rfl := Except.error.inj h
      exact hf b a _ hstep
    | ok b' =>
      rw [hstep] at h
      exact ih h

end Fault

namespace IntervalText

/-- The interval of an interval text has a finite total, which is within the range of instants. -/
theorem inRange_of_read {tokens : List Text} (h : read tokens = .ok v) :
    inRange v.millis = true := by
  unfold read at h
  cases htotal : (pairs tokens).foldlM Total.add ⟨.zero, .year⟩ with
  | error e =>
    rw [htotal] at h
    cases h
  | ok total =>
    rw [htotal] at h
    change (if _ then _ else _) = _ at h
    split_ifs at h with hx
    obtain ⟨hfinite, hwithin⟩ := Bool.and_eq_true_iff.mp hx
    obtain rfl := Except.ok.inj h
    exact Double.inRange_toInt hfinite hwithin

theorem eq_of_scaled {quantity : Text} {u : TimeUnit} (h : scaled quantity u = .error e) :
    e = .invalidDate := by
  unfold scaled at h
  split at h
  · exact (Except.error.inj h).symm
  · exact (Except.error.inj h).symm
  · cases h

theorem eq_of_millisOf {quantity : Text} {u : TimeUnit} (h : millisOf quantity u = .error e) :
    e = .invalidDate := by
  unfold millisOf at h
  split_ifs at h
  · exact Fault.of_foldlM (P := (· = .invalidDate)) (fun _ _ _ h => eq_of_scaled (Fault.of_map h)) h
  · exact (Except.error.inj h).symm
  · exact eq_of_scaled h

theorem eq_of_add {total : Total} {pair : Text × Text} (h : total.add pair = .error e) :
    e = .invalidDate := by
  obtain ⟨quantity, name⟩ := pair
  unfold Total.add at h
  dsimp only at h
  split at h
  · exact (Except.error.inj h).symm
  · exact eq_of_millisOf (Fault.of_map h)

theorem eq_of_read {tokens : List Text} (h : read tokens = .error e) : e = .invalidDate := by
  unfold read at h
  cases htotal : (pairs tokens).foldlM Total.add ⟨.zero, .year⟩ with
  | error e' =>
    rw [htotal] at h
    obtain rfl := Except.error.inj h
    exact Fault.of_foldlM (P := (· = .invalidDate)) (fun _ _ _ => eq_of_add) htotal
  | ok total =>
    rw [htotal] at h
    change (if _ then _ else _) = _ at h
    split_ifs at h
    exact (Except.error.inj h).symm

end IntervalText

namespace ShapeRule

theorem eq_of_readKeyword {t : Text} (h : readKeyword c t = .error e) : e = .invalidDate := by
  unfold readKeyword at h
  split_ifs at h
  all_goals
    obtain ⟨_, h⟩ := Ending.of_orStop_bind_error h
    exact Temporal.eq_of_ofInstant_error (Ending.ofExcept_eq_error.mp h)

theorem eq_of_read_error {rule : ShapeRule} {s : Shape} (h : rule.read c s = .error e) :
    e = .invalidDate := by
  cases rule with
  | intervalSequence =>
    exact IntervalText.eq_of_read (Ending.ofExcept_eq_error.mp (Ending.of_map_error h))
  | keyword => exact eq_of_readKeyword (Ending.of_map_error h)
  | monthDay =>
    have hread := Ending.of_map_error h
    unfold readMonthDay at hread
    split_ifs at hread
    exact absurd (Ending.of_map_error hread) Ending.orStop_ne_error
  | timeOfDay => exact absurd (Ending.of_map_error h) Ending.orStop_ne_error
  | _ => simp [read] at h

end ShapeRule

namespace Restated

theorem eq_of_check {r : Restated} (h : r.check = .error e) :
    e = .invalidDate ∨ e = .invalidDayMonth := by
  unfold check at h
  split_ifs at h
  · exact Or.inl (Except.error.inj h).symm
  · split at h
    · split_ifs at h
      exact Or.inr (Except.error.inj h).symm
    · exact Or.inr (Except.error.inj h).symm

theorem eq_of_read_error {r : Restated} (h : r.read c = .error e) :
    e = .invalidDate ∨ e = .invalidDayMonth := by
  unfold read at h
  split at h
  · next e' hcheck =>
    obtain rfl := Except.error.inj h
    exact eq_of_check hcheck
  · exact .inl (Temporal.eq_of_ofInstant_error h)

end Restated

namespace Dates

/-- The interval of a text is one of the interval texts. -/
theorem read_of_toDate_text {t : Text} {d : Duration}
    (h : (toDate c (.text t)).result = .ok (.interval d)) :
    IntervalText.read (Shape.ofText t).tokens = .ok (.interval d) := by
  rw [result_toDate_text] at h
  split at h
  · exact absurd (Ending.ofExcept_eq_ok.mp h) Restated.read_ne_interval
  · split at h
    · cases h
    · cases h
    · next w hread =>
      obtain rfl := Ending.ok.inj h
      obtain rfl := ShapeRule.eq_intervalSequence hread
      exact Ending.ofExcept_eq_ok.mp (Recognition.of_map_value hread)
    · exact absurd (Ending.ofExcept_eq_ok.mp h) Restated.read_ne_interval

theorem inRange_of_toDate_text {t : Text} (h : (toDate c (.text t)).result = .ok v) :
    inRange v.millis = true := by
  cases v with
  | instant millis dateOnly hrange => exact hrange
  | interval d => exact IntervalText.inRange_of_read (read_of_toDate_text h)

theorem eq_of_toDate_text_error {t : Text} (h : (toDate c (.text t)).result = .error e) :
    e = .invalidDate ∨ e = .invalidDayMonth := by
  rw [result_toDate_text] at h
  split at h
  · exact Restated.eq_of_read_error (Ending.ofExcept_eq_error.mp h)
  · split at h
    · next e' hread =>
      obtain rfl := Ending.error.inj h
      exact Or.inl (ShapeRule.eq_of_read_error hread)
    · cases h
    · cases h
    · exact Restated.eq_of_read_error (Ending.ofExcept_eq_error.mp h)

end Dates

end Coercion
