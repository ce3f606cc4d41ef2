import Coercion.Proofs.Double.Arithmetic
import Coercion.Proofs.Reading.Recognition
import Coercion.Proofs.Reading.Shapes
import Coercion.Proofs.Time.Units

namespace Coercion

open Calendar Text

namespace WrittenNumber

variable (w : WrittenNumber)

theorem isSolid_text : IsSolid w.text where
  ne_nil := by
    obtain ⟨c, t, hbody, -⟩ := w.exists_unsignedText
    simp [text, hbody]
  isBlank_eq := fun _ => w.isBlank_of_mem_text

theorem colon_not_mem_text : ':' ∉ w.text := by
  intro h
  obtain h | h := w.mem_text h
  · cases h
  · simp at h

theorem numberOf_text : numberOf w.text = w.literal.toDouble := by
  have hsolid := w.isSolid_text
  have hword : (w.unsignedText == "Infinity".toList) = false := by
    obtain ⟨c, t, hbody, hc⟩ := w.exists_unsignedText
    rw [hbody, beq_eq_false_iff_ne]
    intro heq
    obtain rfl : c = 'I' := (List.cons.inj heq).1
    revert hc
    decide
  unfold numberOf
  simp only [w.trim_text, w.splitSign_text, hword, Literal.read?_text]
  rw [if_neg (by simpa using hsolid.ne_nil)]
  rfl

end WrittenNumber

namespace IntervalText

theorem unit?_of_spells {u : TimeUnit} {name : Text} (h : u.Spells name)
    (hu : u.measuresIntervals = true) : unit? name = some u := by
  rw [unit?, h.ofName?_eq]
  simp [Option.filter, hu]

/-- A pair adds the rounded product of its quantity and the length of its unit. -/
theorem Total.add_of_isFinite {u : TimeUnit} {name quantity : Text} {length : ℤ}
    (hname : u.Spells name) (hu : u.measuresIntervals = true) (hlength : u.millis? = some length)
    (hcolon : ':' ∉ quantity) (hfinite : (numberOf quantity).isFinite = true) (total : Total) :
    total.add (quantity, name) = .ok
      ⟨total.millis.add ((numberOf quantity).mul (.ofInt length)), total.finest.finer u⟩ := by
  obtain ⟨negative, rank, hnumber⟩ := Double.exists_finite_of_isFinite hfinite
  have hclock : quantity.contains ':' = false := by
    simpa using hcolon
  have hscaled : scaled quantity u = .ok ((numberOf quantity).mul (.ofInt length)) := by
    rw [scaled, hnumber, hlength]
  rw [Total.add, unit?_of_spells hname hu]
  dsimp only
  rw [millisOf, hclock, if_neg Bool.false_ne_true, hscaled]
  rfl

theorem result_toDate_of_recognizes (c : Context) {t : Text}
    (h : recognizes (Shape.ofText t).tokens = true) :
    (Dates.toDate c (.text t)).result = .ofExcept (read (Shape.ofText t).tokens) := by
  have hfirst : ShapeRule.first? (Shape.ofText t) = some .intervalSequence := by
    rw [ShapeRule.first?, ShapeRule.all, List.find?_cons_of_pos]
    exact h
  rw [Dates.result_toDate_text, hfirst]
  dsimp only
  rw [ShapeRule.read]
  cases read (Shape.ofText t).tokens <;> rfl

def tokensOf (ps : List (Text × Text)) : List Text :=
  ps.flatMap fun p => [p.1, p.2]

theorem pairs_tokensOf (ps : List (Text × Text)) : pairs (tokensOf ps) = ps := by
  induction ps with
  | nil => rfl
  | cons p ps ih =>
    change p :: pairs (tokensOf ps) = p :: ps
    rw [ih]

theorem length_tokensOf (ps : List (Text × Text)) : (tokensOf ps).length = 2 * ps.length := by
  induction ps with
  | nil => rfl
  | cons p ps ih =>
    change (tokensOf ps).length + 2 = 2 * (ps.length + 1)
    rw [ih]
    omega

theorem recognizes_tokensOf {ps : List (Text × Text)} (hne : ps ≠ [])
    (h : ∀ p ∈ ps, (unit? p.2).isSome = true) : recognizes (tokensOf ps) = true := by
  have hpos := List.length_pos_iff.mpr hne
  rw [recognizes, pairs_tokensOf, length_tokensOf, Bool.and_eq_true, List.all_eq_true]
  refine ⟨?_, h⟩
  simp
  omega

theorem result_toDate_tokensOf (c : Context) {ps : List (Text × Text)} (hne : ps ≠ [])
    (hsolid : ∀ p ∈ ps, IsSolid p.1 ∧ IsSolid p.2) (h : ∀ p ∈ ps, (unit? p.2).isSome = true) :
    (Dates.toDate c (.text (List.intercalate [' '] (tokensOf ps)))).result =
      .ofExcept (read (tokensOf ps)) := by
  have hsolid' : ∀ a ∈ tokensOf ps, IsSolid a := by
    intro a ha
    obtain ⟨p, hp, ha⟩ := List.mem_flatMap.mp ha
    simp only [List.mem_cons, List.not_mem_nil, or_false] at ha
    obtain rfl | rfl := ha
    · exact (hsolid p hp).1
    · exact (hsolid p hp).2
  have hne' : tokensOf ps ≠ [] := by
    intro hnil
    have hlen := length_tokensOf ps
    rw [hnil] at hlen
    exact hne (List.eq_nil_of_length_eq_zero (by simpa using hlen.symm))
  have hshape := Shape.ofText_intercalate hne' hsolid'
  rw [result_toDate_of_recognizes c (by rw [hshape]; exact recognizes_tokensOf hne h), hshape]

/-- A total in range is cut to a whole number of milliseconds. -/
theorem read_of_total {ps : List (Text × Text)} {x : Double} {u : TimeUnit}
    (hx : x.isFinite = true) (htotal : ps.foldlM Total.add ⟨.zero, .year⟩ = .ok ⟨x, u⟩)
    (hrange : |towardZero x.toRat| ≤ maxInstant) :
    read (tokensOf ps) = .ok (.interval ⟨towardZero x.toRat, u⟩) := by
  obtain ⟨hwithin, hint⟩ := Double.trunc_of_abs_le hx (by decide) hrange
  rw [read, pairs_tokensOf, htotal]
  change (if (x.isFinite && x.trunc.within maxInstant) = true then
    Except.ok (Temporal.interval ⟨x.trunc.toInt, u⟩) else Except.error Fault.invalidDate) = _
  rw [hx, hwithin, hint]
  rfl

end IntervalText

end Coercion
