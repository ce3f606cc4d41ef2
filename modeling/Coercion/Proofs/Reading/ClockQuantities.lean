import Coercion.Proofs.Reading.Quantities

namespace Coercion

open Calendar Text IntervalText

namespace IntervalText

/-- The quantities of an interval text, each with the unit that is named after it. -/
def quantities (tokens : List Text) : List (Text × TimeUnit) :=
  (pairs tokens).filterMap fun p => (unit? p.2).map (p.1, ·)

/-- The numbers of a quantity, each with the milliseconds of one of what it counts. -/
def terms (q : Text × TimeUnit) : List (Double × Int) :=
  if ':' ∈ q.1 then ((split (· == ':') q.1).map numberOf).zip [3600000, 60000, 1000]
  else [(numberOf q.1, q.2.millis?.getD 0)]

def Counts (q : Text × TimeUnit) : Prop :=
  (':' ∈ q.1 → q.2 = .hour) ∧ ∀ x ∈ terms q, x.1.isNaN = false

instance : DecidablePred Counts := fun q =>
  inferInstanceAs (Decidable ((':' ∈ q.1 → q.2 = .hour) ∧ ∀ x ∈ terms q, x.1.isNaN = false))

def addTerm (total : Double) (x : Double × Int) : Double :=
  total.add (x.1.mul (.ofInt x.2))

def contribution (q : Text × TimeUnit) : Double :=
  if ':' ∈ q.1 then (terms q).foldl addTerm .zero
  else (numberOf q.1).mul (.ofInt (q.2.millis?.getD 0))

theorem foldlM_guarded {α β : Type} {P : α → Prop} [DecidablePred P] {e : Fault}
    {f : β → α → Except Fault β} {g : β → α → β} {l : List α}
    (h : ∀ a ∈ l, ∀ b, f b a = if P a then .ok (g b a) else .error e) (b : β) :
    l.foldlM f b = if ∀ a ∈ l, P a then .ok (l.foldl g b) else .error e := by
  induction l generalizing b with
  | nil => simp [pure, Except.pure]
  | cons a l ih =>
    rw [List.foldlM_cons, h a (by simp)]
    by_cases ha : P a
    · rw [if_pos ha]
      change l.foldlM f (g b a) = _
      rw [ih fun a' ha' => h a' (by simp [ha'])]
      simp [ha]
    · rw [if_neg ha, if_neg fun hall => ha (hall a (by simp))]
      rfl

theorem scaled_eq (quantity : Text) {u : TimeUnit} {length : Int} (h : u.millis? = some length) :
    scaled quantity u = if (numberOf quantity).isNaN = false then
      .ok ((numberOf quantity).mul (.ofInt length)) else .error .invalidDate := by
  rw [scaled, h]
  cases numberOf quantity <;> rfl

theorem terms_clock {quantity : Text} (h : ':' ∈ quantity) (u : TimeUnit) :
    terms (quantity, u) =
      ((split (· == ':') quantity).zip [TimeUnit.hour, .minute, .second]).map
        fun p => (numberOf p.1, p.2.millis?.getD 0) := by
  have hunits : [3600000, 60000, 1000] =
      [TimeUnit.hour, .minute, .second].map fun u => u.millis?.getD 0 := rfl
  rw [terms, if_pos h, hunits, List.zip_map]
  rfl

theorem clockMillis_eq {quantity : Text} (h : ':' ∈ quantity) :
    clockMillis quantity = if ∀ x ∈ terms (quantity, .hour), x.1.isNaN = false then
      .ok ((terms (quantity, .hour)).foldl addTerm .zero) else .error .invalidDate := by
  have hstep : ∀ p ∈ (split (· == ':') quantity).zip [TimeUnit.hour, .minute, .second],
      ∀ total : Double, (scaled p.1 p.2).map total.add =
        if (numberOf p.1).isNaN = false then
          .ok (addTerm total (numberOf p.1, p.2.millis?.getD 0)) else .error .invalidDate := by
    intro p hp total
    have hu : p.2.measuresIntervals = true := by
      have hmem : p.2 ∈ [TimeUnit.hour, .minute, .second] := (List.of_mem_zip hp).2
      simp only [List.mem_cons, List.not_mem_nil, or_false] at hmem
      obtain hu | hu | hu := hmem <;> rw [hu] <;> rfl
    obtain ⟨length, hlength, -⟩ := TimeUnit.exists_millis hu
    rw [scaled_eq p.1 hlength, apply_ite (Except.map total.add), hlength]
    rfl
  rw [terms_clock h, List.foldl_map]
  simp only [List.forall_mem_map]
  exact foldlM_guarded hstep .zero

theorem millisOf_eq (quantity : Text) {u : TimeUnit} (hu : u.measuresIntervals = true) :
    millisOf quantity u = if Counts (quantity, u) then .ok (contribution (quantity, u))
      else .error .invalidDate := by
  by_cases hclock : ':' ∈ quantity
  · rw [millisOf, if_pos (by simpa using hclock)]
    by_cases hhour : u = .hour
    · rw [if_pos hhour, clockMillis_eq hclock, hhour]
      simp only [Counts, contribution, hclock, if_true, true_imp_iff, true_and]
    · rw [if_neg hhour, if_neg fun h => hhour (h.1 hclock)]
  · obtain ⟨length, hlength, -⟩ := TimeUnit.exists_millis hu
    rw [millisOf, if_neg (by simpa using hclock), scaled_eq quantity hlength]
    simp [Counts, contribution, terms, hclock, hlength]

def Total.plus (total : Total) (q : Text × TimeUnit) : Total :=
  ⟨total.millis.add (contribution q), total.finest.finer q.2⟩

theorem foldl_plus (qs : List (Text × TimeUnit)) (total : Total) :
    qs.foldl Total.plus total =
      ⟨(qs.map contribution).foldl Double.add total.millis,
        TimeUnit.finest total.finest (qs.map Prod.snd)⟩ := by
  induction qs generalizing total with
  | nil => rfl
  | cons q qs ih =>
    rw [List.foldl_cons, ih]
    rfl

theorem Total.add_eq (total : Total) {p : Text × Text} {u : TimeUnit} (h : unit? p.2 = some u) :
    total.add p = if Counts (p.1, u) then .ok (total.plus (p.1, u)) else .error .invalidDate := by
  have hu : u.measuresIntervals = true := (Option.filter_eq_some_iff.mp h).2
  rw [Total.add, h]
  dsimp only
  rw [millisOf_eq p.1 hu, apply_ite (Except.map _)]
  rfl

/-- The milliseconds of an interval text, as they are added up. -/
def total (qs : List (Text × TimeUnit)) : Double :=
  (qs.map contribution).foldl Double.add .zero

theorem read_eq {tokens : List Text} (h : recognizes tokens = true) :
    read tokens = if (∀ q ∈ quantities tokens, Counts q) ∧
        (total (quantities tokens)).isFinite = true ∧
        (total (quantities tokens)).trunc.within maxInstant = true then
      .ok (.interval ⟨(total (quantities tokens)).trunc.toInt,
        TimeUnit.finest .year ((quantities tokens).map Prod.snd)⟩)
      else .error .invalidDate := by
  have hunits : ∀ p ∈ pairs tokens, (unit? p.2).isSome = true :=
    List.all_eq_true.mp (Bool.and_eq_true_iff.mp h).2
  have hstep : ∀ p ∈ pairs tokens, ∀ total : Total,
      total.add p = if ∀ q ∈ (unit? p.2).map (p.1, ·), Counts q then
        .ok (((unit? p.2).map (p.1, ·)).elim total total.plus) else .error .invalidDate := by
    intro p hp total
    obtain ⟨u, hu⟩ := Option.isSome_iff_exists.mp (hunits p hp)
    rw [total.add_eq hu, hu]
    simp
  have hcounts : (∀ p ∈ pairs tokens, ∀ q ∈ (unit? p.2).map (p.1, ·), Counts q) ↔
      ∀ q ∈ quantities tokens, Counts q := by
    simp only [quantities, List.mem_filterMap, Option.mem_def]
    exact ⟨fun h q ⟨p, hp, hq⟩ => h p hp q hq, fun h p hp q hq => h q ⟨p, hp, hq⟩⟩
  have hfold : (pairs tokens).foldl (fun total p => ((unit? p.2).map (p.1, ·)).elim total total.plus)
      ⟨.zero, .year⟩ = (quantities tokens).foldl Total.plus ⟨.zero, .year⟩ := by
    rw [quantities, List.foldl_filterMap]
    congr 1
    funext total p
    cases (unit? p.2).map (p.1, ·) <;> rfl
  rw [read, foldlM_guarded hstep, hfold, foldl_plus]
  simp only [hcounts]
  by_cases hall : ∀ q ∈ quantities tokens, Counts q
  · rw [if_pos hall]
    change (if ((total (quantities tokens)).isFinite &&
      (total (quantities tokens)).trunc.within maxInstant) = true then _ else _) = _
    simp only [Bool.and_eq_true, and_iff_right hall]
    rfl
  · rw [if_neg hall, if_neg fun h => hall h.1]
    rfl

def termMillis (x : Double × Int) : Int :=
  ⌊x.1.toRat * x.2⌋

/-- Whether a number of units is a number of whole milliseconds. -/
def Whole (x : Double × Int) : Prop :=
  x.1.isFinite = true ∧ x.1.toRat * x.2 = termMillis x

/-- The milliseconds of a quantity whose numbers are all whole. -/
def quantityMillis (q : Text × TimeUnit) : Int :=
  ((terms q).map termMillis).sum

def Holds (x : Double) (n : Int) : Prop :=
  x.isFinite = true ∧ x.toRat = n

theorem natAbs_lt_of_le {n : ℤ} (h : |n| ≤ maxInstant) : n.natAbs < 9007199254740992 := by
  have hmax : maxInstant = 8640000000000000 := rfl
  obtain ⟨hneg, hpos⟩ := abs_le.mp h
  omega

theorem Holds.add {x y : Double} {m n : ℤ} (hx : Holds x m) (hy : Holds y n)
    (h : |m + n| ≤ maxInstant) : Holds (x.add y) (m + n) := by
  have hrounds := Double.add_rounds hx.1 hy.1
  rw [hx.2, hy.2, ← Int.cast_add] at hrounds
  exact hrounds.of_integer (natAbs_lt_of_le h)

theorem holds_zero : Holds .zero 0 :=
  (Double.rounds_ofInt 0).of_integer (by decide)

theorem natAbs_lt_of_mem_terms {q : Text × TimeUnit} {x : Double × Int} (h : x ∈ terms q) :
    x.2.natAbs < 9007199254740992 := by
  unfold terms at h
  split_ifs at h
  · have hclock : ∀ unit ∈ ([3600000, 60000, 1000] : List ℤ), unit.natAbs < 9007199254740992 := by
      decide
    exact hclock x.2 (List.of_mem_zip h).2
  · have hunit (u : TimeUnit) : (u.millis?.getD 0).natAbs < 9007199254740992 := by
      cases u <;> decide
    obtain rfl := List.mem_singleton.mp h
    exact hunit q.2

theorem Whole.holds_mul {x : Double × Int} (hx : Whole x) (hunit : x.2.natAbs < 9007199254740992)
    (h : |termMillis x| ≤ maxInstant) : Holds (x.1.mul (.ofInt x.2)) (termMillis x) := by
  have hrounds := Double.mul_rounds hx.1 (Double.isFinite_ofInt hunit)
  rw [Double.toRat_ofInt hunit, hx.2] at hrounds
  exact hrounds.of_integer (natAbs_lt_of_le h)

theorem abs_sum_termMillis_le (xs : List (Double × Int)) :
    |(xs.map termMillis).sum| ≤ (xs.map fun x => |termMillis x|).sum := by
  have hle := List.le_sum_of_subadditive (fun n : ℤ => |n|) abs_zero.le abs_add_le
    (xs.map termMillis)
  rwa [List.map_map] at hle

theorem sum_quantityMillis (qs : List (Text × TimeUnit)) :
    (qs.map quantityMillis).sum = ((qs.flatMap terms).map termMillis).sum := by
  induction qs with
  | nil => rfl
  | cons q qs ih =>
    rw [List.map_cons, List.sum_cons, ih, List.flatMap_cons, List.map_append, List.sum_append]
    rfl

theorem sum_abs_termMillis_nonneg (xs : List (Double × Int)) :
    0 ≤ (xs.map fun x => |termMillis x|).sum := by
  refine List.sum_nonneg fun n hn => ?_
  obtain ⟨x, -, rfl⟩ := List.mem_map.mp hn
  exact abs_nonneg _

theorem holds_foldl_addTerm {xs : List (Double × Int)}
    (hunits : ∀ x ∈ xs, x.2.natAbs < 9007199254740992) (hwhole : ∀ x ∈ xs, Whole x)
    {total : Double} {n : ℤ} (htotal : Holds total n)
    (hbound : |n| + (xs.map fun x => |termMillis x|).sum ≤ maxInstant) :
    Holds (xs.foldl addTerm total) (n + (xs.map termMillis).sum) := by
  induction xs generalizing total n with
  | nil => simpa using htotal
  | cons x xs ih =>
    rw [List.map_cons, List.sum_cons] at hbound
    have hrest := sum_abs_termMillis_nonneg xs
    have hnext := abs_add_le n (termMillis x)
    have hterm : Holds (x.1.mul (.ofInt x.2)) (termMillis x) :=
      (hwhole x (by simp)).holds_mul (hunits x (by simp)) (by linarith [abs_nonneg n])
    have hadd : Holds (addTerm total x) (n + termMillis x) :=
      htotal.add hterm (by linarith)
    rw [List.foldl_cons, List.map_cons, List.sum_cons, ← add_assoc]
    exact ih (fun y hy => hunits y (by simp [hy])) (fun y hy => hwhole y (by simp [hy])) hadd
      (by linarith)

theorem holds_contribution {q : Text × TimeUnit} (hwhole : ∀ x ∈ terms q, Whole x)
    (hbound : ((terms q).map fun x => |termMillis x|).sum ≤ maxInstant) :
    Holds (contribution q) (quantityMillis q) := by
  unfold contribution
  split_ifs with hclock
  · have hfold := holds_foldl_addTerm (fun x => natAbs_lt_of_mem_terms) hwhole holds_zero (by
      simpa using hbound)
    rwa [zero_add] at hfold
  · have hterms : terms q = [(numberOf q.1, q.2.millis?.getD 0)] := if_neg hclock
    obtain ⟨x, hx⟩ : ∃ x, x = (numberOf q.1, q.2.millis?.getD 0) := ⟨_, rfl⟩
    rw [← hx] at hterms
    have hmem : x ∈ terms q := by simp [hterms]
    rw [hterms, List.map_singleton, List.sum_singleton] at hbound
    rw [quantityMillis, hterms, List.map_singleton, List.sum_singleton]
    have hmul := (hwhole x hmem).holds_mul (natAbs_lt_of_mem_terms hmem) hbound
    rwa [hx] at hmul ⊢

theorem holds_foldl_add {qs : List (Text × TimeUnit)}
    (hwhole : ∀ x ∈ qs.flatMap terms, Whole x) {total : Double} {n : ℤ} (htotal : Holds total n)
    (hbound : |n| + ((qs.flatMap terms).map fun x => |termMillis x|).sum ≤ maxInstant) :
    Holds ((qs.map contribution).foldl Double.add total) (n + (qs.map quantityMillis).sum) := by
  induction qs generalizing total n with
  | nil => simpa using htotal
  | cons q qs ih =>
    rw [List.flatMap_cons, List.map_append, List.sum_append] at hbound
    have hwhole' : (∀ x ∈ terms q, Whole x) ∧ ∀ x ∈ qs.flatMap terms, Whole x := by
      simpa [List.flatMap_cons, or_imp, forall_and] using hwhole
    have hrest := sum_abs_termMillis_nonneg (qs.flatMap terms)
    have hsum : |quantityMillis q| ≤ _ := abs_sum_termMillis_le (terms q)
    have hnext := abs_add_le n (quantityMillis q)
    have hquantity := holds_contribution hwhole'.1 (by linarith [abs_nonneg n])
    have hadd := htotal.add hquantity (by linarith)
    rw [List.map_cons, List.foldl_cons, List.map_cons, List.sum_cons, ← add_assoc]
    exact ih hwhole'.2 hadd (by linarith)

theorem whole_of_integer? {x : Double} {n : ℤ} (h : x.integer? = some n) (unit : ℤ) :
    Whole (x, unit) ∧ termMillis (x, unit) = n * unit := by
  obtain ⟨hfinite, hvalue⟩ := Double.toRat_of_integer? h
  have hmillis : termMillis (x, unit) = n * unit := by
    rw [termMillis, hvalue, ← Int.cast_mul, Int.floor_intCast]
  exact ⟨⟨hfinite, by rw [hmillis, hvalue, Int.cast_mul]⟩, hmillis⟩

def IsNumeric (t : Text) : Prop :=
  (numberOf t).isNaN = false

def hoursAndMinutes (hours minutes : Text) : Double :=
  addTerm (addTerm .zero (numberOf hours, 3600000)) (numberOf minutes, 60000)

theorem exists_split_of_mem {p : Char → Bool} {d : Char} (hd : p d = true) {t : Text}
    (h : d ∈ t) : ∃ a b rest, split p t = a :: b :: rest := by
  induction t with
  | nil => cases h
  | cons c t ih =>
    by_cases hc : p c = true
    · obtain ⟨a, rest, hrest⟩ := List.exists_cons_of_ne_nil (split_ne_nil (p := p) (t := t))
      exact ⟨[], a, rest, by rw [split, if_pos hc, hrest]⟩
    · have hmem : d ∈ t := by
        obtain rfl | hmem := List.mem_cons.mp h
        · exact absurd hd hc
        · exact hmem
      obtain ⟨a, b, rest, hsplit⟩ := ih hmem
      exact ⟨c :: a, b, rest, by rw [split, if_neg hc, hsplit]; rfl⟩

/-- A clock before hours that adds the milliseconds of its first two or three parts, all of them
numbers. What is behind the third one is not looked at. -/
def AddsClock (q : Text × TimeUnit) (millis : Double) : Prop :=
  q.2 = .hour ∧
    ((∃ hours minutes, split (· == ':') q.1 = [hours, minutes] ∧
        IsNumeric hours ∧ IsNumeric minutes ∧ millis = hoursAndMinutes hours minutes) ∨
      ∃ hours minutes seconds unread,
        split (· == ':') q.1 = hours :: minutes :: seconds :: unread ∧
        IsNumeric hours ∧ IsNumeric minutes ∧ IsNumeric seconds ∧
        millis = addTerm (hoursAndMinutes hours minutes) (numberOf seconds, 1000))

theorem counts_iff_addsClock {q : Text × TimeUnit} (h : ':' ∈ q.1) :
    Counts q ↔ AddsClock q (contribution q) := by
  obtain ⟨hours, minutes, rest, hsplit⟩ := exists_split_of_mem (p := (· == ':')) rfl h
  rw [Counts, AddsClock, contribution, if_pos h, terms, if_pos h, hsplit]
  simp only [h, true_imp_iff]
  refine and_congr_right fun _ => ?_
  cases rest with
  | nil => simp [IsNumeric, hoursAndMinutes]
  | cons seconds unread => simp [IsNumeric, hoursAndMinutes]

theorem read_of_whole {tokens : List Text} (h : recognizes tokens = true)
    (hhours : ∀ q ∈ quantities tokens, ':' ∈ q.1 → q.2 = .hour)
    (hwhole : ∀ x ∈ (quantities tokens).flatMap terms, Whole x)
    (hbound : (((quantities tokens).flatMap terms).map fun x => |termMillis x|).sum ≤ maxInstant) :
    read tokens = .ok (.interval ⟨((quantities tokens).map quantityMillis).sum,
      TimeUnit.finest .year ((quantities tokens).map Prod.snd)⟩) := by
  have hcounts : ∀ q ∈ quantities tokens, Counts q := by
    refine fun q hq => ⟨hhours q hq, fun x hx => ?_⟩
    obtain ⟨negative, rank, hfinite⟩ := Double.exists_finite_of_isFinite
      (hwhole x (List.mem_flatMap.mpr ⟨q, hq, hx⟩)).1
    rw [hfinite]
    rfl
  have htotal := holds_foldl_add hwhole holds_zero (by simpa using hbound)
  rw [zero_add] at htotal
  have hsum : |((quantities tokens).map quantityMillis).sum| ≤ maxInstant := by
    rw [sum_quantityMillis]
    exact (abs_sum_termMillis_le _).trans hbound
  have htoward : |towardZero (total (quantities tokens)).toRat| ≤ maxInstant := by
    rw [total, htotal.2, towardZero_intCast]
    exact hsum
  obtain ⟨hwithin, hint⟩ := Double.trunc_of_abs_le htotal.1 (by decide) htoward
  rw [htotal.2, towardZero_intCast] at hint
  rw [read_eq h, if_pos ⟨hcounts, htotal.1, hwithin⟩, total, hint]

end IntervalText

/-- A text of quantities is read if each of them counts before its unit and their total is in
range. A clock counts before hours only, and only if its first two or three parts are numbers, which
are all that it adds. Numbers of whole milliseconds are added without rounding. -/
theorem toDate_intervalText (c : Context) {t : Text}
    (h : recognizes (Shape.ofText t).tokens = true) {qs : List (Text × TimeUnit)}
    (hqs : quantities (Shape.ofText t).tokens = qs) :
    ((Dates.toDate c (.text t)).result =
      if (∀ q ∈ qs, Counts q) ∧ (total qs).isFinite = true ∧
          (total qs).trunc.within maxInstant = true then
        .ok (.interval ⟨(total qs).trunc.toInt, TimeUnit.finest .year (qs.map Prod.snd)⟩)
      else .error .invalidDate) ∧
    (∀ q ∈ qs, ':' ∈ q.1 → (Counts q ↔ AddsClock q (contribution q))) ∧
    ((∀ q ∈ qs, ':' ∈ q.1 → q.2 = .hour) → (∀ x ∈ qs.flatMap terms, Whole x) →
      ((qs.flatMap terms).map fun x => |termMillis x|).sum ≤ maxInstant →
      (Dates.toDate c (.text t)).result =
        .ok (.interval ⟨(qs.map quantityMillis).sum,
          TimeUnit.finest .year (qs.map Prod.snd)⟩)) := by
  subst hqs
  rw [result_toDate_of_recognizes c h]
  refine ⟨?_, fun q _ => counts_iff_addsClock, fun hhours hwhole hbound => ?_⟩
  · rw [read_eq h, apply_ite Ending.ofExcept]
    rfl
  · rw [read_of_whole h hhours hwhole hbound, Ending.ofExcept_ok]

theorem toDate_intervalText_dayAndClock :
    (Dates.toDate ⟨.fixed .utc, .fixed 0⟩ (.text "1 Day 1:30:15 hrs".toList)).result =
      .ok (.interval ⟨91815000, .hour⟩) := by
  have hrec : recognizes (Shape.ofText "1 Day 1:30:15 hrs".toList).tokens = true := by
    decide +kernel
  have hqs : quantities (Shape.ofText "1 Day 1:30:15 hrs".toList).tokens =
      [(['1'], .day), ("1:30:15".toList, .hour)] := by
    decide +kernel
  have hterms : [(['1'], TimeUnit.day), ("1:30:15".toList, .hour)].flatMap terms =
      [(numberOf ['1'], 86400000), (numberOf ['1'], 3600000),
        (numberOf ['3', '0'], 60000), (numberOf ['1', '5'], 1000)] := by
    decide +kernel
  have one := whole_of_integer? (x := numberOf ['1']) (n := 1) (by decide +kernel)
  have thirty := whole_of_integer? (x := numberOf ['3', '0']) (n := 30) (by decide +kernel)
  have fifteen := whole_of_integer? (x := numberOf ['1', '5']) (n := 15) (by decide +kernel)
  obtain ⟨-, -, hexact⟩ := toDate_intervalText ⟨.fixed .utc, .fixed 0⟩ hrec hqs
  rw [sum_quantityMillis, hterms] at hexact
  have hresult := hexact (by simp) (by simp [one, thirty, fifteen])
    (by simp [one, thirty, fifteen, maxInstant, millisPerDay])
  rw [hresult]
  simp [one, thirty, fifteen, TimeUnit.finest, TimeUnit.finer, TimeUnit.rank]

theorem toDate_intervalText_fourthPart :
    recognizes (Shape.ofText "1:30:15:x hour".toList).tokens = true ∧
      split (· == ':') "1:30:15:x".toList =
        ["1".toList, "30".toList, "15".toList, "x".toList] ∧
      ¬ IsNumeric "x".toList ∧
      (Dates.toDate ⟨.fixed .utc, .fixed 0⟩ (.text "1:30:15:x hour".toList)).result =
        .ok (.interval ⟨5415000, .hour⟩) := by
  have hrec : recognizes (Shape.ofText "1:30:15:x hour".toList).tokens = true := by
    decide +kernel
  refine ⟨hrec, by decide, by unfold IsNumeric; decide +kernel, ?_⟩
  rw [result_toDate_of_recognizes _ hrec]
  decide +kernel

end Coercion
