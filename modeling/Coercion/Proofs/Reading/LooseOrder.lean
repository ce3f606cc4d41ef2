import Coercion.Proofs.Reading.LooseWords
import Coercion.Proofs.Reading.Tokens
import Mathlib.Data.List.FinRange
import Mathlib.Data.List.Sort
import Mathlib.Data.Fin.VecNotation
import Mathlib.Logic.Equiv.Fin.Rotate

namespace Coercion

open Calendar Text

namespace Loose

section

variable {ι β : Type} {step : β → ι → Option β}

def Commutes (step : β → ι → Option β) (x y : ι) : Prop :=
  ∀ b, (step b x).bind (step · y) = (step b y).bind (step · x)

theorem Commutes.foldlM_swap {x y : ι} (h : Commutes step x y) (l : List ι) (b : β) :
    (x :: y :: l).foldlM step b = (y :: x :: l).foldlM step b := by
  have hstep (z w : ι) : (z :: w :: l).foldlM step b =
      ((step b z).bind (step · w)).bind fun b => l.foldlM step b := by
    simp only [List.foldlM_cons, Option.bind_eq_bind, Option.bind_assoc]
  rw [hstep, hstep, h b]

variable [LinearOrder ι]

theorem foldlM_orderedInsert {x : ι} {l : List ι} (h : ∀ y ∈ l, y < x → Commutes step x y) (b : β) :
    (l.orderedInsert (· ≤ ·) x).foldlM step b = (x :: l).foldlM step b := by
  induction l generalizing b with
  | nil => rfl
  | cons y l ih =>
    rw [List.orderedInsert_cons]
    split_ifs with hle
    · rfl
    · have hrest := ih fun z hz => h z (by simp [hz])
      rw [(h y (by simp) (not_le.mp hle)).foldlM_swap, List.foldlM_cons, List.foldlM_cons]
      congr 1
      funext b
      exact hrest b

theorem foldlM_insertionSort {l : List ι} (h : l.Pairwise fun x y => y < x → Commutes step x y)
    (b : β) : (l.insertionSort (· ≤ ·)).foldlM step b = l.foldlM step b := by
  induction l generalizing b with
  | nil => rfl
  | cons x l ih =>
    obtain ⟨hx, hl⟩ := List.pairwise_cons.mp h
    have hsorted (y : ι) (hy : y ∈ l.insertionSort (· ≤ ·)) : y < x → Commutes step x y :=
      hx y ((List.perm_insertionSort _ l).mem_iff.mp hy)
    rw [List.insertionSort_cons, foldlM_orderedInsert hsorted, List.foldlM_cons, List.foldlM_cons]
    congr 1
    funext b
    exact ih hl b

end

theorem foldlM_permuted {α β : Type} {step : β → α → Option β} {n : Nat} (row : Fin n → α)
    (σ : Equiv.Perm (Fin n))
    (h : ∀ i j, i < j → σ.symm j < σ.symm i → Commutes step (row j) (row i)) (b : β) :
    (List.ofFn (row ∘ σ)).foldlM step b = (List.ofFn row).foldlM step b := by
  have hpairs : (List.ofFn σ).Pairwise
      fun x y => y < x → Commutes (fun b i => step b (row i)) x y := by
    rw [List.pairwise_ofFn]
    intro i j hij hlt b
    exact h (σ j) (σ i) hlt (by simpa using hij) b
  have hsorted : (List.ofFn σ).insertionSort (· ≤ ·) = List.finRange n := by
    refine List.Perm.eq_of_sortedLE List.sortedLE_insertionSort
      (List.sortedLT_finRange n).sortedLE ((List.perm_insertionSort _ _).trans ?_)
    rw [List.ofFn_eq_map]
    exact σ.map_finRange_perm
  have hfold := foldlM_insertionSort hpairs b
  rw [hsorted] at hfold
  rw [← List.map_ofFn, List.ofFn_eq_map (f := row), List.foldlM_map, List.foldlM_map]
  exact hfold.symm

/-- What a token states by its form alone. -/
inductive Statement
  | half (half : Meridiem)
  | offset (offset : Offset)
  | signed (offset : Offset)
  | time (time : DayTime)
  | month (month : Nat)
  | weekday
  | number (digits : Text)
  | date (date : YearMonthDay)

def statement? (t : Text) : Option Statement :=
  match Fields.meridiem? t with
  | some half => some (.half half)
  | none =>
    if Fields.namesUtc t then some (.offset .utc)
    else if Fields.startsWithUtc t then (Offset.read (t.drop 3)).toOption.map .offset
    else if Fields.startsWithSign t then (Offset.read t).toOption.map .signed
    else if t.contains ':' then (time? t).map .time
    else if t.all Char.isAlpha then
      match month? t with
      | some month => some (.month month)
      | none => if isWeekday t then some .weekday else none
    else if t.all Char.isDigit then some (.number t)
    else (date? t).map .date

namespace Fields

/-- Whether there is room for a statement. An offset behind a sign needs a time before it. -/
def admits (f : Fields) : Statement → Bool
  | .half _ => f.meridiem.isNone
  | .signed _ => f.time.isSome
  | .time _ => f.time.isNone
  | .month _ => f.month.isNone
  | .date _ => f.date.isNone
  | _ => true

def stated (f : Fields) : Statement → Fields
  | .half half => { f with meridiem := some half }
  | .offset offset => { f with offset := some offset }
  | .signed offset => { f with offset := some offset }
  | .time time => { f with time := some time }
  | .month month => { f with month := some month }
  | .weekday => f
  | .number digits => { f with numbers := f.numbers ++ [digits] }
  | .date date => { f with date := some date }

def state? (f : Fields) (s : Statement) : Option Fields :=
  if f.admits s then some (f.stated s) else none

theorem state?_bind (f : Fields) (a b : Statement) : (f.state? a).bind (state? · b) =
    if (f.admits a && (f.stated a).admits b) = true then some ((f.stated a).stated b)
    else none := by
  unfold state?
  cases f.admits a <;> cases hb : (f.stated a).admits b <;> simp [hb]

theorem words_of_startsWithSign {t : Text} (h : startsWithSign t = true) :
    meridiem? t = none ∧ namesUtc t = false ∧ startsWithUtc t = false := by
  cases t with
  | nil => cases h
  | cons c t =>
    simp only [startsWithSign, List.head?_cons, Bool.or_eq_true, beq_iff_eq,
      Option.some.injEq] at h
    obtain rfl | rfl := h <;> simp [meridiem?, namesUtc, startsWithUtc, sameLetters]

/-- Behind a sign there is an offset after a time, and before it nothing that the reader accepts. -/
theorem add?_of_startsWithSign {t : Text} (h : startsWithSign t = true) (f : Fields) :
    f.add? t = if f.time.isSome then f.withOffset? t else none := by
  cases htime : f.time with
  | some time =>
    obtain ⟨hhalf, hnames, hutc⟩ := words_of_startsWithSign h
    simp [add?, hhalf, hnames, hutc, h, htime]
  | none =>
    obtain ⟨c, t, rfl, hc⟩ : ∃ c u, t = c :: u ∧ c.isAlphanum = false := by
      cases t with
      | nil => cases h
      | cons c t =>
        simp only [startsWithSign, List.head?_cons, Bool.or_eq_true, beq_iff_eq,
          Option.some.injEq] at h
        obtain rfl | rfl := h <;> exact ⟨_, t, rfl, rfl⟩
    exact add?_of_not_isAlphanum hc htime t

theorem statement?_of_startsWithSign {t : Text} (h : startsWithSign t = true) :
    statement? t = (Offset.read t).toOption.map .signed := by
  obtain ⟨hhalf, hnames, hutc⟩ := words_of_startsWithSign h
  simp [statement?, hhalf, hnames, hutc, h]

theorem add?_eq (f : Fields) (t : Text) : f.add? t = (statement? t).bind f.state? := by
  by_cases hsign : startsWithSign t = true
  · rw [add?_of_startsWithSign hsign, statement?_of_startsWithSign hsign, withOffset?]
    cases Offset.read t with
    | error e => simp [Except.toOption]
    | ok offset => cases htime : f.time <;> simp [Except.toOption, state?, admits, stated, htime]
  -- The two go through the same tests one after the other.
  rw [Bool.not_eq_true] at hsign
  unfold add? statement?
  rw [hsign, Bool.false_and, if_neg Bool.false_ne_true, if_neg Bool.false_ne_true]
  cases meridiem? t with
  | some half => rfl
  | none =>
    dsimp only
    by_cases hnames : namesUtc t = true
    · rw [if_pos hnames, if_pos hnames]
      rfl
    rw [if_neg hnames, if_neg hnames]
    by_cases hutc : startsWithUtc t = true
    · rw [if_pos hutc, if_pos hutc, withOffset?]
      cases Offset.read (t.drop 3) <;> rfl
    rw [if_neg hutc, if_neg hutc]
    by_cases hcolon : t.contains ':' = true
    · rw [if_pos hcolon, if_pos hcolon]
      cases Loose.time? t <;> simp [state?, admits, stated]
    rw [if_neg hcolon, if_neg hcolon]
    by_cases halpha : t.all Char.isAlpha = true
    · rw [if_pos halpha, if_pos halpha]
      cases month? t with
      | some month => rfl
      | none =>
        dsimp only
        split_ifs <;> rfl
    rw [if_neg halpha, if_neg halpha]
    by_cases hdigit : t.all Char.isDigit = true
    · rw [if_pos hdigit, if_pos hdigit]
      rfl
    rw [if_neg hdigit, if_neg hdigit]
    cases Loose.date? t <;> simp [state?, admits, stated]

end Fields

namespace Statement

def isOffset : Statement → Bool
  | offset _ | signed _ => true
  | _ => false

def InOrder : Statement → Statement → Prop
  | number _, number _ => True
  | signed _, time _ => True
  | time _, signed _ => True
  | _, _ => False

theorem admits_comm {a b : Statement} (h : ¬ InOrder a b) (f : Fields) :
    (f.admits a && (f.stated a).admits b) = (f.admits b && (f.stated b).admits a) := by
  cases a <;> cases b <;> simp [Fields.admits, Fields.stated, InOrder, Bool.and_comm] at h ⊢

theorem stated_comm {a b : Statement} (h : ¬ InOrder a b)
    (hoffset : ¬ (a.isOffset = true ∧ b.isOffset = true)) {f : Fields}
    (hf : (f.admits a && (f.stated a).admits b) = true) :
    (f.stated a).stated b = (f.stated b).stated a := by
  cases a <;> cases b <;> simp [Fields.admits, Fields.stated, InOrder, isOffset] at h hoffset hf ⊢

theorem commutes {a b : Statement} (h : ¬ InOrder a b)
    (hoffset : ¬ (a.isOffset = true ∧ b.isOffset = true)) : Commutes Fields.state? a b := by
  intro f
  rw [f.state?_bind, f.state?_bind, ← admits_comm h]
  split_ifs with hadmits
  · rw [stated_comm h hoffset hadmits]
  · rfl

end Statement

instance (t : Text) : Decidable (IsToken t) :=
  decidable_of_iff (t ≠ [] ∧ t.head? ≠ some '(' ∧ t.all (!isSeparator ·) = true)
    ⟨fun ⟨hne, hhead, hsep⟩ => ⟨hne, hhead, by simpa using hsep⟩,
      fun h => ⟨h.ne_nil, h.head_ne, by simpa using h.isSeparator_eq⟩⟩

/-- A token that states an offset, or starts with a sign as if it did. -/
def IsOffsetToken (t : Text) : Prop :=
  Fields.namesUtc t = true ∨
    (Fields.startsWithUtc t = true ∧ (Offset.read (t.drop 3)).toOption.isSome = true) ∨
    Fields.startsWithSign t = true

instance (t : Text) : Decidable (IsOffsetToken t) :=
  inferInstanceAs (Decidable (_ ∨ (_ ∧ _) ∨ _))

/-- Two tokens whose order counts: two numbers, or a token behind a sign and one with a colon. -/
def OrderCounts (s t : Text) : Prop :=
  (s.all Char.isDigit = true ∧ t.all Char.isDigit = true) ∨
    (Fields.startsWithSign s = true ∧ ':' ∈ t) ∨ (Fields.startsWithSign t = true ∧ ':' ∈ s)

instance (s t : Text) : Decidable (OrderCounts s t) :=
  inferInstanceAs (Decidable ((_ ∧ _) ∨ (_ ∧ _) ∨ (_ ∧ _)))

theorem OrderCounts.symm {s t : Text} (h : OrderCounts s t) : OrderCounts t s := by
  obtain ⟨hs, ht⟩ | h | h := h
  · exact .inl ⟨ht, hs⟩
  · exact .inr (.inr h)
  · exact .inr (.inl h)

/-- A token of letters that starts with the abbreviation of a weekday. -/
def namesWeekday (t : Text) : Bool :=
  t.all Char.isAlpha && isWeekday t

def Statement.HasForm (t : Text) : Statement → Prop
  | offset _ => IsOffsetToken t
  | signed _ => Fields.startsWithSign t = true
  | time _ => ':' ∈ t
  | number _ => t.all Char.isDigit = true
  | _ => True

theorem hasForm_of_statement? {t : Text} {s : Statement} (h : statement? t = some s) :
    s.HasForm t := by
  unfold statement? at h
  cases hhalf : Fields.meridiem? t with
  | some half =>
    rw [hhalf] at h
    cases h
    trivial
  | none =>
    rw [hhalf] at h
    dsimp only at h
    split_ifs at h with hnames hutc hsign hcolon hletters hweekday hdigit
    · cases h
      exact .inl hnames
    · obtain ⟨offset, hread, rfl⟩ := Option.map_eq_some_iff.mp h
      exact .inr (.inl ⟨hutc, by rw [hread]; rfl⟩)
    · obtain ⟨offset, -, rfl⟩ := Option.map_eq_some_iff.mp h
      exact hsign
    · obtain ⟨time, -, rfl⟩ := Option.map_eq_some_iff.mp h
      exact List.contains_iff_mem.mp hcolon
    · split at h <;> cases h <;> trivial
    · split at h <;> cases h
      trivial
    · cases h
      exact hdigit
    · obtain ⟨date, -, rfl⟩ := Option.map_eq_some_iff.mp h
      trivial

theorem Statement.isOffsetToken_of_isOffset {t : Text} {s : Statement} (h : s.HasForm t)
    (hs : s.isOffset = true) : IsOffsetToken t := by
  cases s with
  | offset => exact h
  | signed => exact .inr (.inr h)
  | _ => cases hs

theorem Statement.orderCounts_of_inOrder {s t : Text} {a b : Statement} (ha : a.HasForm s)
    (hb : b.HasForm t) (h : InOrder a b) : OrderCounts s t := by
  cases a <;> cases b <;> first | exact h.elim | skip
  case number.number => exact .inl ⟨ha, hb⟩
  case signed.time => exact .inr (.inl ⟨ha, hb⟩)
  case time.signed => exact .inr (.inr ⟨hb, ha⟩)

theorem commutes_add? {s t : Text} (h : ¬ OrderCounts s t)
    (hoffset : ¬ (IsOffsetToken s ∧ IsOffsetToken t)) : Commutes Fields.add? s t := by
  intro f
  simp only [Fields.add?_eq]
  cases ha : statement? s with
  | none => cases statement? t <;> simp
  | some a =>
    cases hb : statement? t with
    | none => simp
    | some b =>
      have hforma := hasForm_of_statement? ha
      have hformb := hasForm_of_statement? hb
      exact Statement.commutes (mt (Statement.orderCounts_of_inOrder hforma hformb) h)
        (fun hboth => hoffset ⟨Statement.isOffsetToken_of_isOffset hforma hboth.1,
          Statement.isOffsetToken_of_isOffset hformb hboth.2⟩) f

theorem weekday_ne {name : String} (h : name ∈ weekdayAbbreviations) :
    monthOfAbbreviation? name.toList = none ∧
      ∀ word ∈ ["am", "pm", "Z", "gmt", "utc"],
        (word.toList.map Char.toLower).take 3 ≠ name.toList.map Char.toLower := by
  revert name
  decide

theorem words_of_isWeekday {t : Text} (h : isWeekday t = true) :
    Fields.meridiem? t = none ∧ Fields.namesUtc t = false ∧ Fields.startsWithUtc t = false ∧
      month? t = none := by
  obtain ⟨i, hi⟩ := Option.isSome_iff_exists.mp h
  obtain ⟨hlt, hsame, -⟩ := List.findIdx?_eq_some_iff_getElem.mp hi
  obtain ⟨hmonth, hne⟩ := weekday_ne (List.getElem_mem hlt)
  have htake : (t.map Char.toLower).take 3 =
      weekdayAbbreviations[i].toList.map Char.toLower := by
    rw [← List.map_take, ← beq_iff_eq.mp hsame]
  have hother : ∀ word ∈ ["am", "pm", "Z", "gmt", "utc"], sameLetters t word.toList = false ∧
      sameLetters (t.take 3) word.toList = false := by
    intro word hword
    simp only [sameLetters, beq_eq_false_iff_ne]
    refine ⟨fun heq => hne word hword (heq ▸ htake), fun heq => hne word hword ?_⟩
    rw [← heq, List.map_take, List.take_take, Nat.min_self, htake]
  simp only [List.forall_mem_cons, List.not_mem_nil, false_implies, implies_true, and_true]
    at hother
  obtain ⟨⟨ham, -⟩, ⟨hpm, -⟩, ⟨hz, -⟩, ⟨hgmt, hgmt'⟩, ⟨hutc, hutc'⟩⟩ := hother
  have hzulu : (t == ['Z']) = false := by
    rw [beq_eq_false_iff_ne]
    rintro rfl
    cases hz
  refine ⟨?_, ?_, ?_, ?_⟩
  · rw [Fields.meridiem?, ham, hpm]
    rfl
  · rw [Fields.namesUtc, hzulu, hgmt, hutc]
    rfl
  · rw [Fields.startsWithUtc, hgmt', hutc']
    rfl
  · rw [month?, ← monthOfAbbreviation?_congr hsame, hmonth]

theorem statement?_of_namesWeekday {t : Text} (h : namesWeekday t = true) :
    statement? t = some .weekday := by
  obtain ⟨hletters, hweekday⟩ := Bool.and_eq_true_iff.mp h
  obtain ⟨hhalf, hnames, hutc, hmonth⟩ := words_of_isWeekday hweekday
  have hword : IsWord t := fun c hc => isAlphanum_of_isAlpha (List.all_eq_true.mp hletters c hc)
  have hsign : Fields.startsWithSign t = false := by
    rw [Bool.eq_false_iff, Fields.startsWithSign, Ne, Bool.or_eq_true, beq_iff_eq, beq_iff_eq]
    rintro (hhead | hhead)
    all_goals exact hword.not_mem rfl (List.mem_of_mem_head? hhead)
  have hcolon : ':' ∉ t := hword.not_mem rfl
  simp [statement?, hhalf, hnames, hutc, hsign, hcolon, hletters, hmonth, hweekday]

theorem Fields.add?_of_namesWeekday {t : Text} (h : namesWeekday t = true) (f : Fields) :
    f.add? t = some f := by
  rw [add?_eq, statement?_of_namesWeekday h]
  rfl

theorem foldlM_filter_namesWeekday (row : List Text) (f : Fields) :
    (row.filter fun t => !namesWeekday t).foldlM Fields.add? f = row.foldlM Fields.add? f := by
  induction row generalizing f with
  | nil => rfl
  | cons t row ih =>
    rw [List.filter_cons]
    cases ht : namesWeekday t with
    | true => simp [Fields.add?_of_namesWeekday ht, ih]
    | false => simp [ih]

/-- The order of tokens counts for numbers, and for a token behind a sign and one with a colon. A
row with at most one offset is read as in any other order that leaves these alone, and any row as
with other names of weekdays between its tokens. -/
theorem read?_order {n : Nat} {row : Fin n → Text} (hrow : ∀ i, IsToken (row i)) :
    (∀ σ : Equiv.Perm (Fin n),
      (∀ i j, IsOffsetToken (row i) → IsOffsetToken (row j) → i = j) →
      (∀ i j, i < j → OrderCounts (row i) (row j) → σ.symm i < σ.symm j) →
      read? (List.intercalate [' '] (List.ofFn (row ∘ σ))) =
        read? (List.intercalate [' '] (List.ofFn row))) ∧
    (∀ row' : List Text, (∀ t ∈ row', IsToken t) →
      (row'.filter fun t => !namesWeekday t) = ((List.ofFn row).filter fun t => !namesWeekday t) →
      read? (List.intercalate [' '] row') = read? (List.intercalate [' '] (List.ofFn row))) := by
  have hparts : ∀ t ∈ List.ofFn row, IsToken t := by
    simpa [List.forall_mem_ofFn_iff] using hrow
  refine ⟨fun σ hoffset horder => ?_, fun row' hrow' hfilter => ?_⟩
  · have hparts' : ∀ t ∈ List.ofFn (row ∘ σ), IsToken t := by
      simpa [List.forall_mem_ofFn_iff] using fun i => hrow (σ i)
    have hcommutes (i j : Fin n) (hij : i < j) (hσ : σ.symm j < σ.symm i) :
        Commutes Fields.add? (row j) (row i) := by
      refine commutes_add? (fun hcounts => ?_) fun hboth => ?_
      · exact absurd (horder i j hij hcounts.symm) hσ.asymm
      · exact hij.ne' (hoffset j i hboth.1 hboth.2)
    rw [read?, read?, tokens_intercalate hparts, tokens_intercalate hparts',
      foldlM_permuted row σ hcommutes]
  · rw [read?, read?, tokens_intercalate hparts, tokens_intercalate hrow',
      ← foldlM_filter_namesWeekday, hfilter, foldlM_filter_namesWeekday]

theorem read?_order_offsetBeforeDate :
    read? "10:30 +02:00 17 Mar 2020".toList = read? "17 Mar 2020 10:30 +02:00".toList ∧
      read? "Tue 17 Mar 2020 10:30 Tuesday +02:00".toList =
        read? "17 Mar 2020 10:30 +02:00".toList ∧
      (read? "17 Mar 2020 10:30 +02:00".toList).isSome = true := by
  obtain ⟨horder, hweekdays⟩ := @read?_order 5
    ![['1', '7'], ['M', 'a', 'r'], ['2', '0', '2', '0'], ['1', '0', ':', '3', '0'],
      ['+', '0', '2', ':', '0', '0']] (by decide)
  exact ⟨horder ((finRotate 5).symm.trans (finRotate 5).symm) (by decide) (by decide),
    hweekdays ["Tue".toList, "17".toList, "Mar".toList, "2020".toList, "10:30".toList,
      "Tuesday".toList, "+02:00".toList] (by decide) (by decide), by decide⟩

end Loose

end Coercion
