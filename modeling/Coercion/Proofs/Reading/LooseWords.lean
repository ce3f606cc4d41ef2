import Coercion.Proofs.Reading.Loose
import Coercion.Proofs.Reading.Months
import Coercion.Proofs.Time.Offsets

namespace Coercion

open Calendar Text

namespace Loose

theorem exists_three_of_weekday {name : String} (h : name ∈ weekdayAbbreviations) :
    ∃ a b c, name.toList = [a, b, c] ∧ a.isAlpha = true ∧ b.isAlpha = true ∧ c.isAlpha = true := by
  simp only [weekdayAbbreviations, List.mem_cons, List.not_mem_nil, or_false] at h
  obtain rfl | rfl | rfl | rfl | rfl | rfl | rfl := h <;> exact ⟨_, _, _, rfl, rfl, rfl, rfl⟩

/-- A text that the loose reader takes for one token. -/
structure IsToken (a : Text) : Prop where
  ne_nil : a ≠ []
  head_ne : a.head? ≠ some '('
  isSeparator_eq : ∀ c ∈ a, isSeparator c = false

theorem tokens_intercalate {parts : List Text} (h : ∀ a ∈ parts, IsToken a) :
    tokens (List.intercalate [' '] parts) = parts := by
  induction parts with
  | nil => rfl
  | cons a parts ih =>
    have ha := h a (by simp)
    have hrest := ih fun b hb => h b (by simp [hb])
    cases parts with
    | nil =>
      have hlast := tokens_append ha.ne_nil ha.head_ne ha.isSeparator_eq (.inl rfl)
      rw [List.append_nil] at hlast
      rw [List.intercalate_singleton, hlast, tokens_nil]
    | cons b parts =>
      rw [List.intercalate_cons_cons, List.append_assoc, List.singleton_append,
        tokens_append ha.ne_nil ha.head_ne ha.isSeparator_eq (.inr ⟨' ', _, rfl, rfl⟩),
        tokens_cons_separator rfl, hrest]

theorem isSeparator_of_isAlphanum {c : Char} (hc : c.isAlphanum = true) :
    isSeparator c = false := by
  simp [isSeparator, ne_of_isAlphanum hc]

theorem isToken_of_isDateText {a : Text} (hne : a ≠ []) (ha : IsDateText a) : IsToken a := by
  refine ⟨hne, fun hhead => ?_, fun c hc => ?_⟩
  · obtain h | h := ha '(' (List.mem_of_mem_head? hhead)
    · cases h
    · exact absurd h (by decide)
  · obtain hc | hc := ha c hc
    · exact isSeparator_of_isAlphanum hc
    · simp only [List.mem_cons, List.not_mem_nil, or_false] at hc
      obtain rfl | rfl | rfl | rfl := hc <;> rfl

theorem isToken_of_isWord {a : Text} (hne : a ≠ []) (ha : IsWord a) : IsToken a :=
  isToken_of_isDateText hne ha.isDateText

theorem isToken_time (w : WrittenTime) : IsToken w.text where
  ne_nil := w.startsWithDigit_text.ne_nil
  head_ne := w.startsWithDigit_text.head_ne rfl
  isSeparator_eq := by
    intro c hc
    obtain hc | rfl := WrittenTime.isDigit_of_mem hc
    · exact isSeparator_of_isDigit hc
    · rfl

theorem isToken_gmtText (o : Offset) : IsToken o.gmtText where
  ne_nil := List.cons_ne_nil _ _
  head_ne := by simp [Offset.gmtText]
  isSeparator_eq := by
    intro c hc
    obtain hc | rfl | rfl := Offset.mem_gmtText hc
    · exact isSeparator_of_isAlphanum hc
    all_goals rfl

namespace Fields

/-- Three letters that do not stand for UTC name a month or a weekday. -/
theorem add?_of_letters {a b c : Char} (ha : a.isAlpha = true) (hb : b.isAlpha = true)
    (hc : c.isAlpha = true) (hutc : startsWithUtc [a, b, c] = false) (f : Fields) :
    f.add? [a, b, c] = match month? [a, b, c] with
      | some month => if f.month.isNone then some { f with month := some month } else none
      | none => if isWeekday [a, b, c] then some f else none := by
  have hmeridiem : meridiem? [a, b, c] = none := by
    simp [meridiem?, sameLetters]
  have hnames : namesUtc [a, b, c] = false := by
    simpa [namesUtc, startsWithUtc] using hutc
  have hsign : startsWithSign [a, b, c] = false := by
    simp [startsWithSign, beq_of_isAlpha ha]
  have hword : IsWord [a, b, c] := by
    simp [IsWord, isAlphanum_of_isAlpha, *]
  have hcolon : [a, b, c].contains ':' = false := by
    simpa using hword.not_mem (d := ':') rfl
  have hall : [a, b, c].all Char.isAlpha = true := by
    simp [*]
  rw [add?, hmeridiem]
  dsimp only
  rw [hnames, if_neg Bool.false_ne_true, hutc, if_neg Bool.false_ne_true, hsign, Bool.false_and,
    if_neg Bool.false_ne_true, hcolon, if_neg Bool.false_ne_true]
  exact if_pos hall

theorem add?_of_isMonthName {m : Nat} {name : Text} (h : IsMonthName m name) {f : Fields}
    (hf : f.month = none) : f.add? name = some { f with month := some m } := by
  have hmonth := h.month?_eq
  obtain ⟨a, b, c, rfl, ha, hb, hc⟩ := h.exists_three
  have hutc : startsWithUtc [a, b, c] = false := by
    have hnone {t : Text} (ht : monthOfAbbreviation? t = none) :
        sameLetters [a, b, c] t = false := by
      by_contra hsame
      rw [month?, List.take_of_length_le (by simp),
        monthOfAbbreviation?_congr (by simpa using hsame), ht] at hmonth
      cases hmonth
    rw [startsWithUtc, List.take_of_length_le (by simp), hnone rfl, hnone rfl]
    rfl
  rw [add?_of_letters ha hb hc hutc, hmonth, hf]
  rfl

theorem add?_of_weekday {name : String} (h : name ∈ weekdayAbbreviations) (f : Fields) :
    f.add? name.toList = some f := by
  simp only [weekdayAbbreviations, List.mem_cons, List.not_mem_nil, or_false] at h
  obtain rfl | rfl | rfl | rfl | rfl | rfl | rfl := h <;> rfl

theorem add?_of_isNumber {p : Text} (hne : p ≠ []) (hp : IsNumber p) (f : Fields) :
    f.add? p = some { f with numbers := f.numbers ++ [p] } := by
  have hcolon : p.contains ':' = false := by
    simpa using hp.isWord.not_mem (d := ':') rfl
  rw [add?_of_startsWithDigit (hp.startsWithDigit hne), hcolon, List.all_eq_true.mpr hp]
  rfl

theorem add?_time {w : WrittenTime} (hw : w.IsValid) {f : Fields} (hf : f.time = none) :
    f.add? w.text = some { f with time := some w.dayTime } := by
  rw [add?_of_startsWithDigit w.startsWithDigit_text, w.contains_text, hf,
    WrittenTime.loose_time? hw]
  rfl

theorem add?_gmtText (o : Offset) (f : Fields) :
    f.add? o.gmtText = some { f with offset := some o } := by
  have hread : Offset.read (o.gmtText.drop 3) = .ok o := o.read_clockText
  have hlen : 4 ≤ o.gmtText.length := by
    simp [Offset.gmtText, Offset.clockText]
  have hmeridiem : meridiem? o.gmtText = none := by
    simp [meridiem?, Offset.gmtText, Offset.clockText, sameLetters]
  have hnames : namesUtc o.gmtText = false := by
    simp [Offset.gmtText, Offset.clockText, namesUtc, sameLetters]
  have hutc : startsWithUtc o.gmtText = true := rfl
  simp only [add?, hmeridiem, hnames, hutc, withOffset?, hread]
  rfl

end Fields

theorem year?_of_isNumber {p : Text} (hp : IsNumber p) (hlo : 2 < p.length) (hhi : p.length ≤ 6) :
    year? p = some (toNat p : Int) := by
  have hne : p ≠ [] := List.ne_nil_of_length_pos (by omega)
  simp [year?, number?_of_isNumber hne hp hhi, hlo]

/-- A weekday, which tells nothing, a month, a day, a year, a time and perhaps an offset. -/
theorem read?_named {weekday : String} (hweekday : weekday ∈ weekdayAbbreviations) {m : Nat}
    {name day year : Text} (hname : IsMonthName m name) (hday : IsDigits 2 day)
    (hyear : IsNumber year) (hlo : 2 < year.length) (hhi : year.length ≤ 6) {w : WrittenTime}
    (hw : w.IsValid) (o : Option Offset) :
    read? (List.intercalate [' ']
        ([weekday.toList, name, day, year, w.text] ++ (o.map Offset.gmtText).toList)) =
      WallReading.of? ⟨toNat year, m, toNat day⟩ w.dayTime o := by
  have hne : year ≠ [] := List.ne_nil_of_length_pos (by omega)
  have hweekday' : IsToken weekday.toList := by
    obtain ⟨a, b, c, hthree, ha, hb, hc⟩ := exists_three_of_weekday hweekday
    rw [hthree]
    exact isToken_of_isWord (by simp) (by simp [IsWord, isAlphanum_of_isAlpha, *])
  have hparts : ∀ a ∈ [weekday.toList, name, day, year, w.text] ++ (o.map Offset.gmtText).toList,
      IsToken a := by
    simp only [List.forall_mem_append, List.forall_mem_cons, List.not_mem_nil, false_implies,
      implies_true, and_true, Option.mem_toList]
    refine ⟨⟨hweekday', isToken_of_isWord hname.ne_nil hname.isWord,
      isToken_of_isWord hday.ne_nil hday.isNumber.isWord, isToken_of_isWord hne hyear.isWord,
      isToken_time w⟩, ?_⟩
    intro a ha
    obtain ⟨offset, -, rfl⟩ := Option.map_eq_some_iff.mp ha
    exact isToken_gmtText offset
  have hnamed : namedDate? m [day, year] = some ⟨toNat year, m, toNat day⟩ := by
    simp [namedDate?, hday.length_eq, year?_of_isNumber hyear hlo hhi,
      number?_of_isDigits hday (by decide : 1 < 2)]
  rw [read?, tokens_intercalate hparts]
  simp only [List.foldlM_append, List.foldlM_cons, List.foldlM_nil, Option.bind_eq_bind,
    Option.bind_some, Fields.empty, Fields.add?_of_weekday hweekday,
    Fields.add?_of_isMonthName hname, Fields.add?_of_isNumber hday.ne_nil hday.isNumber,
    Fields.add?_of_isNumber hne hyear, Fields.add?_time hw]
  cases o with
  | none => simp [Fields.date?, Fields.time?, hnamed, w.checked?_dayTime hw]
  | some offset =>
    simp [Fields.add?_gmtText, Fields.date?, Fields.time?, hnamed, w.checked?_dayTime hw]

end Loose

end Coercion
