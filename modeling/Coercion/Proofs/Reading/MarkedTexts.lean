import Coercion.Proofs.Reading.FirstMark
import Coercion.Proofs.Reading.IsoInversion
import Coercion.Proofs.Reading.Recognition

namespace Coercion

open Calendar Text

theorem Restated.isNaN_of_check {r : Restated} (h : r.check = .ok ()) :
    r.day.isNaN = false ∧ r.month.isNaN = false ∧ r.year.isNaN = false := by
  unfold check at h
  split at h
  · cases h
  · next hnan => simpa [and_assoc] using hnan

/-- A date that passes the check has a month and a day that are integers, and they are those of a
valid date. -/
theorem Restated.check_eq_ok {r : Restated} (h : r.check = .ok ())
    (hpos : r.day.isPositive = true) :
    r.day.isNaN = false ∧ r.month.isNaN = false ∧ r.year.isNaN = false ∧
      ∃ day month year : Int, r.day.integer? = some day ∧ r.month.integer? = some month ∧
        isValidDate day month year = true := by
  obtain ⟨hday, hmonth, hyear⟩ := isNaN_of_check h
  refine ⟨hday, hmonth, hyear, ?_⟩
  simp only [check, hday, hmonth, hyear, hpos, Bool.or_self, Bool.not_true, Bool.false_eq_true,
    if_false] at h
  split at h
  · next day month year hday hmonth hyear =>
    split at h
    · next hvalid =>
      have hclamp {n : Int} (hn : 1 ≤ clampWord n) (hn' : clampWord n ≤ 31) :
          clampWord n = n := by
        unfold clampWord leastWord greatestWord at *
        omega
      have hbounds := hvalid
      simp only [isValidDate, Bool.and_eq_true, decide_eq_true_eq] at hbounds
      obtain ⟨⟨⟨hm, hm'⟩, hd⟩, hd'⟩ := hbounds
      have hlast := (daysInMonth_bounds (clampWord year) (clampWord month).toNat).2
      rw [hclamp hd (by omega), hclamp hm (by omega)] at hvalid
      exact ⟨day, month, _, hday, hmonth, hvalid⟩
    · cases h
  · cases h

/-- The texts with a date between marks, by the order of its parts. -/
inductive Restated.Marked (r : Restated) : Prop
  | named {a x y : Text} (ha : byteLength a ≤ 2) (htext : r.text = a ++ '-' :: (x ++ '-' :: y))
      (hday : r.day = numberOf a) (hmonth : r.month = monthNumberOf x)
  | monthFirst {a x y : Text} {s : Char} (hs : s = '/' ∨ s = '-') (ha : byteLength a ≤ 2)
      (hx : byteLength x ≤ 2) (htext : r.text = a ++ s :: (x ++ s :: y))
      (hmonth : r.month = numberOf a) (hday : r.day = numberOf x)
  | yearFirst {a x w v : Text} {s : Char} (hs : s = '-' ∧ ':' ∈ r.text ∨ s = '.')
      (ha : a ≠ [] → byteLength a = 4 ∧ ∀ c ∈ a.head?, isBlank c = false) (hx : byteLength x ≤ 2)
      (hw : byteLength w ≤ 2) (hv : byteLength w = 2 ∨ v = [] ∨ v.head? = some ' ')
      (htext : r.text = a ++ s :: (x ++ s :: (w ++ v))) (hyear : r.year = numberOf a)
      (hmonth : r.month = numberOf x) (hday : r.day = numberOf w)

theorem Loose.month?_of_short {t : Text} (h : t.length ≤ 2) : month? t = none := by
  cases hm : month? t with
  | none => rfl
  | some m =>
    obtain ⟨a, b, c, ht, -⟩ := (isMonthName_of_monthOfAbbreviation? hm).exists_three
    have := congrArg List.length ht
    simp only [List.length_take, List.length_cons, List.length_nil] at this
    omega

theorem numberOf_of_number? {t : Text} {n : Nat} (h : Loose.number? 2 t = some n) :
    numberOf t = .ofInt n := by
  obtain ⟨hne, hnum, hlen, rfl⟩ := Loose.number?_eq_some h
  exact numberOf_of_trim (trim_of_isWord hnum.isWord) hne hnum (by omega)

theorem isNaN_numberOf_comma {d : Char} (hd : d.isDigit = true) :
    (numberOf [d, ',']).isNaN = true := by
  have htrim : trim [d, ','] = [d, ','] := by
    apply trim_of_ends
    · simpa using isBlank_of_isDigit hd
    · simp +decide
  have hdigits : splitDigits [d, ','] = ([d], [',']) :=
    splitDigits_append (p := [d]) (by simpa [IsNumber] using hd) (by simp)
  have hword : ¬ [d, ','] = "Infinity".toList := by
    intro h
    cases congrArg List.length h
  have hread : Literal.read? [d, ','] = none := by
    simp [Literal.read?, Literal.splitFraction, splitSign_of_isDigit hd, hdigits]
  simp [numberOf, htrim, splitSign_of_isDigit hd, hread, Double.isNaN]

/-- The last number of a date is read from all its digits, since what follows them is no part of
a number. -/
theorem numberOf_last {w v e t : Text} (hw : byteLength w ≤ 2)
    (hv : byteLength w = 2 ∨ v = [] ∨ v.head? = some ' ') (hne : e ≠ []) (he : IsNumber e)
    (hlen : e.length ≤ 2)
    (ht : e.length = 2 ∨ t = [] ∨ ∃ c u, t = c :: u ∧ (isBlank c = true ∨ c = ','))
    (hnan : (numberOf w).isNaN = false) (h : w ++ v = e ++ t) : numberOf w = .ofInt (toNat e) := by
  have hself : numberOf e = .ofInt (toNat e) :=
    numberOf_of_trim (trim_of_isWord he.isWord) hne he (by omega)
  have hpos := List.length_pos_iff.mpr hne
  obtain ⟨u, rfl, rfl⟩ | ⟨u, rfl, rfl⟩ := List.append_eq_append_iff.mp h
  · cases u with
    | nil => rwa [List.append_nil] at hself ⊢
    | cons d u =>
      exfalso
      have hd := he d (by simp)
      obtain hv | hv | hv := hv
      · have hascii : IsAscii w := fun c hc => utf8Size_of_isDigit (he c (by simp [hc]))
        rw [hascii.byteLength_eq] at hv
        rw [List.length_append, List.length_cons] at hlen
        omega
      · cases hv
      · obtain rfl : d = ' ' := by simpa using hv
        cases hd
  · cases u with
    | nil => rwa [List.append_nil]
    | cons c u =>
      have hbytes := length_le_byteLength (e ++ c :: u)
      rw [List.length_append, List.length_cons] at hbytes
      obtain ⟨d, rfl⟩ := List.length_eq_one_iff.mp (show e.length = 1 by omega)
      rw [List.length_singleton] at hbytes
      obtain rfl : u = [] := List.length_eq_zero_iff.mp (by omega)
      have hd := he d (by simp)
      obtain ht | ht | ⟨_, _, ht, hc⟩ := ht
      · cases ht
      · cases ht
      · obtain ⟨rfl, -⟩ := List.cons.inj ht
        obtain hc | rfl := hc
        · have htrim : trim [d, c] = [d] := by
            simp [trim, isBlank_of_isDigit hd, hc]
          exact numberOf_of_trim htrim hne he (by simp)
        · rw [List.singleton_append, isNaN_numberOf_comma hd] at hnan
          cases hnan

theorem Loose.EndsToken.append_blanks {t b : Text} (ht : EndsToken t)
    (hb : ∀ c ∈ b, isBlank c = true) :
    t ++ b = [] ∨ ∃ c u, t ++ b = c :: u ∧ (isBlank c = true ∨ c = ',') := by
  obtain rfl | ⟨c, u, rfl, hc⟩ := ht
  · cases b with
    | nil => exact .inl rfl
    | cons c b => exact .inr ⟨c, b, rfl, .inl (hb c (by simp))⟩
  · refine .inr ⟨c, u ++ b, rfl, ?_⟩
    rw [isSeparator, Bool.or_eq_true, Bool.or_eq_true, beq_iff_eq, beq_iff_eq, beq_iff_eq] at hc
    obtain (rfl | rfl) | rfl := hc
    · exact .inl rfl
    · exact .inr rfl
    · exact .inl rfl

namespace Restated

variable {r : Restated} {reading : WallReading}

theorem length_dropWhile_le {a : Text} {n : Nat} (ha : byteLength a ≤ n) :
    (a.dropWhile isBlank).length ≤ n :=
  (List.dropWhile_suffix isBlank).length_le.trans ((length_le_byteLength a).trans ha)

theorem wallReading?_of_short {a x y : Text} {s : Char} (hs : s.isDigit = false)
    (ha : a.length < 4) (hx : x.length ≤ 4)
    (h : wallReading? (a ++ s :: (x ++ s :: y)) = some reading) :
    Loose.read? (a ++ s :: (x ++ s :: y)) = some reading := by
  refine (wallReading?_cases h).resolve_left fun hiso => ?_
  have := (Iso.read?_of_mark hs (by omega) hx hiso).1.length_eq
  omega

def Agrees (r : Restated) (reading : WallReading) : Prop :=
  reading.offset = none ∧
    ∃ date, reading.IsOf date ∧ r.month = .ofInt date.month ∧ r.day = .ofInt date.day

section

variable (hzone : Loose.statesZone false (Loose.tokens (trim r.text)) = false)
  (h : wallReading? (trim r.text) = some reading)

include hzone h

theorem agrees_named {a x y : Text} {m : Nat} (ha : byteLength a ≤ 2)
    (htext : r.text = a ++ '-' :: (x ++ '-' :: y)) (hday : r.day = numberOf a)
    (hmonth : r.month = monthNumberOf x) (hnan : r.day.isNaN = false) (hname : IsMonthName m x) :
    r.Agrees reading := by
  obtain ⟨y', b, rfl, hb, htrim⟩ := trim_append_marks a x y (s := '-') (by decide)
  rw [htext, htrim] at h hzone
  have hlen := length_dropWhile_le ha
  have hx : x.length = 3 := by
    obtain ⟨c₁, c₂, c₃, rfl, -⟩ := hname.exists_three
    rfl
  have hread := wallReading?_of_short (by rfl) (by omega) (by omega) h
  obtain ⟨e, tail, date, hnum, ha', -, -, hparts, hof⟩ :=
    Loose.read?_of_part (.inr (.inl rfl)) (hday ▸ hnan) ((length_le_byteLength a).trans (by omega))
      (.inr ⟨by decide, hname.isWord.not_mem rfl⟩) hread
  refine ⟨Loose.offset_of_statesZone hread hzone, date, hof, ?_⟩
  cases hparts with
  | @named _ m' d hmonth' hyear hday' =>
    obtain rfl : m = m' := Option.some.inj (hname.month?_eq.symm.trans hmonth')
    obtain ⟨hne, -, -, rfl⟩ := Loose.number?_eq_some hday'
    refine ⟨hmonth.trans hname.monthNumberOf_eq, hday.trans ?_⟩
    exact numberOf_of_trim ha' hne hnum (by omega)
  | yearFirst hnone => simp [hname.month?_eq] at hnone
  | monthFirst hnone => simp [hname.month?_eq] at hnone

theorem agrees_monthFirst {a x y : Text} {s : Char} (hs : s = '/' ∨ s = '-')
    (ha : byteLength a ≤ 2) (hx : byteLength x ≤ 2) (htext : r.text = a ++ s :: (x ++ s :: y))
    (hmonth : r.month = numberOf a) (hday : r.day = numberOf x) (hnan : r.month.isNaN = false) :
    r.Agrees reading := by
  have hs' : s.isDigit = false ∧ isBlank s = false ∧ (s = '/' ∨ s = '-' ∨ s = '.') := by
    obtain rfl | rfl := hs <;> decide
  obtain ⟨y', b, rfl, hb, htrim⟩ := trim_append_marks a x y hs'.2.1
  rw [htext, htrim] at h hzone
  have hlen := length_dropWhile_le ha
  have hx' := (length_le_byteLength x).trans hx
  have hread := wallReading?_of_short hs'.1 (by omega) (by omega) h
  obtain ⟨e, tail, date, hnum, ha', -, -, hparts, hof⟩ :=
    Loose.read?_of_part hs'.2.2 (hmonth ▸ hnan) ((length_le_byteLength a).trans (by omega))
      (.inl hx') hread
  refine ⟨Loose.offset_of_statesZone hread hzone, date, hof, ?_⟩
  cases hparts with
  | named hname => simp [Loose.month?_of_short hx'] at hname
  | yearFirst _ hfour => omega
  | monthFirst _ _ _ hmonth' hday' =>
    obtain ⟨hne, -, -, rfl⟩ := Loose.number?_eq_some hmonth'
    refine ⟨hmonth.trans (numberOf_of_trim ha' hne hnum (by omega)), hday.trans ?_⟩
    exact numberOf_of_number? hday'

theorem agrees_yearFirst {a x w v : Text} {s : Char} (hs : s = '-' ∧ ':' ∈ r.text ∨ s = '.')
    (ha : a ≠ [] → byteLength a = 4 ∧ ∀ c ∈ a.head?, isBlank c = false) (hx : byteLength x ≤ 2)
    (hw : byteLength w ≤ 2) (hv : byteLength w = 2 ∨ v = [] ∨ v.head? = some ' ')
    (htext : r.text = a ++ s :: (x ++ s :: (w ++ v))) (hyear : r.year = numberOf a)
    (hmonth : r.month = numberOf x) (hday : r.day = numberOf w) (hnan : r.day.isNaN = false)
    (hnan' : r.year.isNaN = false) : r.Agrees reading := by
  have hs' : s.isDigit = false ∧ isBlank s = false ∧ (s = '/' ∨ s = '-' ∨ s = '.') := by
    obtain ⟨rfl, -⟩ | rfl := hs <;> decide
  obtain ⟨y', b, hy', hb, htrim⟩ := trim_append_marks a x (w ++ v) hs'.2.1
  have hfour : byteLength a ≤ 4 ∧ a.dropWhile isBlank = a := by
    cases a with
    | nil => exact ⟨Nat.zero_le 4, rfl⟩
    | cons c a =>
      obtain ⟨hbytes, hhead⟩ := ha (by simp)
      exact ⟨hbytes.le, by simp [hhead c rfl]⟩
  have hlen := (length_le_byteLength a).trans hfour.1
  have hx' := (length_le_byteLength x).trans hx
  rw [htext, htrim, hfour.2] at h hzone
  obtain hiso | hread := wallReading?_cases h
  · -- The time that stands in the text is what keeps the ISO reader from taking it in UTC.
    obtain ⟨hdigits, rfl⟩ := Iso.read?_of_mark hs'.1 hlen (by omega) hiso
    have hcolon : ':' ∈ a ++ '-' :: (x ++ '-' :: y') := by
      have hmem := (hs.resolve_right (by decide)).2
      have hb' : ':' ∉ b := fun hmem => by cases hb ':' hmem
      rw [htext, hy'] at hmem
      simpa [hb'] using hmem
    obtain ⟨hx'', hoffset, e, v', he, rfl, hof⟩ := Iso.read?_eq_some hlen hx' hcolon hzone hiso
    refine ⟨hoffset, _, hof, hmonth.trans (numberOf_of_isDigits hx'' (by decide)), hday.trans ?_⟩
    rw [List.append_assoc] at hy'
    exact numberOf_last hw hv he.ne_nil he.isNumber he.length_eq.le (.inl he.length_eq)
      (hday ▸ hnan) hy'
  · rw [← hfour.2] at hread hzone
    obtain ⟨e, tail, date, hnum, ha', rfl, htail, hparts, hof⟩ :=
      Loose.read?_of_part hs'.2.2 (hyear ▸ hnan') hlen (.inl hx') hread
    rw [hfour.2] at hnum hparts
    refine ⟨Loose.offset_of_statesZone hread hzone, date, hof, ?_⟩
    cases hparts with
    | named hname => simp [Loose.month?_of_short hx'] at hname
    | monthFirst _ hne hyear hmonth' =>
      obtain ⟨hanil, -, -, -⟩ := Loose.number?_eq_some hmonth'
      exact absurd (hnum.isWord.isAscii.byteLength_eq.symm.trans (ha hanil).1) hne
    | yearFirst _ _ _ hmonth' hday' =>
      refine ⟨hmonth.trans (numberOf_of_number? hmonth'), hday.trans ?_⟩
      obtain ⟨hne, hnum', hlen', rfl⟩ := Loose.number?_eq_some hday'
      rw [List.append_assoc] at hy'
      exact numberOf_last hw hv hne hnum' hlen' (.inr (htail.append_blanks hb)) (hday ▸ hnan) hy'

theorem Marked.agrees (hr : r.Marked) (hcheck : r.check = .ok ())
    (hpos : r.day.isPositive = true) : r.Agrees reading := by
  obtain ⟨hnan, hnan', hnan'', day, month, year, -, hmonth, hvalid⟩ := check_eq_ok hcheck hpos
  cases hr with
  | named ha htext hd hm =>
    have hmpos : 0 < month := by
      simp only [isValidDate, Bool.and_eq_true, decide_eq_true_eq] at hvalid
      omega
    obtain ⟨m, rfl, hname⟩ := isMonthName_of_integer? (hm ▸ hmonth) hmpos
    exact agrees_named hzone h ha htext hd hm hnan hname
  | monthFirst hs ha hx htext hm hd => exact agrees_monthFirst hzone h hs ha hx htext hm hd hnan'
  | yearFirst hs ha hx hw hv htext hy hm hd =>
    exact agrees_yearFirst hzone h hs ha hx hw hv htext hy hm hd hnan hnan''

end

end Restated

end Coercion
