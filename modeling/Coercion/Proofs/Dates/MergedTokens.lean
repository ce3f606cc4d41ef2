import Coercion.Proofs.Dates.TokenPatterns
import Coercion.Reporting.Dates
import Mathlib.Algebra.Order.BigOperators.Group.List

namespace Coercion

open Calendar Text

namespace Rendering

namespace TokenRow

def Lends (row : TokenRow) (c : Civil) (T : Token) : Prop :=
  row.Adjoins T .year ∧ (T = .weekday ∨ T = .month ∧ c.month = 5)

instance (row : TokenRow) (c : Civil) (T : Token) : Decidable (row.Lends c T) :=
  inferInstanceAs (Decidable (_ ∧ _))

def MeetsMonday (row : TokenRow) (c : Civil) : Prop :=
  row.Adjoins .month .weekday ∧ c.month = 9 ∧ c.weekday = 1 ∧ c.hour < 12

instance (row : TokenRow) (c : Civil) : Decidable (row.MeetsMonday c) :=
  inferInstanceAs (Decidable (_ ∧ _))

/-- Whether the text of a token is taken for a token, alone or with what comes behind it. -/
def Merges (row : TokenRow) (c : Civil) : Prop :=
  (∃ T, row.Lends c T) ∨ row.MeetsMonday c

instance (row : TokenRow) (c : Civil) : Decidable (row.Merges c) :=
  inferInstanceAs (Decidable (_ ∨ _))

def lent (row : TokenRow) (c : Civil) (T : Token) : Text :=
  if T = .year ∧ ∃ U, row.Lends c U then T.rendering c ++ ['Y']
  else if row.Lends c T then (T.rendering c).dropLast
  else T.rendering c

/-- What is written for a token in the end. -/
def written (row : TokenRow) (c : Civil) : Token → Text :=
  if row.MeetsMonday c then Function.update (row.lent c) .month "SEA".toList else row.lent c

variable {row : TokenRow} {c : Civil} {T U : Token}

theorem Adjoins.right_unique {j : Item} (h : row.Adjoins T U) (hj : [.token T, j] <:+: row.items) :
    j = .token U := by
  obtain ⟨a, b, hab⟩ := h
  obtain ⟨a', b', hab'⟩ := hj
  rw [List.append_assoc] at hab hab'
  exact (List.cons.inj (split_inj hab'.symm hab.symm).2).1

theorem Adjoins.left_unique {V : Token} (h : row.Adjoins T V) (h' : row.Adjoins U V) : T = U := by
  obtain ⟨a, b, hab⟩ := h
  obtain ⟨a', b', hab'⟩ := h'
  have hsplit {a b : List Item} {W : Token} :
      a ++ [.token W, .token V] ++ b = (a ++ [.token W]) ++ .token V :: b := by simp
  rw [hsplit] at hab hab'
  have hends := List.append_inj_right' (split_inj hab.symm hab'.symm).1 rfl
  exact Item.token.inj (List.cons.inj hends).1

theorem Adjoins.ne (h : row.Adjoins T U) : T ≠ U := by
  rintro rfl
  have hcount := List.IsInfix.sublist h |>.count_le (.token T)
  have hle := row.count_token T
  simp at hcount
  omega

theorem lent_of_not_lends (hT : T = .year → ∀ U, ¬row.Lends c U) (h : ¬row.Lends c T) :
    row.lent c T = T.rendering c := by
  rw [lent, if_neg, if_neg h]
  rintro ⟨rfl, U, hU⟩
  exact hT rfl U hU

end TokenRow

section

variable {row : TokenRow} {c : Civil} {T : Token} {x : Char}

theorem exists_name (hx : x.isAlpha = true) (hmem : x ∈ T.rendering c) :
    T = .month ∨ T = .weekday := by
  by_contra hT
  rw [not_or] at hT
  exact (ne_nil_and_isLetterless hT.1 hT.2).2.not_mem hx hmem

theorem HasNames.getLast?_eq_y (h : HasNames c) :
    (T.rendering c).getLast? = some 'Y' ↔ T = .weekday ∨ T = .month ∧ c.month = 5 := by
  have hmonth : ∀ n ≤ 12, (((monthNames[n - 1]?.getD "").toList.take 3).getLast? = some 'Y' ↔
      n = 5) := by decide
  have hweekday : ∀ n < 7, (weekdayNames[n]?.getD "").toList.getLast? = some 'Y' := by decide
  constructor
  · intro hlast
    obtain rfl | rfl := exists_name rfl (List.mem_of_getLast? hlast)
    · exact .inr ⟨rfl, (hmonth c.month h.1).mp hlast⟩
    · exact .inl rfl
  · rintro (rfl | ⟨rfl, hmay⟩)
    · exact hweekday c.weekday h.2
    · exact (hmonth c.month h.1).mpr hmay

theorem HasNames.of_getLast?_eq_p (h : HasNames c) (hlast : (T.rendering c).getLast? = some 'P') :
    T = .month ∧ c.month = 9 := by
  have hmonth : ∀ n ≤ 12, ((monthNames[n - 1]?.getD "").toList.take 3).getLast? = some 'P' →
      n = 9 := by decide
  have hweekday : ∀ n < 7, (weekdayNames[n]?.getD "").toList.getLast? ≠ some 'P' := by decide
  obtain rfl | rfl := exists_name rfl (List.mem_of_getLast? hlast)
  · exact ⟨rfl, hmonth c.month h.1 hlast⟩
  · exact absurd hlast (hweekday c.weekday h.2)

theorem HasNames.of_head?_eq_m (h : HasNames c) (hhead : (T.rendering c).head? = some 'M') :
    T = .month ∨ T = .weekday ∧ c.weekday = 1 := by
  have hweekday : ∀ n < 7, (weekdayNames[n]?.getD "").toList.head? = some 'M' → n = 1 := by
    decide
  obtain rfl | rfl := exists_name rfl (List.mem_of_head? hhead)
  · exact .inl rfl
  · exact .inr ⟨rfl, hweekday c.weekday h.2 hhead⟩

/-- What holds of the fields, of the names without a last letter and of the year with one behind it
holds of all that is written but on Monday mornings. -/
theorem HasNames.lent (h : HasNames c) {p : Token → Text → Prop}
    (hrendering : ∀ T, p T (T.rendering c)) (hmonth : row.Lends c .month → p .month "MA".toList)
    (hweekday : row.Lends c .weekday → ∀ d ∈ weekdayNames, p .weekday d.toList.dropLast)
    (hyear : p .year (ofInt c.year ++ ['Y'])) (T : Token) : p T (row.lent c T) := by
  unfold TokenRow.lent
  split_ifs with hT hlends
  · rw [hT.1]
    exact hyear
  · obtain ⟨-, rfl | ⟨rfl, hmay⟩⟩ := id hlends
    · obtain ⟨d, hd, hname⟩ := h.exists_weekdayName
      rw [Token.rendering, hname]
      exact hweekday hlends d hd
    · rw [Token.rendering, Civil.monthName, hmay]
      exact hmonth hlends
  · exact hrendering T

theorem HasNames.lent_ne_nil (h : HasNames c) (T : Token) : row.lent c T ≠ [] :=
  h.lent (p := fun _ t => t ≠ []) h.rendering_ne_nil (fun _ => by decide) (fun _ => by decide)
    (by simp) T

def StartsQuiet (t : Text) : Prop :=
  t.head? ≠ some 'Y' ∧ NoPair 'Y' 'Y' t

instance (t : Text) : Decidable (StartsQuiet t) :=
  inferInstanceAs (Decidable (_ ∧ _))

theorem startsQuiet_of_letterless {t : Text} (ht : IsLetterless t) : StartsQuiet t :=
  ⟨fun hhead => ht.not_mem rfl (List.mem_of_head? hhead), noPair_of_not_mem (ht.not_mem rfl)⟩

theorem HasNames.startsQuiet (h : HasNames c) (T : Token) : StartsQuiet (T.rendering c) :=
  h.rendering (p := fun _ t => StartsQuiet t) (by decide) (by decide)
    (fun _ _ _ ht => startsQuiet_of_letterless ht) T

theorem HasNames.startsQuiet_lent (h : HasNames c) (T : Token) : StartsQuiet (row.lent c T) := by
  refine h.lent (p := fun _ t => StartsQuiet t) h.startsQuiet (fun _ => by decide)
    (fun _ => by decide) ?_ T
  obtain ⟨hhead, hpair⟩ := startsQuiet_of_letterless (isLetterless_ofInt c.year)
  have hlast : (ofInt c.year).getLast? ≠ some 'Y' := fun hlast =>
    (isLetterless_ofInt c.year).not_mem rfl (List.mem_of_getLast? hlast)
  refine ⟨?_, noPair_append.mpr ⟨hpair, .singleton 'Y', fun hmeet => hlast hmeet.1⟩⟩
  rwa [List.head?_append_of_ne_nil _ (ofInt_ne_nil c.year)]

theorem TokenRow.noPair_yy {σ : Token → Text} {s : List Item} (hs : s <:+: row.items)
    (hne : ∀ T, σ T ≠ []) (hσ : ∀ T, .token T ∈ s → StartsQuiet (σ T)) :
    NoPair 'Y' 'Y' (fill σ s) := by
  refine noPair_fill hne (fun T hT => (hσ T hT).2) fun i j hij _ hhead => ?_
  have hj : j ∈ s := hij.mem (by simp)
  obtain ⟨T, rfl⟩ := exists_token rfl (hs.mem hj) (List.mem_of_head? hhead)
  exact (hσ T hj).1 hhead

theorem HasNames.exists_lends (h : HasNames c) {a b : List Item}
    (hsplit : row.items = a ++ .token .year :: b)
    (hlast : (fill (Token.rendering c) a).getLast? = some 'Y') : ∃ T, row.Lends c T := by
  obtain ⟨a, i, rfl, hi⟩ := exists_of_getLast?_fill h.rendering_ne_nil hlast
  have hmem : i ∈ row.items := by simp [hsplit]
  obtain ⟨T, rfl⟩ := TokenRow.exists_token rfl hmem (List.mem_of_getLast? hi)
  exact ⟨T, ⟨a, b, by simp [hsplit]⟩, h.getLast?_eq_y.mp hi⟩

theorem TokenRow.Lends.exists_fill (hT : row.Lends c T) : ∃ a b,
    row.items = a ++ .token T :: .token .year :: b ∧
      fill (row.lent c) row.items = fill (Token.rendering c) a ++ ((T.rendering c).dropLast ++
        (ofInt c.year ++ 'Y' :: fill (Token.rendering c) b)) := by
  obtain ⟨a, b, hab⟩ := id hT.1
  have hsplit : row.items = a ++ .token T :: .token .year :: b := by simp [← hab]
  have hyear : row.items = (a ++ [.token T]) ++ .token .year :: b := by simp [← hab]
  have hothers {s : List Item} (hs : .token T ∉ s) (hs' : .token .year ∉ s) :
      fill (row.lent c) s = fill (Token.rendering c) s := by
    refine fill_congr fun U hU => lent_of_not_lends ?_ fun hlends => ?_
    · rintro rfl
      exact absurd hU hs'
    · exact hs (hlends.1.left_unique hT.1 ▸ hU)
  have hbefore := not_mem_of_split hsplit
  have hbehind := not_mem_of_split hyear
  simp only [List.mem_cons, List.mem_append, not_or] at hbefore hbehind
  have hne : T ≠ .year := hT.1.ne
  refine ⟨a, b, hsplit, ?_⟩
  have hname : row.lent c T = (T.rendering c).dropLast := by simp [lent, hne, hT]
  have hnumber : row.lent c .year = ofInt c.year ++ ['Y'] :=
    if_pos ⟨rfl, T, hT⟩
  rw [hsplit, fill_append, fill_cons, fill_cons, Item.text, Item.text, hname, hnumber,
    hothers hbefore.1 hbehind.1.1, hothers hbefore.2.2 hbehind.2, List.append_assoc (ofInt c.year)]
  rfl

theorem TokenRow.replaceFirst_year (row : TokenRow) (h : HasNames c) :
    replaceFirst "YYYY".toList (ofInt c.year)
        (fill (Function.update (Token.rendering c) .year Token.year.text) row.items) =
      fill (row.lent c) row.items := by
  have hquiet {s : List Item} (hs : s <:+: row.items) :
      NoPair 'Y' 'Y' (fill (Token.rendering c) s) :=
    row.noPair_yy hs h.rendering_ne_nil fun T _ => h.startsQuiet T
  by_cases hlends : ∃ T, row.Lends c T
  · obtain ⟨T, hT⟩ := hlends
    obtain ⟨a, b, hsplit, hlent⟩ := hT.exists_fill
    obtain ⟨n, hn⟩ := List.getLast?_eq_some_iff.mp (h.getLast?_eq_y.mpr hT.2)
    have hyear : row.items = (a ++ [.token T]) ++ .token .year :: b := by simp [hsplit]
    have hpair := hquiet (s := a ++ [.token T]) ⟨[], .token .year :: b, by simp [hsplit]⟩
    obtain ⟨ha, hb⟩ := not_mem_of_split hyear
    rw [hlent, hyear, fill_append, fill_cons, fill_update ha, fill_update hb]
    simp only [fill_append, fill_cons, fill_nil, Item.text, Function.update_self, hn,
      List.append_nil, List.dropLast_concat] at hpair ⊢
    rw [← List.append_assoc] at hpair
    have hmove := replaceFirst_append_of_noPair (u := "YY".toList) (r := ofInt c.year)
      (t := 'Y' :: fill (Token.rendering c) b) hpair
    simp only [List.append_assoc] at hmove ⊢
    exact hmove
  · rw [not_exists] at hlends
    have hlent : fill (row.lent c) row.items = fill (Token.rendering c) row.items :=
      fill_congr fun T _ => lent_of_not_lends (fun _ => hlends) (hlends T)
    rw [hlent]
    by_cases hmem : .token .year ∈ row.items
    · obtain ⟨a, b, hsplit⟩ := List.append_of_mem hmem
      have hpair : NoPair 'Y' 'Y' (fill (Token.rendering c) a ++ ['Y']) :=
        noPair_append.mpr ⟨hquiet (hsplit ▸ (List.prefix_append a _).isInfix), .singleton 'Y',
          fun hmeet => (h.exists_lends hsplit hmeet.1).elim hlends⟩
      rw [← fill_update (not_mem_of_split hsplit).1] at hpair
      have htoken : Function.update (Token.rendering c) .year Token.year.text .year =
          'Y' :: 'Y' :: "YY".toList := Function.update_self ..
      have hyear := replaceFirst_fill_of_split (r := Token.year.rendering c) hsplit htoken hpair
      rw [Function.update_self, Function.update_idem, Function.update_eq_self] at hyear
      exact hyear
    · rw [fill_update hmem,
        replaceFirst_of_not_isInfix ((hquiet List.infix_rfl).not_isInfix (by decide))]

theorem HasNames.head?_of_lent (h : HasNames c) (hhead : (row.lent c T).head? = some x) :
    (T.rendering c).head? = some x := by
  unfold TokenRow.lent at hhead
  split_ifs at hhead
  · rwa [List.head?_append_of_ne_nil _ (h.rendering_ne_nil T)] at hhead
  · obtain ⟨t, ht⟩ := List.dropLast_prefix (T.rendering c)
    rw [← ht, List.head?_append, hhead]
    rfl
  · exact hhead

theorem quiet_lentYear {y : Char} (hx : x.isAlpha = true) (hy : x ≠ 'Y') :
    Quiet x y (ofInt c.year ++ ['Y']) :=
  quiet_of_not_mem (by simp [(isLetterless_ofInt c.year).not_mem hx, hy])

/-- What ends in `A` is a name without its last letter, and the year comes behind it. -/
theorem TokenRow.noPair_am (row : TokenRow) (h : HasNames c) :
    NoPair 'A' 'M' (fill (row.lent c) row.items) := by
  have htext (T : Token) : NoPair 'A' 'M' (row.lent c T) ∧
      ((row.lent c T).getLast? = some 'A' → row.Lends c T) := by
    have hyear : Quiet 'A' 'M' (ofInt c.year ++ ['Y']) := quiet_lentYear rfl (by decide)
    refine h.lent (p := fun T t => NoPair 'A' 'M' t ∧ (t.getLast? = some 'A' → row.Lends c T))
      (fun T => ?_) (fun hlends => ⟨by decide, fun _ => hlends⟩)
      (fun hlends d hd => ⟨?_, fun _ => hlends⟩) ⟨hyear.1, fun hlast => absurd hlast hyear.2⟩ T
    · have hquiet := h.rendering (p := fun _ t => Quiet 'A' 'M' t) (by decide) (by decide)
        (fun _ _ _ ht => quiet_of_not_mem (ht.not_mem rfl)) T
      exact ⟨hquiet.1, fun hlast => absurd hlast hquiet.2⟩
    · exact (show ∀ d ∈ weekdayNames, NoPair 'A' 'M' d.toList.dropLast by decide) d hd
  refine noPair_fill h.lent_ne_nil (fun T _ => (htext T).1) fun i j hij hlast hhead => ?_
  obtain ⟨T, rfl⟩ := exists_token rfl (hij.mem (by simp)) (List.mem_of_getLast? hlast)
  obtain rfl := ((htext T).2 hlast).1.right_unique hij
  exact (isLetterless_ofInt c.year).not_mem rfl (List.mem_of_head? (h.head?_of_lent hhead))

theorem HasNames.noPair_pm (h : HasNames c) (T : Token) : NoPair 'P' 'M' (row.lent c T) ∧
    ((row.lent c T).getLast? = some 'P' → T = .month ∧ c.month = 9) := by
  have hyear : Quiet 'P' 'M' (ofInt c.year ++ ['Y']) := quiet_lentYear rfl (by decide)
  refine h.lent
    (p := fun T t => NoPair 'P' 'M' t ∧ (t.getLast? = some 'P' → T = .month ∧ c.month = 9))
    (fun T => ⟨?_, h.of_getLast?_eq_p⟩) (fun _ => ⟨by decide, fun hlast => ?_⟩)
    (fun _ d hd => ?_) ⟨hyear.1, fun hlast => absurd hlast hyear.2⟩ T
  · exact h.rendering (p := fun _ t => NoPair 'P' 'M' t) (by decide) (by decide)
      (fun _ _ _ ht => noPair_of_not_mem (ht.not_mem rfl)) T
  · cases hlast
  · have hquiet := (show ∀ d ∈ weekdayNames, Quiet 'P' 'M' d.toList.dropLast by decide) d hd
    exact ⟨hquiet.1, fun hlast => absurd hlast hquiet.2⟩

theorem TokenRow.noPair_pm (row : TokenRow) (h : HasNames c) (hmonday : ¬row.MeetsMonday c)
    (hhour : c.hour < 12) : NoPair 'P' 'M' (fill (row.lent c) row.items) := by
  refine noPair_fill h.lent_ne_nil (fun T _ => (h.noPair_pm T).1) fun i j hij hlast hhead => ?_
  obtain ⟨T, rfl⟩ := exists_token rfl (hij.mem (by simp)) (List.mem_of_getLast? hlast)
  obtain ⟨U, rfl⟩ := exists_token rfl (hij.mem (by simp)) (List.mem_of_head? hhead)
  obtain ⟨rfl, hmonth⟩ := (h.noPair_pm T).2 hlast
  obtain rfl | ⟨rfl, hweekday⟩ := h.of_head?_eq_m (h.head?_of_lent hhead)
  · exact Adjoins.ne hij rfl
  · exact hmonday ⟨hij, hmonth, hweekday, hhour⟩

theorem TokenRow.MeetsMonday.exists_names (h : row.MeetsMonday c) :
    row.lent c .month = "SEP".toList ∧ ∃ u, row.lent c .weekday = 'M' :: u := by
  obtain ⟨-, hmonth, hweekday, -⟩ := h
  constructor
  · have hlends : ¬row.Lends c .month := by simp [Lends, hmonth]
    rw [lent_of_not_lends (by simp) hlends, Token.rendering, Civil.monthName, hmonth]
    rfl
  · unfold lent
    rw [if_neg (by simp), Token.rendering, Civil.weekdayName, hweekday]
    split_ifs
    · exact ⟨"ONDA".toList, rfl⟩
    · exact ⟨"ONDAY".toList, rfl⟩

theorem TokenRow.replaceFirst_meridiem (row : TokenRow) (h : HasNames c) :
    replaceFirst "PM".toList (meridiem c) (fill (row.lent c) row.items) =
      fill (row.written c) row.items := by
  unfold written
  split_ifs with hmonday
  · obtain ⟨⟨a, b, hab⟩, -, -, hhour⟩ := id hmonday
    have hsplit : row.items = a ++ .token .month :: .token .weekday :: b := by simp [← hab]
    obtain ⟨ha, hb⟩ := not_mem_of_split hsplit
    obtain ⟨hseptember, u, hu⟩ := hmonday.exists_names
    have hquiet : Quiet 'P' 'M' (fill (row.lent c) a) :=
      quiet_fill rfl h.lent_ne_nil
        (fun T hT => ⟨(h.noPair_pm T).1, fun hlast => ha (((h.noPair_pm T).2 hlast).1 ▸ hT)⟩)
        (hsplit ▸ (List.prefix_append a _).isInfix)
    have hpair : NoPair 'P' 'M' (fill (row.lent c) a ++ "SE".toList ++ ['P']) := by
      rw [List.append_assoc]
      exact noPair_append.mpr ⟨hquiet.1, by decide, fun hmeet => hquiet.2 hmeet.1⟩
    have hmeet := replaceFirst_append_of_noPair (u := []) (r := meridiem c)
      (t := u ++ fill (row.lent c) b) hpair
    have hmorning : meridiem c = "AM".toList := by
      rw [meridiem, if_pos hhour]
    rw [hsplit, fill_append, fill_append, fill_update ha, fill_cons (.token .month),
      fill_cons (.token .month), fill_update hb]
    simp only [fill_cons, Item.text, Function.update_self, hseptember, hu, hmorning,
      List.append_assoc] at hmeet ⊢
    exact hmeet
  · by_cases hhour : c.hour < 12
    · exact replaceFirst_of_not_isInfix ((row.noPair_pm h hmonday hhour).not_isInfix (by decide))
    · rw [meridiem, if_neg hhour, replaceFirst_self]

/-- A pattern is written with each token replaced by the field that it names, but for the letters
that are lent to the year, and those that make up a `PM`. -/
theorem TokenRow.byPattern_text (row : TokenRow) (h : HasNames c) :
    byPattern row.text c = fill (row.written c) row.items := by
  have hpair : NoPair 'Y' 'Y' (fill (row.lent c) row.items) :=
    row.noPair_yy List.infix_rfl h.lent_ne_nil fun T _ => h.startsQuiet_lent T
  have hcentury : ¬"YY".toList <:+: fill (row.lent c) row.items := hpair.not_isInfix (by decide)
  have hmorning : ¬"AM".toList <:+: fill (row.lent c) row.items :=
    (row.noPair_am h).not_isInfix (by decide)
  rw [row.byPattern_eq h, row.replaceFirst_year h, replaceFirst_of_not_isInfix hcentury,
    replaceFirst_of_not_isInfix hmorning, row.replaceFirst_meridiem h]

theorem TokenRow.count_lent_le (m : Char) (hm : m ≠ 'Y') (T : Token) :
    (row.lent c T).count m ≤ (T.rendering c).count m := by
  unfold lent
  split_ifs
  · simp [List.count_append, hm.symm]
  · exact (List.dropLast_sublist _).count_le m
  · exact le_rfl

theorem TokenRow.MeetsMonday.count_lt (hmonday : row.MeetsMonday c) :
    (fill (row.written c) row.items).count 'P' < (row.rendering c).count 'P' := by
  have hwritten : row.written c = Function.update (row.lent c) .month "SEA".toList := if_pos hmonday
  have hle (T : Token) : (row.written c T).count 'P' ≤ (T.rendering c).count 'P' := by
    rw [hwritten]
    by_cases hT : T = .month
    · rw [hT, Function.update_self]
      exact Nat.zero_le _
    · rw [Function.update_of_ne hT]
      exact count_lent_le 'P' (by decide) T
  rw [rendering, fill, fill, List.count_flatMap, List.count_flatMap]
  refine List.sum_lt_sum _ _ (fun i _ => ?_) ⟨.token .month, hmonday.1.mem (by simp), ?_⟩
  · cases i with
    | token T => exact hle T
    | mark m => exact le_rfl
  · have hseptember : Token.month.rendering c = "SEP".toList := by
      rw [Token.rendering, Civil.monthName, hmonday.2.1]
      rfl
    simp only [Function.comp_apply, Item.text, hwritten, Function.update_self, hseptember]
    decide

theorem TokenRow.Lends.fill_ne (hT : row.Lends c T) (h : HasNames c) :
    fill (row.lent c) row.items ≠ row.rendering c := by
  obtain ⟨a, b, hsplit, hlent⟩ := hT.exists_fill
  obtain ⟨n, hn⟩ := List.getLast?_eq_some_iff.mp (h.getLast?_eq_y.mpr hT.2)
  rw [hlent, rendering, hsplit]
  simp only [fill_append, fill_cons, Item.text, hn, List.dropLast_concat, List.append_assoc]
  intro heq
  have hhead := congrArg List.head? (List.append_cancel_left (List.append_cancel_left heq))
  rw [List.head?_append_of_ne_nil _ (ofInt_ne_nil c.year)] at hhead
  exact (isLetterless_ofInt c.year).not_mem rfl (List.mem_of_head? hhead)

/-- The replacements one after the other are those of each token alone exactly if no text is taken
for a token. -/
theorem TokenRow.written_eq_iff (row : TokenRow) (h : HasNames c) :
    fill (row.written c) row.items = row.rendering c ↔ ¬row.Merges c := by
  constructor
  · rintro heq (⟨T, hT⟩ | hmonday)
    · by_cases hmonday : row.MeetsMonday c
      · exact absurd hmonday.count_lt (heq ▸ lt_irrefl _)
      · rw [written, if_neg hmonday] at heq
        exact hT.fill_ne h heq
    · exact absurd hmonday.count_lt (heq ▸ lt_irrefl _)
  · intro hmerges
    rw [Merges, not_or, not_exists] at hmerges
    rw [written, if_neg hmerges.2]
    exact fill_congr fun T _ => lent_of_not_lends (fun _ => hmerges.1) (hmerges.1 T)

end

end Rendering

open Rendering

/-- A date is written by a pattern with each token replaced by the field that it names, exactly if
no name ends in the letter of the year before the year, and no `SEP` and `MONDAY` have a `PM`
between them in the morning. -/
theorem toText_tokens (row : TokenRow) (c : Context) (input : DateInput) :
    (Dates.toText c (some row.text) input).result =
        (Dates.toDate c input).result.map (fun v => fill (row.written (v.fields c)) row.items) ∧
      ∀ v : Temporal, fill (row.written (v.fields c)) row.items = row.rendering (v.fields c) ↔
        ¬row.Merges (v.fields c) := by
  have hnames (v : Temporal) : HasNames (v.fields c) := by
    cases v with
    | instant millis dateOnly => exact hasNames_ofMillis _
    | interval d => exact hasNames_ofMillis _
  refine ⟨?_, fun v => row.written_eq_iff (hnames v)⟩
  rw [Dates.toText, Dates.ofDate, Dates.toDate, Report.result_reported, Report.result_reported,
    Report.result_bind]
  cases (readDate c input).result with
  | error e => rfl
  | stopped => rfl
  | ok v => exact congrArg Ending.ok (row.byPattern_text (hnames v))

theorem toText_tokens_may : ¬ ∀ (row : TokenRow) (c : Context) (input : DateInput),
    (Dates.toText c (some row.text) input).result =
      (Dates.toDate c input).result.map (fun v => row.rendering (v.fields c)) := by
  intro h
  have hdate : (Dates.toDate ⟨.fixed .utc, .fixed 0⟩ (.text "2020-05-17 00:00:00".toList)).result =
      .ok (.instant 1589673600000 false) := by
    decide +kernel
  have htext : (Dates.toText ⟨.fixed .utc, .fixed 0⟩ (some "DDMONYYYY".toList)
      (.text "2020-05-17 00:00:00".toList)).result = .ok "17MA2020Y".toList := by
    decide +kernel
  have hall := h ⟨[.token .day, .token .month, .token .year], by simp, by decide⟩
    ⟨.fixed .utc, .fixed 0⟩ (.text "2020-05-17 00:00:00".toList)
  rw [hdate] at hall
  exact absurd (htext.symm.trans hall) (by decide)

end Coercion
