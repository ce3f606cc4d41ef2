import Coercion.Dates.Rendering
import Coercion.Proofs.Calendar.Readings
import Coercion.Proofs.Text.Replacing
import Mathlib.Data.Fintype.Basic

namespace Coercion.Rendering

open Calendar Text

/-- The tokens of the fields that a date is read off. -/
inductive Token
  | day | month | year | hour | minute | second | weekday
  deriving DecidableEq

namespace Token

instance : Fintype Token where
  elems := {day, month, year, hour, minute, second, weekday}
  complete T := by cases T <;> decide

def name : Token → String
  | day => "DD"
  | month => "MON"
  | year => "YYYY"
  | hour => "HH24"
  | minute => "MI"
  | second => "SS"
  | weekday => "DAY"

def text (T : Token) : Text :=
  T.name.toList

/-- The field that a token names, as a text. -/
def rendering (c : Civil) : Token → Text
  | day => ofNatPadded 2 c.day
  | month => c.monthName.take 3
  | year => ofInt c.year
  | hour => ofNatPadded 2 c.hour
  | minute => ofNatPadded 2 c.minute
  | second => ofNatPadded 2 c.second
  | weekday => c.weekdayName

end Token

/-- A token of a pattern, or a character between its tokens. -/
inductive Item
  | token (T : Token)
  | mark (m : Char)
  deriving DecidableEq

/-- The text of an item, given the texts of the tokens. -/
def Item.text (σ : Token → Text) : Item → Text
  | token T => σ T
  | mark m => [m]

/-- The text of a row of items, given the texts of the tokens. -/
def fill (σ : Token → Text) (items : List Item) : Text :=
  items.flatMap (Item.text σ)

/-- A row of tokens, none of them twice, and of marks that are not letters. -/
structure TokenRow where
  items : List Item
  isAlpha_mark : ∀ m, .mark m ∈ items → m.isAlpha = false
  count_token : ∀ T, items.count (.token T) ≤ 1

namespace TokenRow

/-- A row as the text of a pattern. -/
def text (row : TokenRow) : Text :=
  fill Token.text row.items

/-- A row with each of its tokens replaced by the field that it names. -/
def rendering (row : TokenRow) (c : Civil) : Text :=
  fill (Token.rendering c) row.items

def Adjoins (row : TokenRow) (T U : Token) : Prop :=
  [.token T, .token U] <:+: row.items

instance (row : TokenRow) (T U : Token) : Decidable (row.Adjoins T U) :=
  inferInstanceAs (Decidable (_ <:+: _))

end TokenRow

section

variable {σ τ : Token → Text} {items a b : List Item}

@[simp] theorem fill_nil : fill σ [] = [] := rfl

@[simp] theorem fill_cons (i : Item) : fill σ (i :: b) = i.text σ ++ fill σ b := rfl

@[simp] theorem fill_append : fill σ (a ++ b) = fill σ a ++ fill σ b :=
  List.flatMap_append

theorem fill_congr (h : ∀ T, .token T ∈ items → σ T = τ T) : fill σ items = fill τ items := by
  refine List.flatMap_congr fun i hi => ?_
  cases i with
  | token T => exact h T hi
  | mark m => rfl

theorem fill_update {T : Token} {r : Text} (h : .token T ∉ items) :
    fill (Function.update σ T r) items = fill σ items := by
  refine fill_congr fun U hU => Function.update_of_ne ?_ _ _
  rintro rfl
  exact h hU

end

section

variable {σ : Token → Text} {items a : List Item} {x y : Char}

theorem Item.text_ne_nil (hne : ∀ T, σ T ≠ []) (i : Item) : i.text σ ≠ [] := by
  cases i with
  | token T => exact hne T
  | mark m => exact List.cons_ne_nil _ _

theorem noPair_fill (hne : ∀ T, σ T ≠ []) (hin : ∀ T, .token T ∈ items → NoPair x y (σ T))
    (hmeet : ∀ i j, [i, j] <:+: items → (i.text σ).getLast? = some x →
      (j.text σ).head? ≠ some y) : NoPair x y (fill σ items) := by
  have hnil : [] ∉ items.map (Item.text σ) := by
    simp [Item.text_ne_nil hne]
  rw [fill, List.flatMap_def]
  refine (List.isChain_flatten hnil).mpr ⟨?_, (List.isChain_map _).mpr ?_⟩
  · rintro _ ht
    obtain ⟨i, hi, rfl⟩ := List.mem_map.mp ht
    cases i with
    | token T => exact hin T hi
    | mark m => exact .singleton m
  · exact (List.isChain_isInfix items).imp fun i j hij c hc d hd hpair =>
      hmeet i j hij (hpair.1 ▸ hc) (hpair.2 ▸ hd)

theorem exists_of_getLast?_fill (hne : ∀ T, σ T ≠ []) (h : (fill σ items).getLast? = some x) :
    ∃ a i, items = a ++ [i] ∧ (i.text σ).getLast? = some x := by
  obtain rfl | ⟨a, i, rfl⟩ := List.eq_nil_or_concat' items
  · cases h
  · refine ⟨a, i, rfl, ?_⟩
    rw [fill_append, fill_cons, fill_nil, List.append_nil,
      List.getLast?_append_of_ne_nil _ (Item.text_ne_nil hne i)] at h
    exact h

end

def Quiet (x y : Char) (t : Text) : Prop :=
  NoPair x y t ∧ t.getLast? ≠ some x

instance (x y : Char) (t : Text) : Decidable (Quiet x y t) :=
  inferInstanceAs (Decidable (_ ∧ _))

theorem quiet_of_not_mem {x y : Char} {t : Text} (h : x ∉ t) : Quiet x y t :=
  ⟨noPair_of_not_mem h, fun hlast => h (List.mem_of_getLast? hlast)⟩

namespace TokenRow

variable {row : TokenRow} {T U : Token} {a b a' b' : List Item}

theorem not_mem_of_split (h : row.items = a ++ .token T :: b) : .token T ∉ a ∧ .token T ∉ b := by
  have hcount := row.count_token T
  rw [h, List.count_append, List.count_cons_self] at hcount
  exact ⟨List.count_eq_zero.mp (by omega), List.count_eq_zero.mp (by omega)⟩

theorem split_inj (h : row.items = a ++ .token T :: b) (h' : row.items = a' ++ .token T :: b') :
    a = a' ∧ b = b' := by
  rw [h] at h'
  obtain ⟨ha, -, hb⟩ :=
    (List.append_cons_inj_of_notMem (not_mem_of_split h).1 (not_mem_of_split h).2).mp h'
  exact ⟨ha, hb⟩

theorem exists_token {σ : Token → Text} {x : Char} {i : Item} (hx : x.isAlpha = true)
    (hi : i ∈ row.items) (hmem : x ∈ i.text σ) : ∃ T, i = .token T := by
  cases i with
  | token T => exact ⟨T, rfl⟩
  | mark m =>
    obtain rfl := List.mem_singleton.mp hmem
    rw [row.isAlpha_mark x hi] at hx
    cases hx

section

variable {σ : Token → Text} {x y : Char} {token u r : Text}

theorem quiet_fill (hx : x.isAlpha = true) (hne : ∀ T, σ T ≠ [])
    (h : ∀ T, .token T ∈ a → Quiet x y (σ T)) (ha : a <:+: row.items) : Quiet x y (fill σ a) := by
  have hlast (i : Item) (hi : i ∈ a) : (i.text σ).getLast? ≠ some x := by
    intro hend
    obtain ⟨T, rfl⟩ := exists_token hx (ha.mem hi) (List.mem_of_getLast? hend)
    exact (h T hi).2 hend
  refine ⟨noPair_fill hne (fun T hT => (h T hT).1) fun i j hij hi => ?_, ?_⟩
  · exact absurd hi (hlast i (hij.mem (by simp)))
  · intro hfill
    obtain ⟨b, i, rfl, hi⟩ := exists_of_getLast?_fill hne hfill
    exact hlast i (by simp) hi

theorem replaceFirst_fill_of_absent (hx : x.isAlpha = true) (hne : ∀ T, σ T ≠ [])
    (h : ∀ T, .token T ∈ row.items → Quiet x y (σ T)) (htoken : [x, y] <:+: token) :
    replaceFirst token r (fill σ row.items) = fill σ row.items :=
  replaceFirst_of_not_isInfix ((quiet_fill hx hne h List.infix_rfl).1.not_isInfix htoken)

/-- A token is replaced where it stands, if its first two letters do not come together before. -/
theorem replaceFirst_fill_of_split (hsplit : row.items = a ++ .token T :: b)
    (hT : σ T = x :: y :: u) (h : NoPair x y (fill σ a ++ [x])) :
    replaceFirst (σ T) r (fill σ row.items) = fill (Function.update σ T r) row.items := by
  obtain ⟨ha, hb⟩ := not_mem_of_split hsplit
  rw [hsplit]
  simp only [fill_append, fill_cons, Item.text, Function.update_self, fill_update ha,
    fill_update hb, hT]
  exact replaceFirst_append_of_noPair h

theorem replaceFirst_fill (hx : x.isAlpha = true) (hne : ∀ T, σ T ≠ [])
    (h : ∀ U, U ≠ T → Quiet x y (σ U)) (hT : σ T = x :: y :: u) :
    replaceFirst (σ T) r (fill σ row.items) = fill (Function.update σ T r) row.items := by
  by_cases hmem : .token T ∈ row.items
  · obtain ⟨a, b, hsplit⟩ := List.append_of_mem hmem
    obtain ⟨ha, -⟩ := not_mem_of_split hsplit
    obtain ⟨hpair, hlast⟩ := quiet_fill hx hne (fun U hU => h U fun heq => ha (heq ▸ hU))
      (hsplit ▸ (List.prefix_append a _).isInfix)
    exact replaceFirst_fill_of_split hsplit hT
      (noPair_append.mpr ⟨hpair, .singleton x, fun hmeet => hlast hmeet.1⟩)
  · rw [fill_update hmem]
    refine replaceFirst_fill_of_absent hx hne (fun U hU => h U fun heq => hmem (heq ▸ hU)) ?_
    rw [hT]
    exact ⟨[], u, rfl⟩

end

end TokenRow

def HasNames (c : Civil) : Prop :=
  c.month ≤ 12 ∧ c.weekday < 7

theorem hasNames_ofMillis (millis : Int) : HasNames (.ofMillis millis) :=
  ⟨(Civil.ofMillis_bounds millis).2.1, Civil.weekday_ofMillis_lt millis⟩

def IsLetterless (t : Text) : Prop :=
  ∀ m ∈ t, m.isAlpha = false

theorem IsLetterless.not_mem {t : Text} {x : Char} (h : IsLetterless t) (hx : x.isAlpha = true) :
    x ∉ t := by
  intro hmem
  rw [h x hmem] at hx
  cases hx

theorem isLetterless_of_isNumber {t : Text} (h : IsNumber t) : IsLetterless t :=
  fun m hm => not_isAlpha_of_isDigit (h m hm)

theorem isLetterless_ofInt (n : Int) : IsLetterless (ofInt n) := by
  intro m hm
  obtain hm | hm := List.mem_append.mp hm
  · unfold sign at hm
    split_ifs at hm
    · obtain rfl := List.mem_singleton.mp hm
      rfl
    · cases hm
  · exact isLetterless_of_isNumber (isNumber_ofNat _) m hm

theorem ofInt_ne_nil (n : Int) : ofInt n ≠ [] :=
  List.append_ne_nil_of_right_ne_nil _ Nat.toDigits_ne_nil

section

variable {c : Civil} {T : Token}

theorem HasNames.exists_monthName (h : HasNames c) : ∃ m ∈ monthNames, c.monthName = m.toList := by
  have hlt : c.month - 1 < monthNames.length := by
    have := h.1
    simp only [monthNames, List.length_cons, List.length_nil]
    omega
  exact ⟨monthNames[c.month - 1], List.getElem_mem hlt, by rw [Civil.monthName,
    List.getElem?_eq_getElem hlt, Option.getD_some]⟩

theorem HasNames.exists_weekdayName (h : HasNames c) :
    ∃ d ∈ weekdayNames, c.weekdayName = d.toList := by
  have hlt : c.weekday < weekdayNames.length := h.2
  exact ⟨weekdayNames[c.weekday], List.getElem_mem hlt, by rw [Civil.weekdayName,
    List.getElem?_eq_getElem hlt, Option.getD_some]⟩

theorem ne_nil_and_isLetterless (hmonth : T ≠ .month) (hweekday : T ≠ .weekday) :
    T.rendering c ≠ [] ∧ IsLetterless (T.rendering c) := by
  have hpadded (n : Nat) : ofNatPadded 2 n ≠ [] ∧ IsLetterless (ofNatPadded 2 n) :=
    ⟨(startsWithDigit_ofNatPadded (by decide) n).ne_nil,
      isLetterless_of_isNumber (isNumber_ofNatPadded 2 n)⟩
  cases T with
  | month => exact absurd rfl hmonth
  | weekday => exact absurd rfl hweekday
  | year => exact ⟨ofInt_ne_nil c.year, isLetterless_ofInt c.year⟩
  | day | hour | minute | second => exact hpadded _

theorem HasNames.rendering (h : HasNames c) {p : Token → Text → Prop}
    (hmonth : ∀ m ∈ monthNames, p .month (m.toList.take 3))
    (hweekday : ∀ d ∈ weekdayNames, p .weekday d.toList)
    (hnumber : ∀ T t, t ≠ [] → IsLetterless t → p T t) (T : Token) : p T (T.rendering c) := by
  obtain rfl | rfl | ⟨hT, hT'⟩ : T = .month ∨ T = .weekday ∨ T ≠ .month ∧ T ≠ .weekday := by
    tauto
  · obtain ⟨m, hm, hname⟩ := h.exists_monthName
    rw [Token.rendering, hname]
    exact hmonth m hm
  · obtain ⟨d, hd, hname⟩ := h.exists_weekdayName
    rw [Token.rendering, hname]
    exact hweekday d hd
  · obtain ⟨hne, hletters⟩ := ne_nil_and_isLetterless (c := c) hT hT'
    exact hnumber T _ hne hletters

theorem HasNames.rendering_ne_nil (h : HasNames c) (T : Token) : T.rendering c ≠ [] :=
  h.rendering (p := fun _ t => t ≠ []) (by decide) (by decide) (fun _ _ ht _ => ht) T

theorem Token.text_ne_nil (T : Token) : T.text ≠ [] := by
  cases T <;> exact List.cons_ne_nil _ _

end

def stage (c : Civil) (done : List Token) (T : Token) : Text :=
  if T ∈ done then T.rendering c else T.text

/-- At a stage, no text of a token has the one letter in front of the other or at its end, but for
the tokens left out. -/
structure QuietStage (x y : Char) (done left : List Token) : Prop where
  isAlpha : x.isAlpha = true
  text : ∀ T, T ∉ done → T ∉ left → Quiet x y T.text
  month : .month ∈ done → ∀ m ∈ monthNames, Quiet x y (m.toList.take 3)
  weekday : .weekday ∈ done → ∀ d ∈ weekdayNames, Quiet x y d.toList

instance (x y : Char) (done left : List Token) : Decidable (QuietStage x y done left) :=
  decidable_of_iff (x.isAlpha = true ∧ (∀ T, T ∉ done → T ∉ left → Quiet x y T.text) ∧
    (.month ∈ done → ∀ m ∈ monthNames, Quiet x y (m.toList.take 3)) ∧
    (.weekday ∈ done → ∀ d ∈ weekdayNames, Quiet x y d.toList))
    ⟨fun ⟨halpha, htext, hmonth, hweekday⟩ => ⟨halpha, htext, hmonth, hweekday⟩,
      fun ⟨halpha, htext, hmonth, hweekday⟩ => ⟨halpha, htext, hmonth, hweekday⟩⟩

section

variable {c : Civil} {T : Token} {x y : Char} {done : List Token}

theorem stage_cons : stage c (T :: done) = Function.update (stage c done) T (T.rendering c) := by
  funext U
  by_cases h : U = T
  · subst h
    simp [stage]
  · simp [stage, h]

theorem HasNames.stage_ne_nil (h : HasNames c) (T : Token) : stage c done T ≠ [] := by
  unfold stage
  split_ifs
  · exact h.rendering_ne_nil T
  · exact T.text_ne_nil

theorem HasNames.quiet_stage (h : HasNames c) {left : List Token}
    (hquiet : QuietStage x y done left) (hT : T ∉ left) : Quiet x y (stage c done T) := by
  unfold stage
  split_ifs with hdone
  · exact h.rendering (p := fun T t => T ∈ done → Quiet x y t)
      (fun m hm hmem => hquiet.month hmem m hm) (fun d hd hmem => hquiet.weekday hmem d hd)
      (fun _ _ _ ht _ => quiet_of_not_mem (ht.not_mem hquiet.isAlpha)) T hdone
  · exact hquiet.text T hdone hT

variable (row : TokenRow)

theorem TokenRow.replaceFirst_stage_of_absent (h : HasNames c) (x y : Char)
    (hquiet : QuietStage x y done []) {token r : Text} (htoken : [x, y] <:+: token) :
    replaceFirst token r (fill (stage c done) row.items) = fill (stage c done) row.items :=
  replaceFirst_fill_of_absent hquiet.isAlpha h.stage_ne_nil
    (fun _ _ => h.quiet_stage hquiet List.not_mem_nil) htoken

theorem TokenRow.replaceFirst_stage (h : HasNames c) (x y : Char) {u : Text}
    (htext : T.text = x :: y :: u) (hquiet : QuietStage x y done [T]) (hT : T ∉ done) :
    replaceFirst T.name.toList (T.rendering c) (fill (stage c done) row.items) =
      fill (stage c (T :: done)) row.items := by
  have hstage : stage c done T = T.text := if_neg hT
  rw [← Token.text, ← hstage, stage_cons]
  exact replaceFirst_fill hquiet.isAlpha h.stage_ne_nil
    (fun U hU => h.quiet_stage hquiet (by simpa using hU)) (hstage.trans htext)

theorem stage_nil : stage c [] = Token.text :=
  funext fun _ => if_neg List.not_mem_nil

theorem TokenRow.occurs_month :
    occurs "MON".toList row.text = true ↔ .token .month ∈ row.items := by
  rw [occurs_iff_isInfix]
  constructor
  · intro hinfix
    by_contra hmem
    have hquiet : Quiet 'M' 'O' row.text := by
      refine quiet_fill (by decide) Token.text_ne_nil (fun T hT => ?_) List.infix_rfl
      have hother : T ≠ .month := fun heq => hmem (heq ▸ hT)
      exact (show ∀ T, T ≠ .month → Quiet 'M' 'O' (Token.text T) by decide) T hother
    exact hquiet.1.not_isInfix (by decide) hinfix
  · intro hmem
    obtain ⟨a, b, hsplit⟩ := List.append_of_mem hmem
    refine ⟨fill Token.text a, fill Token.text b, ?_⟩
    rw [text, hsplit, List.append_assoc]
    simp only [fill_append, fill_cons]
    rfl

theorem TokenRow.foldl_monthTokens (h : HasNames c) :
    (monthTokens c row.text).foldl (fun t (token, text) => replaceFirst token.toList text t)
      row.text = fill (stage c [.month]) row.items := by
  have htext : row.text = fill (stage c []) row.items := by
    rw [stage_nil, text]
  unfold monthTokens
  split_ifs with hmonth
  · simp only [List.foldl_cons, List.foldl_nil]
    rw [htext, row.replaceFirst_stage_of_absent h 'T' 'H' (by decide) (by decide)]
    exact row.replaceFirst_stage (T := .month) h 'M' 'O' rfl (by decide) (by decide)
  · rw [row.occurs_month] at hmonth
    simp only [List.foldl_cons, List.foldl_nil]
    rw [htext, row.replaceFirst_stage_of_absent h 'M' 'M' (by decide) (by decide)]
    refine fill_congr fun T hT => ?_
    have hother : T ≠ .month := fun heq => hmonth (heq ▸ hT)
    simp [stage, hother]

theorem TokenRow.byPattern_eq (h : HasNames c) : byPattern row.text c =
    replaceFirst "PM".toList (meridiem c) (replaceFirst "AM".toList (meridiem c)
      (replaceFirst "YY".toList (yearInCentury c) (replaceFirst "YYYY".toList (ofInt c.year)
        (fill (Function.update (Token.rendering c) .year Token.year.text) row.items)))) := by
  have htokens : tokens c = [("HH12", hour12 c), (Token.hour.name, Token.hour.rendering c),
      ("HH", hour12 c), (Token.minute.name, Token.minute.rendering c),
      (Token.second.name, Token.second.rendering c), (Token.day.name, Token.day.rendering c),
      (Token.weekday.name, Token.weekday.rendering c), ("DY", c.weekdayName.take 3),
      ("YYYY", ofInt c.year), ("YY", yearInCentury c), ("AM", meridiem c), ("PM", meridiem c)] :=
    rfl
  have hstage : stage c [.weekday, .day, .second, .minute, .hour, .month] =
      Function.update (Token.rendering c) .year Token.year.text := by
    funext T
    cases T <;> rfl
  rw [byPattern, List.foldl_append, row.foldl_monthTokens h, htokens, ← hstage]
  simp only [List.foldl_cons, List.foldl_nil]
  rw [row.replaceFirst_stage_of_absent h 'H' '1' (by decide) (by decide),
    row.replaceFirst_stage h 'H' 'H' rfl (by decide) (by decide),
    row.replaceFirst_stage_of_absent h 'H' 'H' (by decide) (by decide),
    row.replaceFirst_stage h 'M' 'I' rfl (by decide) (by decide),
    row.replaceFirst_stage h 'S' 'S' rfl (by decide) (by decide),
    row.replaceFirst_stage h 'D' 'D' rfl (by decide) (by decide),
    row.replaceFirst_stage h 'D' 'A' rfl (by decide) (by decide),
    row.replaceFirst_stage_of_absent h 'D' 'Y' (by decide) (by decide)]

end

end Coercion.Rendering
