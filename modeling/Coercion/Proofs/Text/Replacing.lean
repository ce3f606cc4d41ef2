import Coercion.Proofs.Text.Numerals
import Mathlib.Data.List.Chain
import Mathlib.Data.List.Infix

namespace Coercion.Text

/-- Whether a token has a first letter and the letter does not stand in a text. -/
def startsOutside (token t : Text) : Bool :=
  token.head?.any fun p => !t.contains p

variable {token r a t : Text}

theorem startsOutside_append : startsOutside token (a ++ t) =
    (startsOutside token a && startsOutside token t) := by
  cases token <;> simp [startsOutside]

theorem startsOutside_of_isNumber (htoken : token.head?.any (!·.isDigit) = true)
    (ht : IsNumber t) : startsOutside token t = true := by
  obtain ⟨p, hp, hdigit⟩ := (Option.any_eq_true _ _).mp htoken
  have hmem : p ∉ t := by
    intro hmem
    rw [ht p hmem] at hdigit
    cases hdigit
  simp [startsOutside, hp, hmem]

theorem startsOutside_ofInt (htoken : token.head?.any (fun p => !p.isDigit && p != '-') = true)
    (n : Int) : startsOutside token (ofInt n) = true := by
  obtain ⟨p, hp, hmark⟩ := (Option.any_eq_true _ _).mp htoken
  rw [Bool.and_eq_true] at hmark
  have hnat : startsOutside token (ofNat n.natAbs) = true :=
    startsOutside_of_isNumber ((Option.any_eq_true _ _).mpr ⟨p, hp, hmark.1⟩) (isNumber_ofNat _)
  have hsign : startsOutside token (sign (n < 0)) = true := by
    have hminus : p ≠ '-' := bne_iff_ne.mp hmark.2
    unfold sign
    split_ifs <;> simp [startsOutside, hp, hminus]
  rw [ofInt, startsOutside_append, hsign, hnat, Bool.and_true]

theorem replaceFirst_append (h : startsOutside token a = true) :
    replaceFirst token r (a ++ t) = a ++ replaceFirst token r t := by
  obtain ⟨p, hp, hmem⟩ := (Option.any_eq_true _ _).mp h
  obtain ⟨ps, rfl⟩ := List.head?_eq_some_iff.mp hp
  rw [Bool.not_eq_true', List.contains_eq_mem, decide_eq_false_iff_not] at hmem
  clear h
  induction a with
  | nil => rfl
  | cons c a ih =>
    rw [List.mem_cons, not_or] at hmem
    have hhead : (p :: ps).isPrefixOf (c :: (a ++ t)) = false := by
      simp [List.isPrefixOf, hmem.1]
    rw [List.cons_append, replaceFirst, hhead, if_neg Bool.false_ne_true, List.cons_append,
      ih hmem.2]

theorem replaceFirst_of_startsOutside (h : startsOutside token t = true) :
    replaceFirst token r t = t := by
  have happend := replaceFirst_append (r := r) (t := []) h
  have hnil : replaceFirst token r [] = [] := by
    cases token with
    | nil => cases h
    | cons p ps => rfl
  rwa [hnil, List.append_nil] at happend

theorem replaceFirst_token (token r t : Text) : replaceFirst token r (token ++ t) = r ++ t := by
  have htoken : token.isPrefixOf (token ++ t) = true :=
    List.isPrefixOf_iff_prefix.mpr (List.prefix_append _ _)
  cases hwhole : token ++ t with
  | nil =>
    obtain ⟨rfl, rfl⟩ := List.append_eq_nil_iff.mp hwhole
    simp [replaceFirst]
  | cons c u => rw [replaceFirst, ← hwhole, if_pos htoken, List.drop_left]

def NoPair (x y : Char) (t : Text) : Prop :=
  t.IsChain fun c d => ¬(c = x ∧ d = y)

instance (x y : Char) (t : Text) : Decidable (NoPair x y t) :=
  inferInstanceAs (Decidable (List.IsChain _ _))

section

variable {x y : Char} {u : Text}

theorem NoPair.of_isInfix (h : NoPair x y t) (ha : a <:+: t) : NoPair x y a :=
  List.IsChain.infix h ha

theorem noPair_of_not_mem (h : x ∉ t) : NoPair x y t := by
  induction t with
  | nil => exact .nil
  | cons c t ih =>
    rw [List.mem_cons, not_or] at h
    exact List.isChain_cons.mpr ⟨fun d _ hpair => h.1 hpair.1.symm, ih h.2⟩

theorem noPair_append : NoPair x y (a ++ t) ↔
    NoPair x y a ∧ NoPair x y t ∧ ¬(a.getLast? = some x ∧ t.head? = some y) := by
  refine List.isChain_append.trans (and_congr_right' (and_congr_right' ?_))
  exact ⟨fun h hpair => h x hpair.1 y hpair.2 ⟨rfl, rfl⟩,
    fun h c hc d hd hpair => h ⟨hpair.1 ▸ hc, hpair.2 ▸ hd⟩⟩

/-- A token with a pair does not occur in a text without it. -/
theorem NoPair.not_isInfix (h : NoPair x y t) (htoken : [x, y] <:+: token) : ¬token <:+: t := by
  intro hinfix
  obtain ⟨hpair, -⟩ := List.isChain_cons_cons.mp (h.of_isInfix (htoken.trans hinfix))
  exact hpair ⟨rfl, rfl⟩

theorem replaceFirst_self (token t : Text) : replaceFirst token token t = t := by
  induction t with
  | nil =>
    rw [replaceFirst]
    split_ifs with hempty
    · exact List.isEmpty_iff.mp hempty
    · rfl
  | cons c t ih =>
    rw [replaceFirst, ih]
    split_ifs with hprefix
    · exact (List.prefix_append_drop (List.isPrefixOf_iff_prefix.mp hprefix)).symm
    · rfl

theorem occurs_iff_isInfix : occurs token t = true ↔ token <:+: t := by
  induction t with
  | nil => rw [occurs, List.isEmpty_iff, List.infix_nil]
  | cons c t ih => rw [occurs, Bool.or_eq_true, List.isPrefixOf_iff_prefix, ih, List.infix_cons_iff]

theorem replaceFirst_of_not_isInfix (h : ¬token <:+: t) : replaceFirst token r t = t := by
  induction t with
  | nil =>
    have hempty : token.isEmpty = false := by
      cases token with
      | nil => exact absurd List.infix_rfl h
      | cons p ps => rfl
    rw [replaceFirst, hempty, if_neg Bool.false_ne_true]
  | cons c t ih =>
    rw [List.infix_cons_iff, not_or] at h
    rw [replaceFirst, if_neg fun hprefix => h.1 (List.isPrefixOf_iff_prefix.mp hprefix), ih h.2]

/-- Neither does a token with a pair start in a text without it. -/
theorem replaceFirst_append_of_noPair (h : NoPair x y (a ++ [x])) :
    replaceFirst (x :: y :: u) r (a ++ (x :: y :: u ++ t)) = a ++ (r ++ t) := by
  induction a with
  | nil => exact replaceFirst_token _ _ _
  | cons c a ih =>
    obtain ⟨hhead, htail⟩ := List.isChain_cons.mp h
    have hprefix : ¬x :: y :: u <+: c :: (a ++ (x :: y :: u ++ t)) := by
      rw [List.cons_prefix_cons]
      rintro ⟨rfl, v, hv⟩
      refine hhead y ?_ ⟨rfl, rfl⟩
      cases a with
      | nil => exact congrArg some (List.cons.inj hv).1.symm
      | cons d a => exact congrArg some (List.cons.inj hv).1.symm
    rw [List.cons_append, replaceFirst,
      if_neg fun h => hprefix (List.isPrefixOf_iff_prefix.mp h), ih htail]
    rfl

end

end Coercion.Text
