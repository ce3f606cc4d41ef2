import Coercion.Proofs.Text.Numerals
import Coercion.Time.Offset

namespace Coercion.Offset

open Text

/-- Two digits of hours, and perhaps two of minutes below 60, with the minutes that they count. -/
inductive ClockDigits : Text → Nat → Prop
  | hours {h : Text} (hh : IsDigits 2 h) : ClockDigits h (60 * toNat h)
  | minutes {h m : Text} (hh : IsDigits 2 h) (hm : IsDigits 2 m) (hlt : toNat m < 60) :
      ClockDigits (h ++ m) (60 * toNat h + toNat m)

def signMark (negative : Bool) : Char :=
  if negative then '-' else '+'

def signedMinutes (negative : Bool) (minutes : Nat) : Int :=
  if negative then -minutes else minutes

/-- The texts of offsets, with the minutes that they denote: `Z`, `UTC` in any letter case, and a
sign before `hh`, `hhmm` or `hh:mm`. -/
inductive IsText : Text → Int → Prop
  | zulu : IsText ['Z'] 0
  | utc {t : Text} (h : sameLetters t "utc".toList = true) : IsText t 0
  | close (negative : Bool) {u : Text} {n : Nat} (hu : ClockDigits u n) :
      IsText (signMark negative :: u) (signedMinutes negative n)
  | colon (negative : Bool) {h m : Text} (hh : IsDigits 2 h) (hm : IsDigits 2 m)
      (hlt : toNat m < 60) : IsText (signMark negative :: (h ++ ':' :: m))
        (signedMinutes negative (60 * toNat h + toNat m))

/-- A sign before `hh` or `hhmm` with a colon in it that is not between hours and minutes. -/
inductive HasStrayColon : Text → Int → Prop
  | stray (negative : Bool) {a b : Text} {n : Nat} (h : ClockDigits (a ++ b) n)
      (hplace : ¬(a.length = 2 ∧ b.length = 2)) :
      HasStrayColon (signMark negative :: (a ++ ':' :: b)) (signedMinutes negative n)

namespace ClockDigits

variable {u : Text} {n : Nat}

theorem isNumber (h : ClockDigits u n) : IsNumber u := by
  cases h with
  | hours hh => exact hh.isNumber
  | minutes hh hm => exact (hh.append hm).isNumber

theorem not_mem (h : ClockDigits u n) : ':' ∉ u :=
  fun hmem => absurd (h.isNumber ':' hmem) (by decide)

theorem of_append {a b : Text} (h : ClockDigits (a ++ b) n) (ha : a.length = 2)
    (hb : b.length = 2) : IsDigits 2 a ∧ IsDigits 2 b ∧ toNat b < 60 := by
  generalize hd : a ++ b = d at h
  cases h with
  | hours hh =>
    have hlength := hh.length_eq
    rw [← hd, List.length_append] at hlength
    omega
  | minutes hh hm hlt =>
    obtain ⟨rfl, rfl⟩ := List.append_inj hd (ha.trans hh.length_eq.symm)
    exact ⟨hh, hm, hlt⟩

theorem readClock_eq {t : Text} (h : ClockDigits (t.erase ':') n) (negative : Bool) :
    readClock negative t = ofMinutes (signedMinutes negative n) := by
  have hall : (t.erase ':').all Char.isDigit = true := List.all_eq_true.mpr h.isNumber
  have htotal (hours minutes : Nat) : (if negative then -(hours * 60 + minutes : Int)
      else hours * 60 + minutes) = signedMinutes negative (60 * hours + minutes) := by
    unfold signedMinutes
    split_ifs <;> omega
  unfold readClock
  dsimp only
  rw [hall, htotal]
  generalize t.erase ':' = d at h
  cases h with
  | hours hh =>
    have hdrop : d.drop 2 = [] := List.drop_eq_nil_of_le hh.length_eq.le
    rw [hdrop, List.take_of_length_le hh.length_eq.le, hh.length_eq, toNat_nil]
    rfl
  | minutes hh hm hlt =>
    rw [List.take_left' hh.length_eq, List.drop_left' hh.length_eq, (hh.append hm).length_eq]
    simp [hlt]

theorem exists_of_readClock {negative : Bool} {t : Text}
    (h : readClock negative t ≠ .error .malformed) : ∃ n, ClockDigits (t.erase ':') n := by
  unfold readClock at h
  dsimp only at h
  generalize t.erase ':' = d at h
  obtain ⟨hdigits, -⟩ := ite_ne_right_iff.mp h
  simp only [Bool.and_eq_true, Bool.or_eq_true, beq_iff_eq, decide_eq_true_eq] at hdigits
  obtain ⟨⟨hlength, hall⟩, hlt⟩ := hdigits
  have hnumber : IsNumber d := List.all_eq_true.mp hall
  obtain hlength | hlength := hlength
  · exact ⟨_, .hours ⟨hnumber, hlength⟩⟩
  · have hh : IsDigits 2 (d.take 2) :=
      ⟨fun c hc => hnumber c (List.mem_of_mem_take hc), by rw [List.length_take, hlength]; rfl⟩
    have hm : IsDigits 2 (d.drop 2) :=
      ⟨fun c hc => hnumber c (List.mem_of_mem_drop hc), by rw [List.length_drop, hlength]⟩
    have hclock := minutes hh hm hlt
    rw [List.take_append_drop] at hclock
    exact ⟨_, hclock⟩

theorem erase_iff {t : Text} : ClockDigits (t.erase ':') n ↔
    ClockDigits t n ∨ ∃ a b, t = a ++ ':' :: b ∧ ClockDigits (a ++ b) n := by
  constructor
  · intro h
    by_cases hmem : ':' ∈ t
    · obtain ⟨a, b, -, rfl, herase⟩ := List.exists_erase_eq hmem
      exact .inr ⟨a, b, rfl, herase ▸ h⟩
    · exact .inl (List.erase_of_not_mem hmem ▸ h)
  · rintro (h | ⟨a, b, rfl, h⟩)
    · rwa [List.erase_of_not_mem h.not_mem]
    · have hmem : ':' ∉ a := fun hmem => h.not_mem (List.mem_append_left b hmem)
      rwa [List.erase_append_right _ hmem, List.erase_cons_head]

end ClockDigits

section

variable {t : Text} {n : Int}

theorem read_signMark (negative : Bool) (u : Text) :
    read (signMark negative :: u) = readClock negative u := by
  cases negative <;> simp [read, signMark, sameLetters]

theorem read_of_isText (h : IsText t n) : read t = ofMinutes n := by
  cases h with
  | zulu => rfl
  | utc h =>
    unfold read
    rw [h, Bool.or_true, if_pos rfl]
    rfl
  | close negative hu =>
    rw [read_signMark]
    exact (ClockDigits.erase_iff.mpr (.inl hu)).readClock_eq negative
  | colon negative hh hm hlt =>
    rw [read_signMark]
    exact (ClockDigits.erase_iff.mpr (.inr ⟨_, _, rfl, .minutes hh hm hlt⟩)).readClock_eq negative

theorem read_of_hasStrayColon (h : HasStrayColon t n) : read t = ofMinutes n := by
  cases h with
  | stray negative hab =>
    rw [read_signMark]
    exact (ClockDigits.erase_iff.mpr (.inr ⟨_, _, rfl, hab⟩)).readClock_eq negative

theorem exists_of_read (h : read t ≠ .error .malformed) :
    ∃ n, IsText t n ∨ HasStrayColon t n := by
  by_cases hname : (t == ['Z'] || sameLetters t "utc".toList) = true
  · rw [Bool.or_eq_true, beq_iff_eq] at hname
    obtain rfl | hname := hname
    · exact ⟨0, .inl .zulu⟩
    · exact ⟨0, .inl (.utc hname)⟩
  · have hsign : ∃ negative u, t = signMark negative :: u := by
      unfold read at h
      rw [if_neg hname] at h
      split at h
      · exact ⟨true, _, rfl⟩
      · exact ⟨false, _, rfl⟩
      · exact absurd rfl h
    obtain ⟨negative, u, rfl⟩ := hsign
    rw [read_signMark] at h
    obtain ⟨k, hk⟩ := ClockDigits.exists_of_readClock h
    obtain hu | ⟨a, b, rfl, hab⟩ := ClockDigits.erase_iff.mp hk
    · exact ⟨_, .inl (.close negative hu)⟩
    · by_cases hplace : a.length = 2 ∧ b.length = 2
      · obtain ⟨hh, hm, hlt⟩ := hab.of_append hplace.1 hplace.2
        exact ⟨_, .inl (.colon negative hh hm hlt)⟩
      · exact ⟨_, .inr (.stray negative hab hplace)⟩

theorem mem_of_read (h : read t ≠ .error .malformed) {c : Char} (hc : c ∈ t) :
    c.isAlphanum = true ∨ c = '+' ∨ c = '-' ∨ c = ':' := by
  have hsign (negative : Bool) : signMark negative = '+' ∨ signMark negative = '-' := by
    cases negative
    · exact .inl rfl
    · exact .inr rfl
  have hdigits {u : Text} (hu : IsNumber u) (hmem : c ∈ u) : c.isAlphanum = true :=
    isAlphanum_of_isDigit (hu c hmem)
  obtain ⟨n, htext | hstray⟩ := exists_of_read h
  · cases htext with
    | zulu =>
      obtain rfl := List.mem_singleton.mp hc
      exact .inl rfl
    | utc hname =>
      have hlower : c.toLower ∈ "utc".toList := by
        have := List.mem_map_of_mem (f := Char.toLower) hc
        rwa [beq_iff_eq.mp hname] at this
      have halpha : c.toLower.isAlpha = true :=
        List.all_eq_true.mp (show "utc".toList.all Char.isAlpha = true by decide) _ hlower
      exact .inl (isAlphanum_of_isAlpha (isAlpha_of_toLower halpha))
    | close negative hu =>
      obtain rfl | hc := List.mem_cons.mp hc
      · have := hsign negative
        tauto
      · exact .inl (hdigits hu.isNumber hc)
    | colon negative hh hm =>
      simp only [List.mem_cons, List.mem_append] at hc
      obtain rfl | hc | rfl | hc := hc
      · have := hsign negative
        tauto
      · exact .inl (hdigits hh.isNumber hc)
      · tauto
      · exact .inl (hdigits hm.isNumber hc)
  · cases hstray with
    | stray negative hab =>
      obtain ⟨ha, hb⟩ := isNumber_append.mp hab.isNumber
      simp only [List.mem_cons, List.mem_append] at hc
      obtain rfl | hc | rfl | hc := hc
      · have := hsign negative
        tauto
      · exact .inl (hdigits ha hc)
      · tauto
      · exact .inl (hdigits hb hc)

theorem ofMinutes_ne_malformed (n : Int) : ofMinutes n ≠ .error .malformed := by
  unfold ofMinutes
  split_ifs
  · exact nofun
  · exact nofun

theorem ofMinutes_eq_ok_iff {o : Offset} : ofMinutes n = .ok o ↔ n = o.minutes := by
  constructor
  · intro h
    unfold ofMinutes at h
    split_ifs at h
    exact congrArg minutes (Except.ok.inj h)
  · rintro rfl
    exact dif_pos o.inRange

theorem ofMinutes_eq_outOfRange_iff {k : Int} :
    ofMinutes n = .error (.outOfRange k) ↔ n = k ∧ 840 < |k| := by
  unfold ofMinutes
  rw [lt_abs]
  split_ifs with hrange
  · simp only [false_iff]
    omega
  · simp only [Except.error.injEq, OffsetFault.outOfRange.injEq]
    omega

end

/-- A text is read as an offset exactly if it is the text of one, or such a text with its colon in
another place, within fourteen hours of UTC. Those further away are out of range, and all other
texts are malformed. -/
theorem read_text_iff (t : Text) :
    (∀ o, read t = .ok o ↔ IsText t o.minutes ∨ HasStrayColon t o.minutes) ∧
    (∀ n, read t = .error (.outOfRange n) ↔ (IsText t n ∨ HasStrayColon t n) ∧ 840 < |n|) ∧
    (read t = .error .malformed ↔ ∀ n, ¬IsText t n ∧ ¬HasStrayColon t n) := by
  have hread {n : Int} (h : IsText t n ∨ HasStrayColon t n) : read t = ofMinutes n :=
    h.elim read_of_isText read_of_hasStrayColon
  have hexists (h : read t ≠ .error .malformed) :
      ∃ n, (IsText t n ∨ HasStrayColon t n) ∧ read t = ofMinutes n := by
    obtain ⟨n, hn⟩ := exists_of_read h
    exact ⟨n, hn, hread hn⟩
  refine ⟨fun o => ⟨fun h => ?_, fun h => ?_⟩, fun n => ⟨fun h => ?_, fun h => ?_⟩,
    fun h n => ?_, fun h => ?_⟩
  · obtain ⟨n, hn, heq⟩ := hexists (h ▸ nofun)
    obtain rfl := ofMinutes_eq_ok_iff.mp (heq.symm.trans h)
    exact hn
  · exact (hread h).trans (ofMinutes_eq_ok_iff.mpr rfl)
  · obtain ⟨k, hk, heq⟩ := hexists (h ▸ nofun)
    obtain ⟨rfl, hfar⟩ := ofMinutes_eq_outOfRange_iff.mp (heq.symm.trans h)
    exact ⟨hk, hfar⟩
  · exact (hread h.1).trans (ofMinutes_eq_outOfRange_iff.mpr ⟨rfl, h.2⟩)
  · rw [← not_or]
    exact fun hn => ofMinutes_ne_malformed n ((hread hn).symm.trans h)
  · by_contra hne
    obtain ⟨n, hn, -⟩ := hexists hne
    exact hn.elim (h n).1 (h n).2

theorem HasStrayColon.not_isText {t : Text} {n k : Int} (h : HasStrayColon t n) :
    ¬IsText t k := by
  cases h with
  | @stray negative a b _ hab hplace =>
    intro htext
    generalize ht : signMark negative :: (a ++ ':' :: b) = t at htext
    cases htext with
    | zulu => simp at ht
    | utc hname =>
      subst ht
      cases negative <;> simp [sameLetters, signMark] at hname
    | close sign hu =>
      obtain ⟨-, rfl⟩ := List.cons.inj ht
      exact hu.not_mem (by simp)
    | colon sign hh hm =>
      obtain ⟨-, ht⟩ := List.cons.inj ht
      have hdigit {d : Text} (hd : IsNumber d) : ∀ c ∈ d, (!c.isDigit) = false :=
        fun c hc => by rw [hd c hc]; rfl
      obtain ⟨rfl, -, rfl⟩ := append_cons_inj (p := (!·.isDigit))
        (hdigit (isNumber_append.mp hab.isNumber).1) (hdigit hh.isNumber) (by decide) (by decide) ht
      exact hplace ⟨hh.length_eq, hm.length_eq⟩

theorem read_text_strayColon : ¬ ∀ t : Text,
    (∀ o, read t = .ok o ↔ IsText t o.minutes) ∧
    (∀ n, read t = .error (.outOfRange n) ↔ IsText t n ∧ 840 < |n|) ∧
    (read t = .error .malformed ↔ ∀ n, ¬IsText t n) := by
  intro h
  have hdigits : IsDigits 2 "01".toList ∧ IsDigits 2 "00".toList :=
    ⟨⟨isNumber_of_isNumeral rfl, rfl⟩, isNumber_of_isNumeral rfl, rfl⟩
  have hstray : HasStrayColon "+0100:".toList 60 :=
    .stray false (a := "0100".toList) (b := []) (n := 60)
      (.minutes hdigits.1 hdigits.2 (by decide)) (by decide)
  have hread : read "+0100:".toList = .ok ⟨60, by decide⟩ := by
    decide
  exact hstray.not_isText ((h _).1 ⟨60, by decide⟩ |>.mp hread)

end Coercion.Offset
