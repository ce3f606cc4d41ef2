import Coercion.Proofs.Calendar.Readings
import Coercion.Proofs.Text.Joining
import Coercion.Proofs.Text.Numerals
import Coercion.Time.Context

namespace Coercion

open Calendar Text

namespace Offset

theorem erase_clock (h m : Nat) :
    (ofNatPadded 2 h ++ ofNatPadded 2 m).erase ':' = ofNatPadded 2 h ++ ofNatPadded 2 m := by
  apply List.erase_of_not_mem
  intro hmem
  have hdigit := isNumber_append.mpr ⟨isNumber_ofNatPadded 2 h, isNumber_ofNatPadded 2 m⟩ _ hmem
  simp at hdigit

theorem readClock_clock (negative : Bool) {h m : Nat} (hh : h < 100) (hm : m < 60) :
    readClock negative (ofNatPadded 2 h ++ ofNatPadded 2 m) =
      ofMinutes (if negative then -(h * 60 + m : Int) else h * 60 + m) := by
  have hhour := isDigits_ofNatPadded (k := 2) (by decide) hh
  have hminute := isDigits_ofNatPadded (k := 2) (n := m) (by decide) (by omega)
  have hall : (ofNatPadded 2 h ++ ofNatPadded 2 m).all Char.isDigit = true :=
    List.all_eq_true.mpr (hhour.append hminute).isNumber
  rw [readClock, erase_clock, List.take_left' hhour.length_eq, List.drop_left' hhour.length_eq,
    toNat_ofNatPadded, toNat_ofNatPadded, hall, (hhour.append hminute).length_eq]
  simp [hm]

theorem read_clockText (o : Offset) : read (o.clockText []) = .ok o := by
  obtain ⟨hlo, hhi⟩ := o.inRange
  have hclock (negative : Bool) := readClock_clock negative (h := o.minutes.natAbs / 60)
    (m := o.minutes.natAbs % 60) (by omega) (by omega)
  have hminutes {n : Int} (hn : n = o.minutes) : ofMinutes n = .ok o := by
    subst hn
    exact dif_pos o.inRange
  by_cases hneg : o.minutes < 0
  · have htext : o.clockText [] =
        '-' :: (ofNatPadded 2 (o.minutes.natAbs / 60) ++
          ofNatPadded 2 (o.minutes.natAbs % 60)) := by
      simp [clockText, hneg]
    rw [htext, read, if_neg (by simp [sameLetters])]
    exact (hclock true).trans (hminutes (by rw [if_pos rfl]; omega))
  · have htext : o.clockText [] =
        '+' :: (ofNatPadded 2 (o.minutes.natAbs / 60) ++
          ofNatPadded 2 (o.minutes.natAbs % 60)) := by
      simp [clockText, hneg]
    rw [htext, read, if_neg (by simp [sameLetters])]
    exact (hclock false).trans (hminutes (by rw [if_neg Bool.false_ne_true]; omega))

theorem mem_gmtText {o : Offset} {c : Char} (h : c ∈ o.gmtText) :
    c.isAlphanum = true ∨ c = '+' ∨ c = '-' := by
  have hword : IsWord "GMT".toList := by simp [IsWord]
  have hnumber (n : Nat) := (isNumber_ofNatPadded 2 n).isWord
  simp only [gmtText, clockText, List.append_nil, List.mem_append, List.mem_cons] at h
  obtain h | (h | h) | h := h
  · exact .inl (hword c h)
  · exact .inr (by split_ifs at h <;> simp [h])
  · exact .inl (hnumber _ c h)
  · exact .inl (hnumber _ c h)

theorem isSolid_gmtText (o : Offset) : IsSolid o.gmtText := by
  refine ⟨List.cons_ne_nil _ _, fun c hc => ?_⟩
  obtain hc | rfl | rfl := mem_gmtText hc
  · exact isBlank_of_isAlphanum hc
  all_goals rfl

theorem isAscii_gmtText (o : Offset) : IsAscii o.gmtText := by
  intro c hc
  obtain hc | rfl | rfl := mem_gmtText hc
  · exact utf8Size_of_isAlphanum hc
  all_goals decide

/-- Offsets are whole seconds, so that a fraction of a second is the same in all local times. -/
theorem floor_add_millis (o : Offset) (millis : Int) :
    (millis + o.millis) / millisPerSecond * millisPerSecond - o.millis =
      millis / millisPerSecond * millisPerSecond := by
  unfold Offset.millis millisPerMinute millisPerSecond
  omega

end Offset

namespace Zone

theorem instantOfLocal?_eq_some {z : Zone} {wall instant : Int}
    (h : z.instantOfLocal? wall = some instant) : inRange instant = true := by
  unfold instantOfLocal? at h
  dsimp only at h
  split_ifs at h with hrange
  obtain rfl := Option.some.inj h
  exact hrange

@[simp] theorem filter_instantOfLocal? (z : Zone) (wall : Int) :
    (z.instantOfLocal? wall).filter inRange = z.instantOfLocal? wall := by
  cases h : z.instantOfLocal? wall with
  | none => rfl
  | some instant => rw [Option.filter_some, if_pos (instantOfLocal?_eq_some h)]

theorem wallAt_eq (z : Zone) (millis : Int) :
    z.wallAt millis = millis + (z.offsetAt millis).millis := rfl

theorem natAbs_wallAt_lt (z : Zone) {millis : Int} (h : inRange millis = true) :
    (z.wallAt millis).natAbs < 10000000000000000 := by
  obtain ⟨hlo, hhi⟩ := (z.offsetAt millis).inRange
  simp only [inRange, Bool.and_eq_true, decide_eq_true_eq] at h
  rw [wallAt_eq]
  unfold Offset.millis millisPerMinute
  unfold maxInstant millisPerDay at h
  omega

theorem offsetAt_floor (z : Zone) (millis : Int) :
    z.offsetAt (millis / millisPerSecond * millisPerSecond) = z.offsetAt millis := by
  cases z with
  | fixed o => rfl
  | host rule =>
    have hknows : hostKnows (millis / millisPerSecond * millisPerSecond) = hostKnows millis := by
      rw [Bool.eq_iff_iff]
      simp only [hostKnows, Bool.and_eq_true, decide_eq_true_eq]
      unfold millisPerSecond
      omega
    have hsecond : millis / millisPerSecond * millisPerSecond / millisPerSecond =
        millis / millisPerSecond := Int.mul_ediv_cancel _ (by decide)
    rw [offsetAt, offsetAt, hknows, hsecond]

theorem wallAt_floor (z : Zone) (millis : Int) :
    z.wallAt (millis / millisPerSecond * millisPerSecond) =
      z.wallAt millis / millisPerSecond * millisPerSecond := by
  rw [wallAt_eq, wallAt_eq, offsetAt_floor]
  have := (z.offsetAt millis).floor_add_millis millis
  omega

/-- In a fixed zone, the reading of an instant to the second is the one of the whole second. -/
theorem instantOfLocal?_floor (o : Offset) {millis : Int} (h : inRange millis = true) :
    (fixed o).instantOfLocal? ((fixed o).wallAt millis / millisPerSecond * millisPerSecond) =
      some (millis / millisPerSecond * millisPerSecond) := by
  have hwall : (fixed o).wallAt millis = millis + o.millis := rfl
  have hfloor (wall : Int)
      (hw : wall = (fixed o).wallAt millis / millisPerSecond * millisPerSecond) :
      wall - ((fixed o).offsetOfLocal wall).millis =
        millis / millisPerSecond * millisPerSecond := by
    rw [hw, hwall]
    exact o.floor_add_millis millis
  simp only [instantOfLocal?, hfloor _ rfl, inRange_floor h, if_true]

end Zone

namespace Context

variable (c : Context)

/-- The local fields of the current instant. -/
def today : Civil := c.localFields c.now

variable {c} in
theorem localFields?_eq_some_iff {instant : Int} {fields : Civil} :
    c.localFields? instant = some fields ↔
      fitsWord (c.zone.wallAt instant) = true ∧ c.localFields instant = fields := by
  simp [localFields?]

theorem localFields?_of_inRange {millis : Int} (h : inRange millis = true) :
    c.localFields? millis = some (c.localFields millis) := by
  have hword : fitsWord (c.zone.wallAt millis) = true := by
    have hbound := c.zone.natAbs_wallAt_lt h
    rw [fitsWord_iff]
    omega
  rw [localFields?, if_pos hword]

theorem today?_of_inRange (h : inRange c.now = true) : c.today? = some c.today :=
  c.localFields?_of_inRange h

theorem today?_of_fourDigits (h : 0 ≤ c.today.year ∧ c.today.year ≤ 9999) :
    c.today? = some c.today :=
  if_pos (fitsWord_of_inRange (Civil.inRange_of_fourDigits h))

end Context

end Coercion
