import Coercion.Proofs.Checked.Calendar
import Coercion.Proofs.Time.Offsets
import Coercion.Time.Context

namespace Coercion

open Calendar

namespace Checked

def subOrRefuse (a b : Int) : Checked Int :=
  if fitsWord (a - b) then done (a - b) else refused

def offsetMillis (o : Offset) : Checked Int :=
  mul o.minutes millisPerMinute

/-- The local reading of an instant. -/
def wallAt (z : Zone) (instant : Int) : Checked Int := do
  add instant (← offsetMillis (z.offsetAt instant))

/-- The local fields of an instant. -/
def localFields (c : Context) (instant : Int) : Checked Civil := do
  ofMillis (← wallAt c.zone instant)

def instantOfLocal (z : Zone) (wall : Int) : Checked Int := do
  let instant ← subOrRefuse wall (← offsetMillis (z.offsetOfLocal wall))
  if inRange instant then done instant else refused

def midnight (c : Civil) : Checked Int := do
  carriedMillis c.year (← sub c.month 1) c.day 0 0 0

theorem offsetMillis_eq (o : Offset) : offsetMillis o = done o.millis := by
  obtain ⟨hlo, hhi⟩ := o.inRange
  unfold offsetMillis Offset.millis millisPerMinute
  exact mul_eq (by omega) (by omega)

theorem subOrRefuse_inRange (a b : Int) :
    (subOrRefuse a b >>= fun n => if inRange n then done n else refused) =
      ofOption (if inRange (a - b) then some (a - b) else none) := by
  rw [subOrRefuse]
  cases hrange : inRange (a - b) with
  | true => simp [fitsWord_of_inRange hrange, hrange]
  | false =>
    rw [if_neg Bool.false_ne_true]
    split_ifs
    · exact if_neg (Bool.eq_false_iff.mp hrange)
    · rfl

theorem instantOfLocal_eq (z : Zone) (wall : Int) :
    instantOfLocal z wall = ofOption (z.instantOfLocal? wall) := by
  rw [instantOfLocal, offsetMillis_eq, done_bind]
  exact subOrRefuse_inRange wall _

theorem wallAt_eq (z : Zone) (instant : Int) :
    wallAt z instant = .orStop (word? (z.wallAt instant)) := by
  rw [wallAt, offsetMillis_eq, done_bind, add_eq_word]
  rfl

theorem localFields_eq (c : Context) (instant : Int) :
    localFields c instant = .orStop (c.localFields? instant) := by
  rw [localFields, wallAt_eq, word?, Context.localFields?]
  split_ifs with hword
  · rw [Ending.orStop_some, done_bind, ofMillis_eq hword]
    rfl
  · rfl

theorem midnight_eq {wall : Int} (h : fitsWord wall = true) :
    midnight (Civil.ofMillis wall) = .orStop (Civil.ofMillis wall).midnight? := by
  have hle : (Civil.ofMillis wall).midnight ≤ wall := by
    rw [Civil.midnight_ofMillis]
    unfold millisPerDay
    omega
  rw [midnight, sub_month, done_bind,
    carriedMillis_ofMillis h (by decide) (by decide) (by decide) hle, Civil.midnight?, word?]
  split_ifs <;> rfl

end Checked

end Coercion
