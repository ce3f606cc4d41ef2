import Coercion.Number.Raw
import Coercion.Word

namespace Coercion

structure InvalidWidth where
  bytes : Nat
  deriving DecidableEq

def InvalidWidth.message (w : InvalidWidth) : String :=
  toString w.bytes ++ " is not a valid storage width"

/-- The storage width of an integer, in bytes. -/
inductive IntegerWidth
  | one
  | two
  | four
  | eight
  deriving DecidableEq

namespace IntegerWidth

def bytes : IntegerWidth → Nat
  | one => 1
  | two => 2
  | four => 4
  | eight => 8

def ofBytes : Nat → Except InvalidWidth IntegerWidth
  | 1 => .ok one
  | 2 => .ok two
  | 4 => .ok four
  | 8 => .ok eight
  | n => .error ⟨n⟩

def least : IntegerWidth → Int
  | one => -128
  | two => -32768
  | four => -2147483648
  | eight => leastWord

def greatest : IntegerWidth → Int
  | one => 127
  | two => 32767
  | four => 2147483647
  | eight => greatestWord

end IntegerWidth

def greatestSafe : Int := 9007199254740991

/-- A safe integer in the range of its width. -/
@[ext]
structure BoundedInteger where
  width : IntegerWidth
  value : Int
  inRange : width.least ≤ value ∧ value ≤ width.greatest
  isSafe : -greatestSafe ≤ value ∧ value ≤ greatestSafe
  deriving DecidableEq

namespace BoundedInteger

def ofInt? (width : IntegerWidth) (n : Int) : Option BoundedInteger :=
  if h : (width.least ≤ n ∧ n ≤ width.greatest) ∧ -greatestSafe ≤ n ∧ n ≤ greatestSafe then
    some ⟨width, n, h.1, h.2⟩
  else none

theorem ofInt?_eq_some_iff {width : IntegerWidth} {n : Int} {v : BoundedInteger} :
    ofInt? width n = some v ↔ v.width = width ∧ v.value = n := by
  constructor
  · intro h
    unfold ofInt? at h
    split at h
    · obtain rfl := Option.some.inj h
      exact ⟨rfl, rfl⟩
    · cases h
  · rintro ⟨rfl, rfl⟩
    rw [ofInt?, dif_pos ⟨v.inRange, v.isSafe⟩]

theorem ofInt?_eq_none_iff {width : IntegerWidth} {n : Int} : ofInt? width n = none ↔
    ¬((width.least ≤ n ∧ n ≤ width.greatest) ∧ -greatestSafe ≤ n ∧ n ≤ greatestSafe) := by
  unfold ofInt?
  split
  · next h => exact iff_of_false nofun (not_not_intro h)
  · next h => exact iff_of_true rfl h

def coerce (width : IntegerWidth) (r : Raw) : Except Fault BoundedInteger :=
  match r.finite with
  | .error e => .error e
  | .ok x =>
    let whole := x.trunc
    if !(Double.le (.ofInt width.least) whole && Double.le whole (.ofInt width.greatest)) then
      .error .integerOverflow
    else
      match ofInt? width whole.toInt with
      | some v => .ok v
      | none => .error .unsafeInteger

def text (v : BoundedInteger) : Text :=
  Text.ofInt v.value

end BoundedInteger

end Coercion
