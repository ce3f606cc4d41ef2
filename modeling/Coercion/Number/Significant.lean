import Coercion.Number.Expansion
import Coercion.Number.Integer

namespace Coercion

/-- The storage width of a float, in bytes. -/
inductive FloatWidth
  | four
  | eight
  deriving DecidableEq

namespace FloatWidth

def ofBytes : Nat → Except InvalidWidth FloatWidth
  | 4 => .ok four
  | 8 => .ok eight
  | n => .error ⟨n⟩

def significantDigits : FloatWidth → Nat
  | four => 8
  | eight => 15

end FloatWidth

namespace SignificantFloat

def cut (count : Nat) (x : Double) : Double :=
  let e := Expansion.ofDouble x
  let digits := e.whole ++ e.fraction
  let kept := (digits.takeWhile (· == '0')).length + count
  if digits.length ≤ kept then x
  else
    let digits := digits.take kept ++ List.replicate (digits.length - kept) '0'
    Literal.toDouble
      ⟨e.negative, digits.take e.whole.length, digits.drop e.whole.length, 0⟩

end SignificantFloat

@[ext]
structure SignificantFloat where
  width : FloatWidth
  value : Double
  isCut : ∃ x : Double, x.isFinite = true ∧ value = SignificantFloat.cut width.significantDigits x
  deriving DecidableEq

namespace SignificantFloat

def coerce (width : FloatWidth) (r : Raw) : Except Fault SignificantFloat :=
  match h : r.finite with
  | .ok x => .ok ⟨width, cut width.significantDigits x, x, Raw.isFinite_of_finite h, rfl⟩
  | .error fault => .error fault

theorem coerce_of_finite (width : FloatWidth) {r : Raw} {x : Double} (h : r.finite = .ok x) :
    coerce width r =
      .ok ⟨width, cut width.significantDigits x, x, Raw.isFinite_of_finite h, rfl⟩ := by
  unfold coerce
  split
  · next y hy =>
    obtain rfl := Except.ok.inj (hy.symm.trans h)
    rfl
  · next hy => exact absurd (hy.symm.trans h) (by simp)

def text (v : SignificantFloat) : Text :=
  v.value.text

end SignificantFloat

end Coercion
