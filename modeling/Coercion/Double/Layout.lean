namespace Coercion

def roundHalfEven (num den : Nat) : Nat :=
  let q := num / den
  let r := num % den
  if 2 * r < den ∨ (2 * r = den ∧ q % 2 = 0) then q else q + 1

/-- A layout has two to the power of `fractionBits` magnitudes to each of its exponents, and counts
them in units of which one has two to the power of `unitBits`. -/
structure Layout where
  fractionBits : Nat
  exponents : Nat
  unitBits : Nat

namespace Layout

def double : Layout := ⟨52, 2047, 1074⟩

def single : Layout := ⟨23, 255, 149⟩

def perExponent (l : Layout) : Nat :=
  1 <<< l.fractionBits

/-- The number of finite magnitudes. -/
def count (l : Layout) : Nat :=
  l.exponents * l.perExponent

def unitsInOne (l : Layout) : Nat :=
  1 <<< l.unitBits

def units (l : Layout) (rank : Nat) : Nat :=
  if rank < l.perExponent then rank
  else (l.perExponent + rank % l.perExponent) <<< (rank / l.perExponent - 1)

def nearest (l : Layout) (num den : Nat) : Nat :=
  let scaled := num <<< l.unitBits
  let shift := (scaled / den).log2 - l.fractionBits
  shift * l.perExponent + roundHalfEven scaled (den <<< shift)

end Layout

end Coercion
