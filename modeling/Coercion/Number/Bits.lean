import Coercion.Number.Integer

namespace Coercion

/-- An operation on 32 bits. Positions and shift counts are taken modulo 32. -/
inductive BitOperation
  | and (other : Int)
  | andNot (other : Int)
  | or (other : Int)
  | xor (other : Int)
  | not
  | clear (position : Nat)
  | flip (position : Nat)
  | set (position : Nat)
  | test (position : Nat)
  | shift (count : Int)
  deriving DecidableEq

namespace BitOperation

def bit (position : Nat) : BitVec 32 :=
  1#32 <<< (position % 32)

def apply (w : BitVec 32) : BitOperation → Int
  | and other => (w &&& BitVec.ofInt 32 other).toInt
  | andNot other => (w &&& ~~~BitVec.ofInt 32 other).toInt
  | or other => (w ||| BitVec.ofInt 32 other).toInt
  | xor other => (w ^^^ BitVec.ofInt 32 other).toInt
  | not => (~~~w).toInt
  | clear position => (w &&& ~~~bit position).toInt
  | flip position => (w ^^^ bit position).toInt
  | set position => (w ||| bit position).toInt
  | test position => if w &&& bit position = 0#32 then 0 else 1
  | shift count =>
    if count < 0 then (w <<< (count.natAbs % 32)).toInt
    else (w.sshiftRight (count.natAbs % 32)).toInt

end BitOperation

namespace BoundedInteger

def word (v : BoundedInteger) : BitVec 32 :=
  BitVec.ofInt 32 v.value

def bitwise (v : BoundedInteger) (op : BitOperation) : Int :=
  op.apply v.word

end BoundedInteger

end Coercion
