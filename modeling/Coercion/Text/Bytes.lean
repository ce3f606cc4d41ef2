import Coercion.Text

namespace Coercion.Text

def byteLength : Text → Nat
  | [] => 0
  | c :: t => c.utf8Size + byteLength t

def dropBytes? : Nat → Text → Option Text
  | 0, t => some t
  | _ + 1, [] => some []
  | n + 1, c :: t => if c.utf8Size ≤ n + 1 then dropBytes? (n + 1 - c.utf8Size) t else none

def takeBytes? : Nat → Text → Option Text
  | 0, _ => some []
  | _ + 1, [] => some []
  | n + 1, c :: t =>
    if c.utf8Size ≤ n + 1 then (takeBytes? (n + 1 - c.utf8Size) t).map (c :: ·) else none

/-- The bytes from `start` to `stop`, as far as the text reaches. -/
def slice (start stop : Nat) (t : Text) : Text :=
  ((dropBytes? start t).bind (takeBytes? (stop - start))).getD []

def sliceFrom (start : Nat) (t : Text) : Text :=
  (dropBytes? start t).getD []

def hasAt (position : Nat) (c : Char) (t : Text) : Bool :=
  (dropBytes? position t).any (·.head? == some c)

end Coercion.Text
