namespace Coercion

abbrev Text := List Char

namespace Text

def isBlank (c : Char) : Bool :=
  let n := c.toNat
  (9 ≤ n && n ≤ 13) || n == 0x20 || n == 0x85 || n == 0xA0 || n == 0x1680 ||
    (0x2000 ≤ n && n ≤ 0x200A) || n == 0x2028 || n == 0x2029 || n == 0x202F ||
    n == 0x205F || n == 0x3000

def trim (t : Text) : Text :=
  ((t.dropWhile isBlank).reverse.dropWhile isBlank).reverse

def sameLetters (a b : Text) : Bool :=
  a.map Char.toLower == b.map Char.toLower

/-- The parts of a text between the characters that satisfy `p`, one more than there are such
characters. -/
def split (p : Char → Bool) : Text → List Text
  | [] => [[]]
  | c :: t => if p c then [] :: split p t else (split p t).modifyHead (c :: ·)

def occurs (pattern : Text) : Text → Bool
  | [] => pattern.isEmpty
  | c :: t => pattern.isPrefixOf (c :: t) || occurs pattern t

def replaceFirst (pattern replacement : Text) : Text → Text
  | [] => if pattern.isEmpty then replacement else []
  | c :: t =>
    if pattern.isPrefixOf (c :: t) then replacement ++ (c :: t).drop pattern.length
    else c :: replaceFirst pattern replacement t

def splitSign : Text → Bool × Text
  | '-' :: t => (true, t)
  | '+' :: t => (false, t)
  | t => (false, t)

def splitDigits (t : Text) : Text × Text :=
  (t.takeWhile Char.isDigit, t.dropWhile Char.isDigit)

def isNumeral (t : Text) : Bool :=
  !t.isEmpty && t.all Char.isDigit

def toNat (t : Text) : Nat :=
  Nat.ofDigitChars 10 t 0

def ofNat (n : Nat) : Text :=
  Nat.toDigits 10 n

/-- The decimal digits of a number, with zeros in front up to a width. -/
def ofNatPadded (width n : Nat) : Text :=
  (ofNat n).leftpad width '0'

def sign (negative : Bool) : Text :=
  if negative then ['-'] else []

/-- The decimal digits of an integer, after a minus sign if it is negative. -/
def ofInt (n : Int) : Text :=
  sign (n < 0) ++ ofNat n.natAbs

def ofIntPadded (width : Nat) (n : Int) : Text :=
  let minus := sign (n < 0)
  minus ++ ofNatPadded (width - minus.length) n.natAbs

end Text

end Coercion
