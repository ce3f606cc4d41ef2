import Coercion.Ending
import Coercion.Text.Bytes
import Coercion.Word

namespace Coercion

/-- A computation in steps that can each be impossible to take. It fails only where what it reads
states nothing. -/
abbrev Checked : Type → Type := Ending Unit

namespace Checked

section

variable {α β : Type}

abbrev done (a : α) : Checked α := .ok a

abbrev refused : Checked α := .error ()

abbrev stopped : Checked α := Ending.stopped

@[simp] theorem done_bind (a : α) (f : α → Checked β) : (done a >>= f) = f a := rfl

@[simp] theorem refused_bind (f : α → Checked β) : (refused >>= f) = refused := rfl

/-- Simplification takes the steps in their order: what comes after a step has to wait for what the
step gives. -/
@[congr] theorem bind_congr {x y : Checked α} (f : α → Checked β) (h : x = y) :
    (x >>= f) = (y >>= f) :=
  congrArg (· >>= f) h

/-- A reading that takes no step that could stop it. -/
def ofOption : Option α → Checked α
  | some a => done a
  | none => refused

@[simp] theorem ofOption_some (a : α) : ofOption (some a) = done a := rfl

@[simp] theorem ofOption_none : ofOption (none : Option α) = refused := rfl

/-- Readings follow one another without a stop if none of them stops on what the one before it
read. -/
theorem ofOption_bind {x : Option α} {f : α → Checked β} {g : α → Option β}
    (h : ∀ a, x = some a → f a = ofOption (g a)) : (ofOption x >>= f) = ofOption (x.bind g) := by
  cases x with
  | none => rfl
  | some a => exact h a rfl

theorem ofOption_map {x : Option α} {f : α → Checked β} {g : α → β}
    (h : ∀ a, x = some a → f a = done (g a)) : (ofOption x >>= f) = ofOption (x.map g) := by
  cases x with
  | none => rfl
  | some a => exact h a rfl

theorem ofOption_foldlM {f : β → α → Checked β} {g : β → α → Option β}
    (h : ∀ b a, f b a = ofOption (g b a)) (l : List α) (b : β) :
    l.foldlM f b = ofOption (l.foldlM g b) := by
  induction l generalizing b with
  | nil => rfl
  | cons a l ih =>
    rw [List.foldlM_cons, List.foldlM_cons, h]
    exact ofOption_bind fun b' _ => ih b'

end

def fit (least greatest n : Int) : Checked Int :=
  if least ≤ n ∧ n ≤ greatest then done n else stopped

/-- A natural number below a limit, kept of an integer. -/
def unsigned (limit n : Int) : Checked Nat :=
  if 0 ≤ n ∧ n < limit then done n.toNat else stopped

def add (a b : Int) : Checked Int := fit leastWord greatestWord (a + b)

def sub (a b : Int) : Checked Int := fit leastWord greatestWord (a - b)

def mul (a b : Int) : Checked Int := fit leastWord greatestWord (a * b)

def entry {α : Type} (table : List α) (i : Nat) : Checked α :=
  match table[i]? with
  | some a => done a
  | none => stopped

def cut : Nat → Text → Checked (Text × Text)
  | 0, t => done ([], t)
  | _ + 1, [] => stopped
  | n + 1, c :: t =>
    if c.utf8Size ≤ n + 1 then do
      let (a, rest) ← cut (n + 1 - c.utf8Size) t
      done (c :: a, rest)
    else stopped

section

variable {a b : Int}

theorem fit_eq {least greatest n : Int} (h : least ≤ n) (h' : n ≤ greatest) :
    fit least greatest n = done n :=
  if_pos ⟨h, h'⟩

theorem unsigned_eq {limit n : Int} (h : 0 ≤ n) (h' : n < limit) :
    unsigned limit n = done n.toNat :=
  if_pos ⟨h, h'⟩

theorem add_eq (h : -9223372036854775808 ≤ a + b) (h' : a + b ≤ 9223372036854775807) :
    add a b = done (a + b) :=
  fit_eq h h'

theorem sub_eq (h : -9223372036854775808 ≤ a - b) (h' : a - b ≤ 9223372036854775807) :
    sub a b = done (a - b) :=
  fit_eq h h'

theorem mul_eq (h : -9223372036854775808 ≤ a * b) (h' : a * b ≤ 9223372036854775807) :
    mul a b = done (a * b) :=
  fit_eq h h'

end

theorem entry_eq {α : Type} {table : List α} {i : Nat} (h : i < table.length) :
    entry table i = done table[i] := by
  rw [entry, List.getElem?_eq_getElem h]

theorem fit_word (n : Int) : fit leastWord greatestWord n = .orStop (word? n) := by
  simp only [fit, word?, fitsWord, Bool.and_eq_true, decide_eq_true_eq]
  split <;> rfl

theorem add_eq_word (a b : Int) : add a b = .orStop (word? (a + b)) := fit_word (a + b)

theorem mul_eq_word (a b : Int) : mul a b = .orStop (word? (a * b)) := fit_word (a * b)

end Checked

end Coercion
