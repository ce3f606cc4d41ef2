namespace Coercion

/-- How a computation ends: with a value, with a failure, or stopped at a number that no word
holds. -/
inductive Ending (ε α : Type) where
  | ok (value : α)
  | error (fault : ε)
  | stopped
  deriving DecidableEq

namespace Ending

variable {ε ε' α β : Type}

def bind (e : Ending ε α) (f : α → Ending ε β) : Ending ε β :=
  match e with
  | ok a => f a
  | error fault => error fault
  | stopped => stopped

def map (f : α → β) (e : Ending ε α) : Ending ε β :=
  e.bind fun a => ok (f a)

instance : Monad (Ending ε) where
  pure := ok
  bind := bind
  map := map

def mapError (f : ε → ε') : Ending ε α → Ending ε' α
  | ok a => ok a
  | error fault => error (f fault)
  | stopped => stopped

def ofExcept : Except ε α → Ending ε α
  | .ok a => ok a
  | .error fault => error fault

/-- Without a value the computation has stopped. -/
def orStop : Option α → Ending ε α
  | some a => ok a
  | none => stopped

@[simp] theorem bind_ok (a : α) (f : α → Ending ε β) : (ok a).bind f = f a := rfl

@[simp] theorem bind_error (fault : ε) (f : α → Ending ε β) :
    (error fault).bind f = error fault := rfl

@[simp] theorem bind_stopped (f : α → Ending ε β) : (stopped : Ending ε α).bind f = stopped := rfl

@[simp] theorem map_ok (f : α → β) (a : α) : (ok a : Ending ε α).map f = ok (f a) := rfl

@[simp] theorem map_error (f : α → β) (fault : ε) :
    (error fault : Ending ε α).map f = error fault := rfl

@[simp] theorem map_stopped (f : α → β) : (stopped : Ending ε α).map f = stopped := rfl

@[simp] theorem ofExcept_ok (a : α) : (ofExcept (.ok a) : Ending ε α) = ok a := rfl

@[simp] theorem ofExcept_error (fault : ε) :
    (ofExcept (.error fault) : Ending ε α) = error fault := rfl

@[simp] theorem orStop_some (a : α) : (orStop (some a) : Ending ε α) = ok a := rfl

@[simp] theorem orStop_none : (orStop none : Ending ε α) = stopped := rfl

@[simp] theorem ofExcept_eq_ok {x : Except ε α} {a : α} : ofExcept x = ok a ↔ x = .ok a := by
  cases x <;> simp [ofExcept]

@[simp] theorem ofExcept_eq_error {x : Except ε α} {fault : ε} :
    ofExcept x = error fault ↔ x = .error fault := by
  cases x <;> simp [ofExcept]

@[simp] theorem orStop_eq_ok {x : Option α} {a : α} :
    (orStop x : Ending ε α) = ok a ↔ x = some a := by
  cases x <;> simp [orStop]

theorem ofExcept_ne_stopped {x : Except ε α} : ofExcept x ≠ stopped := by
  cases x <;> simp

theorem map_ne_stopped {f : α → β} {e : Ending ε α} (h : e ≠ stopped) : e.map f ≠ stopped := by
  cases e with
  | ok a => exact nofun
  | error fault => exact nofun
  | stopped => exact absurd rfl h

theorem orStop_ne_error {x : Option α} {fault : ε} : (orStop x : Ending ε α) ≠ error fault := by
  cases x <;> simp [orStop]

theorem of_map_error {f : α → β} {e : Ending ε α} {fault : ε} (h : e.map f = error fault) :
    e = error fault := by
  cases e with
  | error fault' => exact congrArg error (error.inj h)
  | ok a => cases h
  | stopped => cases h

theorem of_orStop_bind_error {x : Option α} {f : α → Ending ε β} {fault : ε}
    (h : (orStop x).bind f = error fault) : ∃ a, f a = error fault := by
  cases x with
  | none => cases h
  | some a => exact ⟨a, h⟩

theorem bind_eq_ok {e : Ending ε α} {f : α → Ending ε β} {b : β} :
    e.bind f = ok b ↔ ∃ a, e = ok a ∧ f a = ok b := by
  cases e <;> simp

end Ending

end Coercion
