import Coercion.Ending
import Coercion.Fault
import Coercion.Reading.Rule

namespace Coercion

/-- A diagnostic: a warning of a failure, or the note that a rule recognized a text. -/
inductive Event
  | failed (fault : Fault)
  | recognized (rule : ShapeRule)
  deriving DecidableEq

/-- A result and the diagnostics before it, in order. -/
structure Report (α : Type) where
  events : List Event
  result : Ending Fault α

namespace Report

variable {α β : Type}

def bind (r : Report α) (f : α → Report β) : Report β :=
  match r.result with
  | .ok a => ⟨r.events ++ (f a).events, (f a).result⟩
  | .error e => ⟨r.events, .error e⟩
  | .stopped => ⟨r.events, .stopped⟩

instance : Monad Report where
  pure a := ⟨[], .ok a⟩
  bind := bind

def ofEnding (result : Ending Fault α) : Report α :=
  ⟨[], result⟩

def ofExcept (result : Except Fault α) : Report α :=
  ofEnding (.ofExcept result)

def emit (event : Event) : Report Unit :=
  ⟨[event], .ok ()⟩

def reported (r : Report α) : Report α :=
  match r.result with
  | .error fault => ⟨r.events ++ [.failed fault], .error fault⟩
  | _ => r

def attempt (r : Report α) : Report (Except Fault α) :=
  match r.result with
  | .ok a => ⟨r.events, .ok (.ok a)⟩
  | .error fault => ⟨r.events, .ok (.error fault)⟩
  | .stopped => ⟨r.events, .stopped⟩

@[simp] theorem result_pure (a : α) : (pure a : Report α).result = .ok a := rfl

@[simp] theorem result_bind (r : Report α) (f : α → Report β) :
    (r >>= f).result = r.result.bind fun a => (f a).result := by
  change (bind r f).result = _
  unfold bind
  cases r.result <;> rfl

@[simp] theorem result_ofEnding (e : Ending Fault α) : (ofEnding e).result = e := rfl

@[simp] theorem result_ofExcept (x : Except Fault α) : (ofExcept x).result = .ofExcept x := rfl

@[simp] theorem result_reported (r : Report α) : (reported r).result = r.result := by
  unfold reported
  cases h : r.result <;> simp [h]

end Report

end Coercion
