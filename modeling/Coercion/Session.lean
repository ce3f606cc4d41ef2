import Coercion.Reporting.Dates

namespace Coercion

/-- A context and the value carried through it. -/
structure Session where
  context : Context
  value : Temporal
  deriving DecidableEq

inductive Step
  | add (d : Duration)
  | addText (t : Text)
  | truncate (unit : Text)
  | read (input : DateInput)
  | rereadIso
  | rereadText (pattern : Option Text)
  | enter (context : Context)
  | toText (pattern : Option Text)
  | dateGmt
  | part (unit : Text)
  | inUnit (unit : Text)

inductive Answer
  | done (changed : Bool)
  | text (t : Text)
  | field (n : Option Int)
  | quantity (x : Option Double)
  | failed (fault : Fault)
  | notAnInterval (t : Text)
  deriving DecidableEq

namespace Session

def add (s : Session) (d : Duration) : Answer × Session :=
  match s.value.add? d with
  | some v => (.done true, { s with value := v })
  | none => (.done false, s)

def settle {α : Type} (s : Session) (r : Report α) (next : α → Answer × Session) :
    Report (Answer × Session) := do
  match ← r.attempt with
  | .ok a => pure (next a)
  | .error fault => pure (.failed fault, s)

def reread (s : Session) (t : Text) : Report (Answer × Session) :=
  s.settle (Dates.toDate s.context (.text t)) fun v => (.text t, { s with value := v })

def step (s : Session) : Step → Report (Answer × Session)
  | .add d => pure (s.add d)
  | .addText t =>
    s.settle (Dates.toDate s.context (.text t)) fun
      | .interval d => s.add d
      | .instant _ _ _ => (.notAnInterval t, s)
  | .truncate unit =>
    s.settle (Dates.dateTruncate s.context unit (.value s.value)) fun
      | some v => (.done true, { s with value := v })
      | none => (.done false, s)
  | .read input =>
    s.settle (Dates.toDate s.context input) fun v => (.done true, { s with value := v })
  | .rereadIso => s.reread (s.value.isoText s.context)
  | .rereadText pattern => do
    match ← (Dates.toText s.context pattern (.value s.value)).attempt with
    | .ok t => s.reread t
    | .error fault => pure (.failed fault, s)
  | .enter context => pure (.done true, { s with context := context })
  | .toText pattern =>
    s.settle (Dates.toText s.context pattern (.value s.value)) fun t => (.text t, s)
  | .dateGmt =>
    s.settle (Dates.dateGmt s.context (.value s.value)) fun t => (.text t, s)
  | .part unit =>
    s.settle (Dates.datePart s.context unit (.value s.value)) fun n => (.field n, s)
  | .inUnit unit =>
    pure (.quantity (s.value.duration?.bind fun d =>
      (TimeUnit.ofName? unit).bind d.inUnit?), s)

end Session

end Coercion
