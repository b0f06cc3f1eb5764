import Stencil.Keyed

/-!
# Changes of templates

A storage reports that a template was created, modified or removed.  Editors cause several reports
for one change; the debouncer keeps one report for each template and hands it out once the template
has been quiet for the length of a window.
-/

namespace Stencil

inductive Change where
  | created | modified | removed
  deriving DecidableEq, Repr

/-- A change of the template with an id. -/
structure Event where
  id : Text
  change : Change
  deriving DecidableEq, Repr

/-- The net effect of one change after another; none if nothing is left of either. -/
def Change.combine : Change → Change → Option Change
  | .created, .removed => none
  | .created, _ => some .created
  | .removed, .created => some .modified
  | .removed, _ => some .removed
  | .modified, change => some change

/-- A change that waits until the template has been quiet. -/
structure Pending where
  change : Change
  deadline : Nat
  deriving DecidableEq, Repr

/-- The changes that wait, by id, and the length of the window. -/
structure Debouncer where
  window : Nat
  pending : Keyed Pending := []
  deriving DecidableEq, Repr

namespace Debouncer

/-- Notes a change at a time. -/
def record (d : Debouncer) (now : Nat) (e : Event) : Debouncer :=
  let net :=
    match Keyed.get? d.pending e.id with
    | none => some e.change
    | some earlier => earlier.change.combine e.change
  match net with
  | some change =>
    { d with pending := Keyed.insert d.pending e.id ⟨change, now + d.window⟩ }
  | none => { d with pending := Keyed.erase d.pending e.id }

def insertById (e : Event) : List Event → List Event
  | [] => [e]
  | f :: events => if Text.le e.id f.id then e :: f :: events else f :: insertById e events

def isDue (now : Nat) (p : Pending) : Bool := p.deadline ≤ now

/-- Hands out the changes that are due at a time, in the order of their ids. -/
def drain (d : Debouncer) (now : Nat) : List Event × Debouncer :=
  let due := Keyed.keep d.pending (isDue now)
  (due.foldr (fun (id, p) events => insertById ⟨id, p.change⟩ events) [],
    { d with pending := Keyed.keep d.pending fun p => !isDue now p })

end Debouncer

end Stencil
