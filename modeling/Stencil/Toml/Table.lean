import Stencil.Toml.Value

/-!
# Making up the tables of a document

Each header and each line with a key changes the table of the document, or is an error: no key is
given twice, a table has at most one header, and what dotted keys make up is not mixed with what
headers make up.
-/

namespace Stencil.Toml

/-- The members of a table that is being made up. -/
abbrev Members := List (Text × Toml)

/-- How the way to a table is written: as a header or as a dotted key. -/
inductive PathKind where
  | header | dotted
  deriving DecidableEq, Repr

/-- Whether a path may lead into an existing table, where `last` tells that it ends there.  Dotted
keys do not pass a table that has a header, and only add to a table that dotted keys made. -/
def PathKind.mayEnter (kind : PathKind) (last : Bool) (origin : TableOrigin) : Bool :=
  match kind with
  | .header => true
  | .dotted => if last then origin == .dotted else origin != .header

/-- The origin of a table that a path makes. -/
def PathKind.origin : PathKind → TableOrigin
  | .header => .implied
  | .dotted => .dotted

/-- Applies a change to the last of some tables. -/
def changeLast? (change : Members → Option Members) : List Members → Option (List Members)
  | [] => none
  | [m] => (change m).map ([·])
  | m :: rest => (changeLast? change rest).map (m :: ·)

/-- Applies a change to the table that a path leads to.  Tables on the way that do not exist are
made, and the last element of an array of tables stands for the array. -/
def changeAt? (kind : PathKind) (change : Members → Option Members) :
    (path : List Text) → Members → Option Members
  | [], m => change m
  | key :: path, m =>
    match Keyed.get? m key with
    | none => do
      let inner ← changeAt? kind change path []
      return Keyed.insert m key (.table kind.origin inner)
    | some (.table origin inner) => do
      guard (kind.mayEnter path.isEmpty origin)
      let inner ← changeAt? kind change path inner
      return Keyed.insert m key (.table origin inner)
    | some (.tables elements) => do
      guard (kind.mayEnter path.isEmpty .element)
      let elements ← changeLast? (changeAt? kind change path) elements
      return Keyed.insert m key (.tables elements)
    | some _ => none

/-- Adds a member under a new key. -/
def addMember? (key : Text) (value : Toml) (m : Members) : Option Members :=
  if Keyed.contains m key then none else some (Keyed.insert m key value)

/-- Adds a member under a dotted key. -/
def addDotted? (path : List Text) (key : Text) (value : Toml) (m : Members) : Option Members :=
  changeAt? .dotted (addMember? key value) path m

/-- Gives the table under a key a header of its own. -/
def openTable? (key : Text) (m : Members) : Option Members :=
  match Keyed.get? m key with
  | none => some (Keyed.insert m key (.table .header []))
  | some (.table .implied inner) => some (Keyed.insert m key (.table .header inner))
  | some _ => none

/-- Adds an element to the array of tables under a key. -/
def openElement? (key : Text) (m : Members) : Option Members :=
  match Keyed.get? m key with
  | none => some (Keyed.insert m key (.tables [[]]))
  | some (.tables elements) => some (Keyed.insert m key (.tables (elements ++ [[]])))
  | some _ => none

end Stencil.Toml
