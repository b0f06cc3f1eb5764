import Stencil.Text.Basic

/-!
# Kinds of extracted tags

Four kinds of elements are taken out of a template and put back when it is rendered.  A kind has a
name, and the n-th element of a kind leaves a placeholder with that name and number behind.
-/

namespace Stencil

inductive TagKind where
  | script | style | link | metadata
  deriving DecidableEq, Repr

/-- A text that names no kind. -/
structure UnknownTagKind where
  text : Text
  deriving DecidableEq, Repr

namespace UnknownTagKind

def message (e : UnknownTagKind) : Text := "unknown tag kind: " ++ e.text

end UnknownTagKind

namespace TagKind

def all : List TagKind := [.script, .style, .link, .metadata]

def name : TagKind → Text
  | .script => "script"
  | .style => "style"
  | .link => "link"
  | .metadata => "meta"

def ofName? (s : Text) : Option TagKind := all.find? fun k => Text.sameLetters k.name s

/-- As `ofName?`, where a text that names no kind is an error. -/
def ofName (s : Text) : Except UnknownTagKind TagKind :=
  match ofName? s with
  | some k => .ok k
  | none => .error ⟨s⟩

/-- What the n-th element of a kind leaves behind; numbers begin at one. -/
def placeholder (k : TagKind) (n : Nat) : Text :=
  "<@" ++ k.name ++ [':'] ++ Text.ofNat n ++ ['>']

theorem mem_all (k : TagKind) : k ∈ all := by cases k <;> decide

end TagKind

/-- Letters in the one case that patterns compare them in.  Besides A to Z, the long s counts as
an s and the Kelvin sign as a k. -/
def foldLetter (c : Char) : Char :=
  if c = '\u017f' then 's' else if c = '\u212a' then 'k' else c.toLower

/-- A kind's name at the start of a text, in letters of either case: the name as written and the
rest. -/
def TagKind.readName? (s : Text) : Option (Text × Text) :=
  all.findSome? fun k =>
    (Text.afterFolded? foldLetter k.name s).map fun rest => (s.take k.name.length, rest)

end Stencil
