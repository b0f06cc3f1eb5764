import Stencil.Form.Control
import Stencil.Html.Element
import Stencil.Inline.BracedSuffix

/-!
# Controls in forms

Inside a form element a control is written in brackets: its kind, its name, and perhaps values in
braces; attributes may follow in braces after the bracket.  The same before a parenthesis is a
link and stays.
-/

namespace Stencil

namespace Form

structure Control where
  kind : ControlKind
  name : Text
  values : Option Text
  attributes : Option Text
  /-- Whether a parenthesis follows, which makes it a link. -/
  isLink : Bool
  deriving DecidableEq, Repr

/-- The characters of a control's name. -/
def isNameChar (c : Char) : Bool := isWord c || c == '.' || c == '-'

/-- Splits a text at the brace that closes the values of a control; a group has braces of its own,
and groups do not nest. -/
def valuesEnd? : (inGroup : Bool) → Text → Option (Text × Text)
  | _, [] => none
  | false, '\x7d' :: s => some ([], s)
  | true, '\x7b' :: _ => none
  | inGroup, c :: s =>
    let inside := if c = '\x7b' then true else if c = '\x7d' then false else inGroup
    (valuesEnd? inside s).map fun (values, rest) => (c :: values, rest)

/-- Reads the values of a control, if there are any, and the bracket that closes it. -/
def readValues (s : Text) : Option (Option Text × Text) :=
  match s.dropWhile isBlank with
  | '\x7b' :: s => do
    let (values, s) ← valuesEnd? false s
    let rest ← Text.after? [']'] (s.dropWhile isBlank)
    return (some values, rest)
  | s => (Text.after? [']'] s).map (none, ·)

def startsBlank : Text → Bool
  | c :: _ => isBlank c
  | [] => false

def Control.read : Reader Control := fun _ s => do
  let s ← Text.after? ['['] s
  let kind := s.takeWhile isAsciiLetter
  let s := s.dropWhile isAsciiLetter
  if kind.isEmpty || !startsBlank s then none
  let s := s.dropWhile isBlank
  let name := s.takeWhile isNameChar
  if name.isEmpty then none
  let (values, s) ← readValues (s.dropWhile isNameChar)
  let (attributes, rest) := bracedSuffix s
  let isLink := Text.startsWith rest ['(']
  return (⟨.ofName (Text.lower kind), name, values, attributes, isLink⟩, rest)

def Control.html (control : Control) : Text :=
  let entries := (control.values.map Entry.parseAll).getD []
  control.kind.html control.name entries (extraAttributes control.attributes)

def expandControls (body : Text) : Text :=
  Text.substitute Control.read
    (fun source control => if control.isLink then source else control.html) body

end Form

def forms (s : Text) : Text :=
  Text.substitute (Element.read "form")
    (fun _ form => form.opening ++ Form.expandControls form.content ++ form.closing) s

end Stencil
