import Stencil.Html.Escape
import Stencil.Text.Scan
import Stencil.Text.Word

/-!
# Placeholders for values

A placeholder stands between two or three braces on one line; with two, its text is escaped.  It
names a value, or assigns a value to an attribute, or names another template to include.
-/

namespace Stencil

inductive Request where
  /-- The template at a path. -/
  | template (path : Text)
  /-- An attribute with a value between quotes. -/
  | attribute (attr name : Text) (quote : Char)
  /-- A value. -/
  | value (name : Text)
  deriving DecidableEq, Repr

/-- A placeholder as written: the text between its braces, and whether the result is escaped. -/
structure Placeholder where
  body : Text
  escaped : Bool
  deriving DecidableEq, Repr

def isAttributeChar (c : Char) : Bool := isAlphanumeric c || c == '_' || c == '$' || c == '-'

/-- The name of the value that is assigned, and the quote for it.  A name in quotes gives its own
quote. -/
def assigned? (s : Text) : Option (Text × Char) :=
  match s with
  | [] => none
  | c :: rest =>
    let (name, quote) : Option Text × Char :=
      if c = '"' ∨ c = '\'' then
        (if rest.getLast? = some c then some rest.dropLast else none, c)
      else (some s, '"')
    (name.map Text.trim).bind fun name => if name.isEmpty then none else some (name, quote)

/-- The request that assigns a value to an attribute. -/
def Request.assignment? (s : Text) : Option Request := do
  let (attr, rest) ← Text.splitFirst? '=' s
  let attr := Text.trim attr
  if attr.isEmpty || !attr.all isAttributeChar then none
  let (name, quote) ← assigned? (Text.trim rest)
  return .attribute attr name quote

/-- The request between the braces of a placeholder.  No request begins with a dash, which is for
extracted elements. -/
def Request.parse? (body : Text) : Option Request :=
  let s := Text.trim body
  match s with
  | [] => none
  | '-' :: _ => none
  | '#' :: path => some (.template (Text.trim path))
  | _ => some ((Request.assignment? s).getD (.value s))

namespace Placeholder

def splitLine? (mark : Text) (s : Text) : Option (Text × Text) := do
  let (before, rest) ← Text.splitAtFirst? mark s
  if '\n' ∈ before then none else some (before, rest)

def readBody? (opening closing s : Text) : Option (Text × Text) := do
  let s ← Text.after? opening s
  splitLine? closing s

/-- Reads a placeholder; three braces are tried before two. -/
def read : Reader Placeholder := fun _ s =>
  match readBody? ['\x7b', '\x7b', '\x7b'] ['\x7d', '\x7d', '\x7d'] s with
  | some (body, rest) => some (⟨body, false⟩, rest)
  | none =>
    (readBody? ['\x7b', '\x7b'] ['\x7d', '\x7d'] s).map fun (body, rest) => (⟨body, true⟩, rest)

/-- Escapes a text if the placeholder asks for it. -/
def escape (p : Placeholder) (s : Text) : Text := if p.escaped then escapeHtml s else s

def request? (p : Placeholder) : Option Request := Request.parse? p.body

end Placeholder

end Stencil
