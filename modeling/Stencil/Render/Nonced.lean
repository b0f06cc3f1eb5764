import Stencil.Context.Nonce
import Stencil.Html.Escape

/-!
# Nonces in elements

A nonce is added as the last attribute of an element's open tag, before a slash that ends it,
unless the tag has one.
-/

namespace Stencil.Nonced

/-- Where a reader of an open tag stands: outside quotes or inside, and there perhaps directly after
a backslash. -/
inductive Place where
  | outside
  | inside (quote : Char) (escaped : Bool)
  deriving DecidableEq, Repr

/-- The next place after a character other than a closing bracket outside quotes. -/
def Place.next : Place → Char → Place
  | .outside, c => if c = '"' ∨ c = '\'' then .inside c false else .outside
  | .inside quote true, _ => .inside quote false
  | .inside quote false, c =>
    if c = '\\' then .inside quote true else if c = quote then .outside else .inside quote false

/-- Splits a text before the first closing bracket outside quotes. -/
def splitBracket? : Place → Text → Option (Text × Text)
  | _, [] => none
  | place, c :: s =>
    if place = .outside ∧ c = '>' then some ([], c :: s)
    else (splitBracket? (place.next c) s).map fun (before, rest) => (c :: before, rest)

def mark : Text := " nonce="

def hasNonce (tag : Text) : Bool := (Text.splitAtFirst? mark (Text.lower tag)).isSome

/-- The text of an open tag without the slash that may end it, and that slash. -/
def splitSlash (tag : Text) : Text × Text :=
  if tag.getLast? = some '/' then (Text.trimEnd tag.dropLast, [' ', '/']) else (tag, [])

/-- Adds a nonce to the open tag of an element. -/
def insert (nonce element : Text) : Text :=
  match element with
  | [] => []
  | first :: s =>
    match splitBracket? .outside s with
    | none => element
    | some (inside, rest) =>
      let tag := Text.trimEnd (first :: inside)
      if hasNonce tag then element
      else
        let (tag, slash) := splitSlash tag
        tag ++ mark ++ ['"'] ++ escapeAttr nonce ++ ['"'] ++ slash ++ rest

/-- An element of a kind with its nonce, if there is one for it. -/
def apply (nonce : Option Nonce) (k : TagKind) (element : Text) : Text :=
  match nonce.bind (·.forKind? k) with
  | some value => insert value element
  | none => element

end Stencil.Nonced
