import Stencil.Text.Basic

/-!
# Open and closing tags

Where an open tag ends: at the first closing bracket outside a quoted value, where only a quote
directly after an equals sign opens a value.  And where an element ends: at the next closing tag
with its name.
-/

namespace Stencil

/-- Where a reader of an open tag stands. -/
inductive TagPlace where
  /-- Outside a quoted value; directly after an equals sign or not. -/
  | outside (afterEquals : Bool)
  /-- Inside a value that this quote closes. -/
  | inside (quote : Char)
  deriving DecidableEq, Repr

/-- Splits a text at the bracket that closes an open tag, as seen from a place. -/
def openTagEndFrom? : TagPlace → Text → Option (Text × Text)
  | _, [] => none
  | .outside afterEquals, c :: s =>
    if c = '>' then some ([], s)
    else
      let next :=
        if afterEquals && (c == '"' || c == '\'') then .inside c else .outside (c == '=')
      (openTagEndFrom? next s).map fun (raw, rest) => (c :: raw, rest)
  | .inside quote, '\\' :: c :: s =>
    (openTagEndFrom? (.inside quote) s).map fun (raw, rest) => ('\\' :: c :: raw, rest)
  | .inside quote, c :: s =>
    let next := if c = quote then .outside false else .inside quote
    (openTagEndFrom? next s).map fun (raw, rest) => (c :: raw, rest)

/-- The text between a tag's name and the bracket that closes the tag, and the rest. -/
def openTagEnd? (s : Text) : Option (Text × Text) := openTagEndFrom? (.outside false) s

/-- What follows a closing tag that begins a text.  White space may stand before its bracket. -/
def afterCloseTag? (name s : Text) : Option Text :=
  match Text.afterFolded? Char.toLower ("</" ++ name) s with
  | some rest => Text.after? ['>'] (Text.trimStart rest)
  | none => none

/-- Splits a text at the first closing tag with a name. -/
def closeTag? (name s : Text) : Option (Text × Text) := Text.splitWhere? (afterCloseTag? name) s

end Stencil
