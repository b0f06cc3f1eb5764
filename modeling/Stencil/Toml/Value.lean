import Stencil.Keyed
import Stencil.Number.Binary64
import Stencil.Toml.Moment

/-!
# TOML values

A document is a table.  A table remembers how it came about, because that decides what may still be
added to it: a table under a header of its own, one that only longer headers imply, one that dotted
keys make up, an element of an array of tables.  A table written within braces is complete, and so
is an array within brackets.  A moment counts as a table that holds its text.
-/

namespace Stencil

inductive TomlFloat where
  | finite (negative : Bool) (magnitude : Magnitude)
  | infinite (negative : Bool)
  | nan
  deriving DecidableEq, Repr

/-- How a table that may grow came about. -/
inductive TableOrigin where
  /-- It has a header of its own. -/
  | header
  /-- The headers of tables within it imply it. -/
  | implied
  /-- Dotted keys make it up. -/
  | dotted
  /-- It is an element of an array of tables. -/
  | element
  deriving DecidableEq, Repr

inductive Toml where
  | string (s : Text)
  | integer (n : Int)
  | float (x : TomlFloat)
  | boolean (b : Bool)
  | moment (m : Moment)
  /-- An array within brackets. -/
  | array (elements : List Toml)
  /-- A table within braces. -/
  | inlineTable (members : List (Text × Toml))
  /-- A table that lines of the document make up. -/
  | table (origin : TableOrigin) (members : List (Text × Toml))
  /-- An array of tables, of which the last is being made up. -/
  | tables (elements : List (List (Text × Toml)))

namespace Toml

def string? : Toml → Option Text
  | .string s => some s
  | _ => none

def boolean? : Toml → Option Bool
  | .boolean b => some b
  | _ => none

/-- The name under which a moment holds its text. -/
def momentKey : Text := "$__toml_private_datetime"

/-- The members of a table of any kind, or of a moment. -/
def members? : Toml → Option (Keyed Toml)
  | .inlineTable members => some members
  | .table _ members => some members
  | .moment m => some [(momentKey, .string m.print)]
  | _ => none

/-- The elements of an array of any kind. -/
def elements? : Toml → Option (List Toml)
  | .array elements => some elements
  | .tables elements => some (elements.map (Toml.table .element))
  | _ => none

end Toml

end Stencil
