import Stencil.Text.Basic

/-!
# Attribute lines

A line with nothing but text between braces gives attributes to the block directly below it.
-/

namespace Stencil

/-- The text between the braces of a line that holds nothing else and no other brace. -/
def attributeLine? (line : Text) : Option Text :=
  match Text.trim line with
  | '\x7b' :: s =>
    match s.getLast? with
    | some '\x7d' =>
      let inner := s.dropLast
      if inner.any fun c => c == '\x7b' || c == '\x7d' then none else some (Text.trim inner)
    | _ => none
  | _ => none

/-- Attributes as they stand in the tag of a block; an attribute line without text gives none. -/
def blockAttributes (attributes : Text) : Text :=
  if attributes.isEmpty then [] else ' ' :: attributes

end Stencil
