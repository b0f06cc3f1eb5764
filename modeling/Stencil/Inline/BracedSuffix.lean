import Stencil.Inline.Markup

/-!
# Braces after a form

Links, embeds and form controls may be followed directly by text in braces, which names a window or
gives more attributes.
-/

namespace Stencil

/-- The text in braces at the start of a text, if there is one, and what follows. -/
def bracedSuffix (s : Text) : Option Text × Text :=
  match s with
  | '\x7b' :: t =>
    match Text.after? ['\x7d'] (t.dropWhile Markup.isPlaceholderChar) with
    | some rest => (some (t.takeWhile Markup.isPlaceholderChar), rest)
    | none => (none, s)
  | _ => (none, s)

/-- Attributes as they stand in a tag, after a blank; nothing if there are none. -/
def extraAttributes (attributes : Option Text) : Text :=
  match attributes with
  | some s => if (Text.trim s).isEmpty then [] else ' ' :: Text.trim s
  | none => []

end Stencil
