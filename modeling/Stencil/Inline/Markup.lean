import Stencil.Text.Scan

/-!
# Placeholders and tags in a line

The parts of a line that are markup already: placeholders for values, between two or three braces,
and HTML tags.  Neither crosses a line end.
-/

namespace Stencil.Markup

/-- The characters between the braces of a placeholder. -/
def isPlaceholderChar (c : Char) : Bool := c != '\x7b' && c != '\x7d' && c != '\n'

/-- Reads a run of characters between two marks. -/
def readBetween (opening : Text) (inner : Char → Bool) (closing s : Text) : Option Text := do
  let s ← Text.after? opening s
  Text.after? closing (s.dropWhile inner)

/-- What follows a placeholder; three braces are tried before two. -/
def afterPlaceholder? (s : Text) : Option Text :=
  (readBetween ['\x7b', '\x7b', '\x7b'] isPlaceholderChar ['\x7d', '\x7d', '\x7d'] s).or
    (readBetween ['\x7b', '\x7b'] isPlaceholderChar ['\x7d', '\x7d'] s)

def isTagChar (c : Char) : Bool := c != '<' && c != '>' && c != '\n'

def dropSlash : Text → Text
  | '/' :: s => s
  | s => s

/-- What follows a tag.  Its name begins with a letter, or with the sign that begins a placeholder
for an extracted element. -/
def afterTag? (s : Text) : Option Text := do
  let s ← Text.after? ['<'] s
  match dropSlash s with
  | c :: s =>
    if isAsciiLetter c || c == '@' then Text.after? ['>'] (s.dropWhile isTagChar) else none
  | [] => none

/-- What follows a placeholder or a tag. -/
def after? (s : Text) : Option Text := (afterPlaceholder? s).or (afterTag? s)

def read : Reader Unit := fun _ s => (after? s).map ((), ·)

end Stencil.Markup
