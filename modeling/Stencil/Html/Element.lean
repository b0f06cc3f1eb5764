import Stencil.Text.Word
import Stencil.Text.Scan
import Stencil.Tag.Kind

/-!
# Whole elements in a text

An element that is taken as a whole: its open tag up to the first closing bracket, its content up
to the first closing tag with its name, and that closing tag.  Names are in letters of either case.
-/

namespace Stencil

/-- An element in three parts, as written. -/
structure Element where
  opening : Text
  content : Text
  closing : Text
  deriving DecidableEq, Repr

def startsWord : Text → Bool
  | c :: _ => isWord c
  | [] => false

/-- Reads a whole element with a name. -/
def Element.read (name : Text) : Reader Element := fun _ s => do
  let start := '<' :: name
  let finish := "</" ++ name ++ ">"
  let inside ← Text.afterFolded? foldLetter start s
  if startsWord inside then none
  let (attrs, body) ← Text.splitFirst? '>' inside
  let (content, rest) ← Text.splitWhere? (Text.afterFolded? foldLetter finish) body
  let opening := s.take start.length ++ attrs ++ ['>']
  let closing := (body.drop content.length).take finish.length
  return (⟨opening, content, closing⟩, rest)

end Stencil
