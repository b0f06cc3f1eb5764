import Stencil.Text.StandIn
import Stencil.Inline.Markup

/-!
# Emphasis

A phrase between equal marks on one line is emphasised: three, two or one asterisks, two
underscores, or two tildes.  The phrase has no such mark in it and neither begins nor ends with
white space, so that the mark of a list item is none.  Placeholders, tags and the targets of links
are taken out before and put back afterwards.
-/

namespace Stencil.Emphasis

/-- Stand-ins for what emphasis must not touch. -/
def standIn : StandIn := ⟨'\ue004', '\ue005'⟩

def isReserved (c : Char) : Bool := c == standIn.opening || c == standIn.closing

/-- What follows the target of a link, from the bracket that closes its text. -/
def afterTarget? (s : Text) : Option Text :=
  Markup.readBetween [']', '('] (fun c => c != '(' && c != ')') [')'] s

/-- Reads what emphasis must not touch. -/
def readSheltered : Reader Unit := fun _ s =>
  ((Markup.after? s).or (afterTarget? s)).map ((), ·)

/-- A way to emphasise: the character of the mark, how often it stands, and the tags. -/
structure Style where
  sign : Char
  times : Nat
  opening : Text
  closing : Text

def Style.mark (style : Style) : Text := List.replicate style.times style.sign

/-- The styles in the order in which they are read; longer marks go first. -/
def styles : List Style :=
  [ ⟨'*', 3, "<strong><em>", "</em></strong>"⟩, ⟨'*', 2, "<strong>", "</strong>"⟩,
    ⟨'*', 1, "<em>", "</em>"⟩, ⟨'_', 2, "<u>", "</u>"⟩, ⟨'~', 2, "<s>", "</s>"⟩ ]

/-- Whether a phrase may be emphasised: it is not empty, stays on its line, and begins and ends
with something to be seen. -/
def isPhrase (s : Text) : Bool :=
  match s.head?, s.getLast? with
  | some first, some last => !isSpace first && !isSpace last && !('\n' ∈ s)
  | _, _ => false

/-- Reads a phrase between the marks of a style. -/
def Style.read (style : Style) : Reader Text := fun _ s => do
  let s ← Text.after? style.mark s
  let phrase := s.takeWhile (· != style.sign)
  if !isPhrase phrase then none
  let rest ← Text.after? style.mark (s.dropWhile (· != style.sign))
  return (phrase, rest)

def Style.apply (style : Style) (s : Text) : Text :=
  Text.substitute style.read (fun _ phrase => style.opening ++ phrase ++ style.closing) s

def applyAll (s : Text) : Text := styles.foldl (fun s style => style.apply s) s

def emphasize (s : Text) : Text :=
  let (s, parts) := standIn.place (fun source _ => source) 0
    (Text.scan readSheltered (s.filter fun c => !isReserved c))
  StandIn.fill [standIn] parts.toArray (applyAll s)

end Stencil.Emphasis
