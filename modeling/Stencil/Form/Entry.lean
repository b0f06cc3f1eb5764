import Stencil.Text.Basic

/-!
# The values of a form control

The values of a control are written between braces and separated by commas.  A value may be
followed by a colon and the text to show for it, and by an asterisk that makes it the default.
Values in braces of their own, after a label, form a group.
-/

namespace Stencil.Form

/-- A value of a control. -/
structure Choice where
  value : Text
  display : Text
  isDefault : Bool
  deriving DecidableEq, Repr

/-- A value of a control, or a group of values. -/
inductive Entry where
  | single (choice : Choice)
  | group (label : Text) (choices : List Choice)
  deriving DecidableEq, Repr

def Entry.choices : Entry → List Choice
  | .single choice => [choice]
  | .group _ choices => choices

def consPart (c : Char) : List Text → List Text
  | [] => [[c]]
  | part :: parts => (c :: part) :: parts

/-- The parts between commas, where `depth` braces are open; a comma in braces does not count. -/
def splitTopFrom : (depth : Nat) → Text → List Text
  | _, [] => [[]]
  | depth, c :: s =>
    if c = ',' ∧ depth = 0 then [] :: splitTopFrom 0 s
    else if c = '\x7b' then consPart c (splitTopFrom (depth + 1) s)
    else if c = '\x7d' then consPart c (splitTopFrom (depth - 1) s)
    else consPart c (splitTopFrom depth s)

/-- The parts between commas outside braces, without white space around them and without the
empty ones. -/
def splitTop (s : Text) : List Text :=
  ((splitTopFrom 0 s).map Text.trim).filter fun part => !part.isEmpty

/-- The text without an asterisk at its end, and whether there was one. -/
def dropStar (s : Text) : Text × Bool :=
  if s.getLast? = some '*' then (Text.trimEnd s.dropLast, true) else (s, false)

/-- The choice that a part stands for, if it is more than an asterisk. -/
def Choice.parse? (part : Text) : Option Choice :=
  let (s, isDefault) := dropStar (Text.trim part)
  if s.isEmpty then none
  else match Text.splitFirst? ':' s with
    | some (value, display) => some ⟨Text.trim value, Text.trim display, isDefault⟩
    | none => some ⟨s, s, isDefault⟩

def isPlain (c : Char) : Bool := c != '\x7b' && c != '\x7d'

/-- The label of a group and the text between its braces. -/
def group? (part : Text) : Option (Text × Text) :=
  match part.dropWhile isPlain with
  | '\x7b' :: s =>
    if s.getLast? = some '\x7d' then some (Text.trim (part.takeWhile isPlain), s.dropLast)
    else none
  | _ => none

/-- The entry that a part stands for. -/
def Entry.parse? (part : Text) : Option Entry :=
  match group? part with
  | some (label, inner) => some (.group label ((splitTop inner).filterMap Choice.parse?))
  | none => (Choice.parse? part).map .single

/-- The entries between the braces of a control. -/
def Entry.parseAll (s : Text) : List Entry := (splitTop s).filterMap Entry.parse?

end Stencil.Form
