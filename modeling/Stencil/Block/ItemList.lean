import Stencil.Text.Basic

/-!
# Lists of items

A line that begins with a sign or with a number and a period is an item.  Items that follow each
other with the same indentation and the same kind of mark form a list; lines that are indented
further belong to the item above them, and are read again without their common indentation, which
is how lists nest.  An empty line ends a list.
-/

namespace Stencil

namespace ItemList

/-- The kind of a mark: one of the signs, or numbers. -/
inductive Family where
  | bullet (sign : Char)
  | numbered
  deriving DecidableEq, Repr

/-- An item as its first line gives it. -/
structure Item where
  indent : Nat
  family : Family
  /-- The number of a numbered item, unless it is too large. -/
  number : Option Nat
  content : Text
  deriving DecidableEq, Repr

def indentOf (line : Text) : Nat := (line.takeWhile isBlank).length

/-- The content of an item: what follows the mark and at least one blank. -/
def content? (afterMark : Text) : Option Text :=
  match afterMark with
  | c :: s => if isBlank c then some (s.dropWhile isBlank) else none
  | [] => none

def isBullet (c : Char) : Bool := c == '-' || c == '*' || c == '+'

def item? (line : Text) : Option Item :=
  let s := line.dropWhile isBlank
  let digits := s.takeWhile isDigit
  match s with
  | [] => none
  | c :: rest =>
    if isBullet c then
      (content? rest).map fun content => ⟨indentOf line, .bullet c, none, content⟩
    else if digits.isEmpty then none
    else do
      let rest ← Text.after? ['.'] (s.dropWhile isDigit)
      let content ← content? rest
      return ⟨indentOf line, .numbered, Text.index? digits, content⟩

/-- Whether a line belongs to an item above it with this indentation. -/
def isBodyLine (indent : Nat) (line : Text) : Bool :=
  !Text.isSpaceOnly line && indent < indentOf line

/-- The item on a line, if it belongs to a list with this indentation and family. -/
def itemOf? (indent : Nat) (family : Family) (line : Text) : Option Item :=
  (item? line).filter fun item => item.indent = indent ∧ item.family = family

/-- The items of a list with the lines that belong to each, and the lines after the list. -/
def takeItems (indent : Nat) (family : Family) :
    (lines : List Text) → List (Item × List Text) × List Text
  | [] => ([], [])
  | line :: rest =>
    match itemOf? indent family line with
    | none => ([], line :: rest)
    | some item =>
      let body := rest.takeWhile (isBodyLine indent)
      let (items, after) := takeItems indent family (rest.dropWhile (isBodyLine indent))
      ((item, body) :: items, after)
termination_by lines => lines.length
decreasing_by
  have := (List.dropWhile_suffix (isBodyLine indent) (l := rest)).length_le
  simp only [List.length_cons]
  omega

/-- The lines without the indentation that all of them have. -/
def dedent (lines : List Text) : List Text :=
  let common := ((lines.map indentOf).min?).getD 0
  lines.map (List.drop common)

/-- An item as HTML, with the lines below it already compiled.  Lines that do not begin with a tag
begin a new line. -/
def itemHtml (content : Text) (body : List Text) : Text :=
  if body.isEmpty then "<li>" ++ content ++ "</li>"
  else
    let nested := Text.ofLines body
    let gap : Text := if nested.head? = some '<' then [] else ['\n']
    "<li>" ++ content ++ gap ++ nested ++ "</li>"

/-- Whether a list counts down: the second number is below the first. -/
def countsDown (items : List Item) : Bool :=
  match items.filterMap Item.number with
  | a :: b :: _ => b < a
  | _ => false

/-- A list as HTML, with its items already compiled. -/
def html (family : Family) (items : List Item) (compiled : List Text) : Text :=
  match family with
  | .bullet _ => "<ul>" ++ compiled.flatten ++ "</ul>"
  | .numbered =>
    let opening : Text := if countsDown items then "<ol reversed>" else "<ol>"
    opening ++ compiled.flatten ++ "</ol>"

/-- Compiles the lists in some lines, to a depth of `fuel` steps.  Each step is on fewer lines, so
that as many steps as there are lines are enough. -/
def compileLines : (fuel : Nat) → List Text → List Text
  | 0, lines => lines
  | _ + 1, [] => []
  | fuel + 1, line :: rest =>
    match item? line with
    | none => line :: compileLines fuel rest
    | some first =>
      let (items, after) := takeItems first.indent first.family (line :: rest)
      let compiled := items.map fun (item, body) =>
        itemHtml item.content (compileLines fuel (dedent body))
      html first.family (items.map Prod.fst) compiled :: compileLines fuel after

end ItemList

def itemLists (s : Text) : Text :=
  let lines := Text.lines s
  Text.ofLines (ItemList.compileLines lines.length lines)

end Stencil
