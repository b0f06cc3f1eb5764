import Stencil.Text.Scan
import Stencil.Tag.Attributes
import Stencil.Tag.OpenTag
import Stencil.Tag.Table

/-!
# Taking elements out of a source

Script, style, link and meta elements and the two shorthands `js` and `css` are cut out of a
source.  What is cut out does not depend on the hooks: `Captured.read` recognises an element, and
only then may a hook change the content that is stored for it.  A placeholder with the kind and the
number of the element takes its place.
-/

namespace Stencil

/-- An element that was recognised in a source: the kind it is stored under, its attributes, and
the stored text in three parts, of which a hook sees and may change the middle one. -/
structure Captured where
  kind : TagKind
  attrs : Attributes
  before : Text
  content : Text
  after : Text
  deriving DecidableEq, Repr

/-- A hook may give other content for a captured element of some kind. -/
abbrev TagHooks := TagKind → Text → Attributes → Option Text

def TagHooks.none : TagHooks := fun _ _ _ => Option.none

namespace Captured

def element (hooks : TagHooks) (tag : Captured) : Text :=
  tag.before ++ (hooks tag.kind tag.content tag.attrs).getD tag.content ++ tag.after

/-- The names that begin an element that is taken out. -/
def names : List Text :=
  ["script", "style", "link", "meta", "js", "css"]

/-- The name at the start of a text, with A to Z in lower case, and the rest. -/
def name? (s : Text) : Option (Text × Text) :=
  names.findSome? fun name =>
    (Text.afterFolded? foldLetter name s).map fun rest => (Text.lower (s.take name.length), rest)

/-- Whether a name ends before this text. -/
def endsName : Text → Bool
  | c :: _ => c == '>' || c == '/' || isTagSpace c
  | [] => false

def openTag (name raw : Text) : Text := ['<'] ++ name ++ raw ++ ['>']

def closingTag (name : Text) : Text := "</" ++ name ++ ['>']

/-- The attributes of a stylesheet link: `rel` is dropped, and `src` becomes `href` or is dropped
if there is an `href`. -/
def linkAttributes (attrs : Attributes) : Attributes :=
  (attrs.filter fun a =>
    !Text.sameLetters a.name "rel" &&
      !(Text.sameLetters a.name "src" && attrs.contains "href")).map fun a =>
    if Text.sameLetters a.name "src" then { a with name := "href" } else a

def stylesheetLink (attrs : Attributes) : Text :=
  "<link rel=\"stylesheet\"" ++ (linkAttributes attrs).print ++ ['>']

/-- Drops a closing tag without white space in it that stands at the very start. -/
def dropCloseTag (name s : Text) : Text :=
  (Text.afterFolded? Char.toLower (closingTag name) s).getD s

/-- The element whose open tag has this name and this text, and whose content begins at `s`. -/
def ofOpenTag? (name raw s : Text) : Option (Captured × Text) :=
  let attrs := Attributes.parse raw
  if name = "link" then
    some (⟨.link, attrs, [], openTag name raw, []⟩, s)
  else if name = "meta" then
    some (⟨.metadata, attrs, [], openTag name raw, []⟩, s)
  else if name = "js" ∧ attrs.contains "src" then
    let script := "script"
    some (⟨.script, attrs, openTag script raw, [], closingTag script⟩, dropCloseTag name s)
  else if name = "css" ∧
      (attrs.contains "href" ∨ attrs.contains "src") then
    some (⟨.link, attrs, [], stylesheetLink attrs, []⟩, dropCloseTag name s)
  else
    let kind := if name = "script" ∨ name = "js" then TagKind.script else .style
    (closeTag? name s).map fun (content, rest) =>
      (⟨kind, attrs, openTag kind.name raw, content, closingTag kind.name⟩, rest)

/-- Reads the open tag of an element: its name, the text between the name and the closing bracket,
and what follows the bracket. -/
def openTag? : Text → Option (Text × Text × Text)
  | '<' :: s => do
    let (name, s) ← name? s
    if !endsName s then none
    let (raw, s) ← openTagEnd? s
    some (name, raw, s)
  | _ => none

def read : Reader Captured := fun _ s => do
  let (name, raw, s) ← openTag? s
  ofOpenTag? name raw s

/-- Whether reading attributes ends in every open tag that stands at the beginning of a piece. -/
def tagsEnd : List (Piece Captured) → Bool
  | [] => true
  | piece :: pieces =>
    (openTag? ((piece :: pieces).flatMap Piece.source)).all (fun (_, raw, _) =>
      Attributes.ends raw) && tagsEnd pieces

/-- The skeleton made of the pieces of a source, and the table with their elements after those of
`table`. -/
def collect (hooks : TagHooks) : TagTable → List (Piece Captured) → Text × TagTable
  | table, [] => ([], table)
  | table, .plain c :: pieces =>
    let (skeleton, table) := collect hooks table pieces
    (c :: skeleton, table)
  | table, .found _ tag :: pieces =>
    let table := table.push tag.kind (tag.element hooks)
    let number := table.count tag.kind
    let (skeleton, table) := collect hooks table pieces
    (tag.kind.placeholder number ++ skeleton, table)

end Captured

/-- Takes the elements out of a source: the skeleton with their placeholders, and their table. -/
def extract (hooks : TagHooks) (source : Text) : Text × TagTable :=
  Captured.collect hooks .empty (Text.scan Captured.read source)

/-- Whether taking the elements out of a source comes to an end: reading the attributes of every
open tag that is met has to, also of those that are left. -/
def extractEnds (source : Text) : Bool := Captured.tagsEnd (Text.scan Captured.read source)

end Stencil
