import Stencil.Render.Nonced
import Stencil.Render.Parts
import Stencil.Tag.Table

/-!
# Putting elements back

Extracted elements come back in two sweeps over the text of the template.  First the wildcards: the
first one of a kind brings all elements of the kind.  Then the single placeholders, each of which
brings its element once, unless a wildcard has brought the kind.  A placeholder that brings nothing
vanishes.  Filled-in values are passed over by both sweeps.
-/

namespace Stencil

/-- Changes the template text among some parts, from left to right over a state. -/
def Part.mapTemplates {τ : Type} (f : Text → τ → Text × τ) : List Part → τ → List Part × τ
  | [], t => ([], t)
  | .template s :: parts, t =>
    let (s, t) := f s t
    let (parts, t) := mapTemplates f parts t
    (.template s :: parts, t)
  | .value s :: parts, t =>
    let (parts, t) := mapTemplates f parts t
    (.value s :: parts, t)

/-- The text made of some pieces, where what replaces the finds depends on a state. -/
def Text.ofPiecesWith {α τ : Type} (write : α → τ → Text × τ) : List (Piece α) → τ → Text × τ
  | [], t => ([], t)
  | .plain c :: pieces, t =>
    let (s, t) := ofPiecesWith write pieces t
    (c :: s, t)
  | .found _ value :: pieces, t =>
    let (r, t) := write value t
    let (s, t) := ofPiecesWith write pieces t
    (r ++ s, t)

namespace Wildcard

def dropBrace (brace : Char) (s : Text) : Text := (Text.after? [brace] s).getD s

/-- Reads a wildcard: the name of a kind after a dash, between two or three braces.  A name in
other letters than those from A to Z is of no kind. -/
def read : Reader (Option TagKind) := fun _ s => do
  let s ← Text.after? ['\x7b', '\x7b'] s
  let s ← Text.after? ['-'] (dropBrace '\x7b' s)
  let (name, s) ← TagKind.readName? s
  let rest ← Text.after? ['\x7d', '\x7d'] s
  return (TagKind.ofName? name, dropBrace '\x7d' rest)

/-- What a wildcard brings, and the kinds that wildcards have brought so far. -/
def write (tags : TagTable) (nonce : Option Nonce) (kind : Option TagKind) (spent : List TagKind) :
    Text × List TagKind :=
  match kind with
  | none => ([], spent)
  | some k =>
    if k ∈ spent then ([], spent)
    else (Text.join ['\n'] ((tags.entries k).map (Nonced.apply nonce k)), k :: spent)

def replace (tags : TagTable) (nonce : Option Nonce) (s : Text) (spent : List TagKind) :
    Text × List TagKind :=
  Text.ofPiecesWith (write tags nonce) (Text.scan read s) spent

end Wildcard

namespace Positional

/-- Reads the placeholder of a single element; none for one that names no kind or no number. -/
def read : Reader (Option (TagKind × Nat)) := fun _ s => do
  let s ← Text.after? ['<', '@'] s
  let (name, s) ← TagKind.readName? s
  let s ← Text.after? [':'] s
  let digits := s.takeWhile isDigit
  if digits.isEmpty then none
  let rest ← Text.after? ['>'] (s.dropWhile isDigit)
  return ((TagKind.ofName? name).bind fun k => (Text.index? digits).map (k, ·), rest)

/-- What the placeholder of a single element brings, and the elements asked for so far. -/
def write (tags : TagTable) (nonce : Option Nonce) (spent : List TagKind)
    (place : Option (TagKind × Nat)) (used : List (TagKind × Nat)) :
    Text × List (TagKind × Nat) :=
  match place with
  | none => ([], used)
  | some (k, n) =>
    if k ∈ spent ∨ (k, n) ∈ used then ([], used)
    else (((tags.get? k n).map (Nonced.apply nonce k)).getD [], (k, n) :: used)

def replace (tags : TagTable) (nonce : Option Nonce) (spent : List TagKind) (s : Text)
    (used : List (TagKind × Nat)) : Text × List (TagKind × Nat) :=
  Text.ofPiecesWith (write tags nonce spent) (Text.scan read s) used

end Positional

/-- Puts the elements of a table back into a page. -/
def reinsertTags (tags : TagTable) (nonce : Option Nonce) (parts : List Part) : Text :=
  let (parts, spent) := Part.mapTemplates (Wildcard.replace tags nonce) parts []
  let (parts, _) := Part.mapTemplates (Positional.replace tags nonce spent) parts []
  Part.join parts

end Stencil
