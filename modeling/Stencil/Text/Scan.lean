import Stencil.Text.Basic

/-!
# Scanning a text for what a reader recognises

A reader looks at one place of a text and either recognises something that begins there or not.
`scan` walks through a text from the left, asks the reader at every place that no earlier find
covers, and so cuts the text into pieces: single characters and finds.  The sources of the pieces
always make up the text again (`sources_scan`), whatever the reader does; a stage that changes
its finds therefore changes nothing else.
-/

namespace Stencil

inductive Piece (α : Type) where
  /-- A character that no find covers. -/
  | plain (c : Char)
  /-- A find: the text it takes up and what the reader got out of it. -/
  | found (source : Text) (value : α)
  deriving DecidableEq, Repr

/-- The part of the text that a piece takes up. -/
def Piece.source {α : Type} : Piece α → Text
  | .plain c => [c]
  | .found source _ => source

/-- A reader is given the character before a place, if there is one, and the text from there on;
it answers with what it recognises there and with the rest of the text. -/
abbrev Reader (α : Type) := Option Char → Text → Option (α × Text)

namespace Text

/-- How many characters more a text has than another. -/
def excess : Text → Text → Nat
  | s, [] => s.length
  | [], _ :: _ => 0
  | _ :: s, _ :: t => excess s t

theorem excess_eq (s t : Text) : excess s t = s.length - t.length := by
  induction s generalizing t with
  | nil => cases t <;> simp [excess]
  | cons c s ih => cases t <;> simp [excess, ih]

/-- The pieces of a text from a place on, where the next `skip` characters belong to a find that
has already been reported.  A find takes up at least one character. -/
def scanFrom {α : Type} (read : Reader α) : Option Char → Nat → Text → List (Piece α)
  | _, _, [] => []
  | _, skip + 1, c :: s => scanFrom read (some c) skip s
  | before, 0, c :: s =>
    match read before (c :: s) with
    | none => .plain c :: scanFrom read (some c) 0 s
    | some (value, rest) =>
      let more := excess s rest
      .found (c :: s.take more) value :: scanFrom read (some c) more s

/-- The pieces of a text, with the leftmost finds, none of which overlap. -/
def scan {α : Type} (read : Reader α) (s : Text) : List (Piece α) := scanFrom read none 0 s

/-- The text made of the pieces, where each find is replaced by what `write` makes of its source
and its value. -/
def ofPieces {α : Type} (write : Text → α → Text) (pieces : List (Piece α)) : Text :=
  pieces.flatMap fun
    | .plain c => [c]
    | .found source value => write source value

/-- The text with every find replaced. -/
def substitute {α : Type} (read : Reader α) (write : Text → α → Text) (s : Text) : Text :=
  ofPieces write (scan read s)

def finds {α : Type} (read : Reader α) (s : Text) : List α :=
  (scan read s).filterMap fun
    | .plain _ => none
    | .found _ value => some value

/-- The text before the first find, and each find with its source and the text after it. -/
def parts {α : Type} : List (Piece α) → Text × List ((Text × α) × Text)
  | [] => ([], [])
  | .plain c :: pieces =>
    let (s, rest) := parts pieces
    (c :: s, rest)
  | .found source value :: pieces =>
    let (s, rest) := parts pieces
    ([], ((source, value), s) :: rest)

theorem sources_scanFrom {α : Type} (read : Reader α) (before : Option Char) (skip : Nat)
    (s : Text) : (scanFrom read before skip s).flatMap Piece.source = s.drop skip := by
  induction s generalizing before skip with
  | nil => simp [scanFrom]
  | cons c s ih =>
    cases skip with
    | succ k => simpa [scanFrom] using ih (some c) k
    | zero =>
      rw [scanFrom]
      split
      · simp [Piece.source, ih]
      · simp [Piece.source, ih, List.take_append_drop]

/-- The pieces of a text make up the text. -/
theorem sources_scan {α : Type} (read : Reader α) (s : Text) :
    (scan read s).flatMap Piece.source = s := by
  simp [scan, sources_scanFrom]

/-- Writing each find as it stood gives the text back. -/
theorem substitute_source {α : Type} (read : Reader α) (s : Text) :
    substitute read (fun source _ => source) s = s := by
  have h : ∀ pieces : List (Piece α),
      ofPieces (fun source _ => source) pieces = pieces.flatMap Piece.source := by
    intro pieces
    induction pieces with
    | nil => rfl
    | cons p ps ih => cases p <;> simp_all [ofPieces, Piece.source]
  rw [substitute, h, sources_scan]

end Text

end Stencil
