import Stencil.Text.Word
import Stencil.Block.AttributeLine
import Stencil.Inline.Code

/-!
# Paragraphs

Lines in a row that begin like a text are a paragraph, unless a paragraph or a list item is still
open.  An attribute line directly above gives the attributes of the paragraph.
-/

namespace Stencil

namespace Paragraph

/-- The tags that a line of text may begin with. -/
def inlineTags : List Text := ["<strong>", "<em>", "<u>", "<s>", "<a "]

/-- Whether a line begins like a text: with a word character, a mark of emphasis, code, or the tag
of emphasis or of a link. -/
def startsText (line : Text) : Bool :=
  match line with
  | [] => false
  | c :: _ =>
    isWord c || c == '*' || c == '_' || c == '~' || c == Code.inline.opening ||
      inlineTags.any fun tag => Text.startsWith line tag

def occurrences (mark : Text) : Text → Nat
  | [] => 0
  | c :: s => (if Text.startsWith (c :: s) mark then 1 else 0) + occurrences mark s

/-- How often some texts occur in another, taken together. -/
def occurrencesOf (marks : List Text) (s : Text) : Nat :=
  marks.foldr (fun mark n => occurrences mark s + n) 0

def openingTags : List Text := ["<p>", "<p ", "<li>", "<li "]

def closingTags : List Text := ["</p>", "</li>"]

/-- How many paragraphs and items are open after a text, where `depth` are open before it. -/
def openAfter (depth : Nat) (s : Text) : Nat :=
  depth + occurrencesOf openingTags s - occurrencesOf closingTags s

def html (attributes : Text) (lines : List Text) : Text :=
  "<p" ++ attributes ++ ">" ++ Text.ofLines lines ++ "</p>"

/-- The attributes that a line gives to a paragraph below it. -/
def attributes? (line : Text) : Option Text := (attributeLine? line).filter fun s => !s.isEmpty

/-- Splits off the lines of text that some lines begin with, if there are any. -/
def split? (lines : List Text) : Option (List Text × List Text) :=
  let run := lines.takeWhile startsText
  if run.isEmpty then none else some (run, lines.dropWhile startsText)

theorem length_split? {lines run rest : List Text} (h : split? lines = some (run, rest)) :
    rest.length < lines.length := by
  simp only [split?] at h
  have hl := congrArg List.length (List.takeWhile_append_dropWhile (p := startsText) (l := lines))
  rw [List.length_append] at hl
  split at h
  · simp at h
  · next he =>
    simp only [Option.some.injEq, Prod.mk.injEq] at h
    have : (lines.takeWhile startsText).length ≠ 0 := by simpa using he
    rw [← h.2]
    omega

/-- Splits off the lines of a paragraph, if none is open. -/
def splitAt? (depth : Nat) (lines : List Text) : Option (List Text × List Text) :=
  if depth = 0 then split? lines else none

theorem length_splitAt? {depth : Nat} {lines run rest : List Text}
    (h : splitAt? depth lines = some (run, rest)) : rest.length < lines.length := by
  unfold splitAt? at h
  split at h
  · exact length_split? h
  · simp at h

/-- Wraps the paragraphs in some lines, where `depth` paragraphs and items are open before them. -/
def compileLines (depth : Nat) (lines : List Text) : List Text :=
  match lines with
  | [] => []
  | line :: rest =>
    match _h : splitAt? depth (line :: rest) with
    | some (run, after) => html [] run :: compileLines (openAfter 0 (Text.ofLines run)) after
    | none =>
      match attributes? line, _h' : splitAt? (openAfter depth line) rest with
      | some attributes, some (run, after) =>
        html (blockAttributes attributes) run ::
          compileLines (openAfter 0 (Text.ofLines run)) after
      | _, _ => line :: compileLines (openAfter depth line) rest
termination_by lines.length
decreasing_by
  · exact length_splitAt? _h
  · have := length_splitAt? _h'
    simp only [List.length_cons] at *
    omega
  · simp

end Paragraph

def paragraphs (s : Text) : Text := Text.ofLines (Paragraph.compileLines 0 (Text.lines s))

end Stencil
