import Stencil.Text.Scan
import Stencil.Html.EntityCode

/-!
# The normal form of a source

Before anything else is read in it, a template source gets line feeds as its only line ends, its
entity codes are expanded, and its comments are dropped: HTML comments anywhere, block comments
whose marks stand first on their lines, and line comments that stand alone on a line.
-/

namespace Stencil.Source

/-- Whether a place with this character before it begins a line. -/
def atLineStart (before : Option Char) : Bool := before.isNone || before == some '\n'

def afterCommentEnd? (s : Text) : Option Text :=
  (Text.splitAtFirst? "-->" s).map Prod.snd

def readHtmlComment : Reader Unit := fun _ s => do
  let s ← Text.after? "<!--" s
  let rest ← afterCommentEnd? s
  return ((), rest)

/-- What follows the first line start from which only blanks stand before the mark that ends a
block comment. -/
def afterBlockEnd? : Bool → Text → Option Text
  | true, s@(c :: t) =>
    match Text.after? "*/" (s.dropWhile isBlank) with
    | some rest => some rest
    | none => afterBlockEnd? (c == '\n') t
  | false, c :: t => afterBlockEnd? (c == '\n') t
  | _, [] => none

/-- Reads a block comment: its opening mark is the first thing on a line, and so is its closing
mark on a later one. -/
def readBlockComment : Reader Unit := fun before s => do
  if !atLineStart before then none
  let s ← Text.after? "/*" (s.dropWhile isBlank)
  let rest ← afterBlockEnd? false s
  return ((), rest)

/-- Reads a line that holds only a line comment, up to its end. -/
def readLineComment : Reader Unit := fun before s => do
  if !atLineStart before then none
  let s ← Text.after? "//" (s.dropWhile isBlank)
  return ((), s.dropWhile (· != '\n'))

def drop (read : Reader Unit) (s : Text) : Text := Text.substitute read (fun _ _ => []) s

/-- Drops the comments, kind by kind. -/
def stripComments (s : Text) : Text :=
  drop readLineComment (drop readBlockComment (drop readHtmlComment s))

/-- Line feeds for all line ends that are a carriage return and a line feed. -/
def unifyLineEnds (s : Text) : Text := Text.replace ['\r', '\n'] ['\n'] s

/-- The normal form of a source. -/
def normalize (s : Text) : Text := stripComments (EntityCode.expand (unifyLineEnds s))

end Stencil.Source
