import Stencil.Inline.BracedSuffix
import Stencil.Html.Escape

/-!
# Links

A link is a text in brackets and a target in parentheses; a window may follow in braces.  The text
is escaped except for the placeholders and tags in it.  After an exclamation mark the same form is
an embed that was not recognised, and stays.
-/

namespace Stencil

/-- A link as written: its text, its target, and the name of a window if braces follow. -/
structure Link where
  text : Text
  target : Text
  window : Option Text
  /-- Whether an exclamation mark stands before it. -/
  afterBang : Bool
  deriving DecidableEq, Repr

/-- The characters between the brackets of a link or an embed. -/
def isBracketChar (c : Char) : Bool := c != '[' && c != ']' && c != '\n'

/-- The characters between the parentheses of an embed. -/
def isParenChar (c : Char) : Bool := c != '(' && c != ')'

namespace Link

def isTargetChar (c : Char) : Bool := isParenChar c && !isSpace c

def read : Reader Link := fun before s => do
  let s ← Text.after? ['['] s
  let text := s.takeWhile isBracketChar
  let s ← Text.after? [']', '('] (s.dropWhile isBracketChar)
  let target := s.takeWhile isTargetChar
  let s ← Text.after? [')'] (s.dropWhile isTargetChar)
  let (window, rest) := bracedSuffix s
  return (⟨text, target, window, before == some '!'⟩, rest)

/-- The windows with a short name; no name at all means a new one. -/
def windowNames : List (Text × Text) :=
  [([], "_blank"), ("_b", "_blank"), ("_s", "_self"), ("_p", "_parent"), ("_t", "_top")]

def windowName (s : Text) : Text := (windowNames.lookup s).getD s

/-- Escapes a text except for the placeholders and tags in it. -/
def escapeText (s : Text) : Text :=
  let (first, rest) := Text.parts (Text.scan Markup.read s)
  escapeHtml first ++ rest.flatMap fun ((markup, _), s) => markup ++ escapeHtml s

/-- A double quote in the target of a link or the source of an embed. -/
def escapeQuotes (s : Text) : Text := s.flatMap fun c => if c = '"' then "&quot;" else [c]

def windowAttribute (window : Option Text) : Text :=
  match window with
  | some name => " target=\"" ++ windowName (Text.trim name) ++ "\""
  | none => []

def html (link : Link) : Text :=
  "<a href=\"" ++ escapeQuotes link.target ++ "\"" ++ windowAttribute link.window ++ ">" ++
    escapeText link.text ++ "</a>"

end Link

def links (s : Text) : Text :=
  Text.substitute Link.read (fun source link => if link.afterBang then source else link.html) s

end Stencil
