import Stencil.Text.Basic

/-!
# Escaping for HTML

Text that goes into a page as text has its angle brackets, braces and ampersands replaced by
entities; braces too, so that what is put into a page is never read as a placeholder again.  An
ampersand that already begins one of the entities written here stays, so that escaping twice is
the same as escaping once.
-/

namespace Stencil

/-- What may follow an ampersand that is left as it is. -/
def knownEntities : List Text :=
  ["amp;", "gt;", "lt;", "sol;", "bsol;", "lbrace;",
    "rbrace;"]

/-- Whether the text after an ampersand makes it a known entity. -/
def startsKnownEntity (s : Text) : Bool := knownEntities.any fun e => Text.startsWith s e

/-- Escapes a text for use as text of a page. -/
def escapeHtml : Text → Text
  | [] => []
  | '&' :: s => (if startsKnownEntity s then ['&'] else "&amp;") ++ escapeHtml s
  | '<' :: s => "&lt;" ++ escapeHtml s
  | '>' :: s => "&gt;" ++ escapeHtml s
  | '\x7b' :: s => "&lbrace;" ++ escapeHtml s
  | '\x7d' :: s => "&rbrace;" ++ escapeHtml s
  | c :: s => c :: escapeHtml s

/-- Replaces the entities that `escapeHtml` writes, one kind after the other and the ampersand
last. -/
def unescapeHtml (s : Text) : Text :=
  let s := Text.replace "&lt;" ['<'] s
  let s := Text.replace "&gt;" ['>'] s
  let s := Text.replace "&lbrace;" ['\x7b'] s
  let s := Text.replace "&rbrace;" ['\x7d'] s
  Text.replace "&amp;" ['&'] s

def escapeAttrChar (c : Char) : Text :=
  if c = '"' then "&quot;" else if c = '\'' then "&#39;" else [c]

/-- Escapes the value of an attribute between quotes of either kind. -/
def escapeAttr (s : Text) : Text := s.flatMap escapeAttrChar

end Stencil
