import Stencil.Text.Word
import Stencil.Text.Scan
import Stencil.Html.Escape

/-!
# Bare URLs

A URL that stands in a text becomes a link to itself.  A URL directly after a quote, an equals
sign, a closing angle bracket or a word belongs to something else and stays.
-/

namespace Stencil

namespace BareUrl

def isHostChar (c : Char) : Bool := isWord c || c == '-' || c == '.'

/-- The signs that may end a URL. -/
def endSigns : List Char := ['@', '?', '^', '=', '%', '&', '/', '~', '+', '#', '-']

def isEndChar (c : Char) : Bool := isWord c || endSigns.contains c

/-- The characters after the host; some of them only between others. -/
def isTailChar (c : Char) : Bool := isEndChar c || c == '.' || c == ',' || c == ':'

def afterScheme? (s : Text) : Option Text :=
  (Text.after? "https://" s).or (Text.after? "http://" s)

def tail (s : Text) : Text := Text.dropEndWhile (fun c => !isEndChar c) (s.takeWhile isTailChar)

/-- Whether a character before a URL makes it part of something else. -/
def hides (c : Char) : Bool :=
  c == '"' || c == '\'' || c == '\x60' || c == '=' || c == '>' || c == '_' || isAlphanumeric c

/-- Reads a URL; the value says whether it becomes a link. -/
def read : Reader Bool := fun before s => do
  let s ← afterScheme? s
  if (s.takeWhile isHostChar).isEmpty then none
  let s := s.dropWhile isHostChar
  return (!before.any hides, s.drop (tail s).length)

def html (url : Text) : Text := "<a href=\"" ++ url ++ "\">" ++ escapeHtml url ++ "</a>"

end BareUrl

def bareUrls (s : Text) : Text :=
  Text.substitute BareUrl.read (fun url isLink => if isLink then BareUrl.html url else url) s

end Stencil
