import Stencil.Text.StandIn
import Stencil.Html.Element
import Stencil.Html.Escape

/-!
# Code

Code is written between back quotes, three of them for a block, and is shown as it stands.  It is
therefore turned into HTML before anything else is read in the text and replaced by a stand-in,
and so are the `pre` and `code` elements that are already there.  Blocks and code within a line
have stand-ins of their own, since the latter may begin a paragraph.

A part that is kept may hold stand-ins for parts kept before it, never for itself or a later one;
`restore` relies on that and fills the parts in their order.
-/

namespace Stencil.Code

/-- Stand-ins for blocks. -/
def block : StandIn := ⟨'\ue000', '\ue001'⟩

/-- Stand-ins for code within a line. -/
def inline : StandIn := ⟨'\ue002', '\ue003'⟩

def standIns : List StandIn := [block, inline]

/-- The characters of stand-ins, which are dropped from a text before it is read. -/
def isReserved (c : Char) : Bool := '\ue000' ≤ c && c ≤ '\ue003'

def fence : Text := ['\x60', '\x60', '\x60']

def isLanguageChar (c : Char) : Bool := isWord c || c == '$' || c == '-'

/-- Reads a block with a language on its first line: the language and the code below it. -/
def readLanguageBlock : Reader (Text × Text) := fun _ s => do
  let s ← Text.after? fence s
  let language := s.takeWhile isLanguageChar
  if language.isEmpty then none
  let s ← Text.after? ['\n'] ((s.dropWhile isLanguageChar).dropWhile isBlank)
  let (code, rest) ← Text.splitAtFirst? fence s
  return ((language, code), rest)

def readBlock : Reader Text := fun _ s => do
  let s ← Text.after? fence s
  Text.splitAtFirst? fence s

/-- The characters of code within a line. -/
def isInlineChar (c : Char) : Bool := c != '\x60' && c != '\n'

def readInline : Reader Text := fun _ s => do
  let s ← Text.after? ['\x60'] s
  let code := s.takeWhile isInlineChar
  if code.isEmpty then none
  let rest ← Text.after? ['\x60'] (s.dropWhile isInlineChar)
  return (code, rest)

def languageBlockHtml (language code : Text) : Text :=
  "<pre class=\"highlight\"><code lang=\"" ++ language ++ "\">" ++ escapeHtml code ++
    "</code></pre>"

/-- A block as HTML; a line feed directly after the mark is not part of the code. -/
def blockHtml (code : Text) : Text :=
  "<pre class=\"highlight\"><code>" ++ escapeHtml ((Text.after? ['\n'] code).getD code) ++
    "</code></pre>"

def inlineHtml (code : Text) : Text := "<code>" ++ escapeHtml code ++ "</code>"

/-- A text with stand-ins, and the parts that were taken out of it. -/
structure Protected where
  text : Text
  parts : List Text
  deriving DecidableEq, Repr

/-- Takes out what a reader finds. -/
def Protected.take {α : Type} (p : Protected) (kind : StandIn) (read : Reader α)
    (write : Text → α → Text) : Protected :=
  let (text, parts) := kind.place write p.parts.length (Text.scan read p.text)
  ⟨text, p.parts ++ parts⟩

def protect (s : Text) : Protected :=
  let p : Protected := ⟨s.filter fun c => !isReserved c, []⟩
  let p := p.take block (Element.read "pre") fun source _ => source
  let p := p.take block readLanguageBlock fun _ (language, code) => languageBlockHtml language code
  let p := p.take block readBlock fun _ code => blockHtml code
  let p := p.take inline (Element.read "code") fun source _ => source
  p.take inline readInline fun _ code => inlineHtml code

/-- The parts with the stand-ins in them filled; each part needs only the ones before it. -/
def filledParts (parts : List Text) : Array Text :=
  parts.foldl (fun filled part => filled.push (StandIn.fill standIns filled part)) #[]

def restore (parts : List Text) (s : Text) : Text := StandIn.fill standIns (filledParts parts) s

end Stencil.Code
