import Stencil.Block.ItemList
import Stencil.Block.Line
import Stencil.Block.Paragraph
import Stencil.Block.Table
import Stencil.Form.Expand
import Stencil.Inline.BareUrl
import Stencil.Inline.Code
import Stencil.Inline.Embed
import Stencil.Inline.Emphasis
import Stencil.Inline.Link

/-!
# From shorthand to HTML

The shorthand is compiled by one replacement after another, each of the whole text.  Code is taken
out first and put back last.  The order matters: forms before emphasis, since names of controls
may hold marks; whole lines before links; lists and tables before paragraphs, which wrap what
is left.
-/

namespace Stencil

/-- The HTML of a text and the scripts that it needs. -/
structure Transformed where
  html : Text
  scripts : List ClientScript
  deriving DecidableEq, Repr

def beforeEmbeds (s : Text) : Text :=
  Line.rules (Line.quotations (Line.headings (Emphasis.emphasize (forms s))))

def fromEmbeds (s : Text) : Text := paragraphs (tables (itemLists (bareUrls (links (embeds s)))))

/-- Compiles the shorthand of a text. -/
def transform (s : Text) : Transformed :=
  let p := Code.protect s
  let lines := beforeEmbeds p.text
  ⟨Code.restore p.parts (fromEmbeds lines), embedScripts lines⟩

end Stencil
