import Stencil.Text.Word
import Stencil.Inline.Link
import Stencil.Json.Quoted

/-!
# Embedded media

An embed is written like a link after an exclamation mark: the kind of the medium in brackets and
its sources in parentheses, one on a line.  The kind decides the family of elements.  A frame with
several sources tries them one after the other, for which the page needs a script.
-/

namespace Stencil

/-- A script that a page needs in the browser. -/
inductive ClientScript where
  /-- Takes a frame to its next source when one fails to load. -/
  | frameFallback
  deriving DecidableEq, Repr

inductive Medium where
  | image | video | audio | frame
  deriving DecidableEq, Repr

namespace Medium

/-- The kinds of each family. -/
def kinds : List (Text × Medium) :=
  [ ("img", .image), ("image", .image), ("png", .image), ("jpg", .image), ("jpeg", .image),
    ("svg", .image), ("gif", .image), ("ico", .image), ("webp", .image),
    ("vid", .video), ("video", .video), ("mp4", .video), ("wav", .video),
    ("audio", .audio), ("sound", .audio), ("mp3", .audio), ("ogg", .audio),
    ("iframe", .frame), ("embed", .frame), ("pdf", .frame) ]

def ofKind? (kind : Text) : Option Medium := kinds.lookup kind

def tag : Medium → Text
  | .image => "img"
  | .video => "video"
  | .audio => "audio"
  | .frame => "iframe"

/-- The first part of the media types of a family. -/
def typePrefix : Medium → Text
  | .image => "image"
  | .video => "video"
  | .audio => "audio"
  | .frame => "application"

/-- Kinds that name no media type. -/
def generalKinds : List Text := ["img", "image", "vid", "video", "audio", "sound"]

/-- The second part of a media type, for an extension. -/
def subtype (m : Medium) (extension : Text) : Text :=
  if m = .image ∧ extension = "jpg" then "jpeg"
  else if m = .image ∧ extension = "svg" then "svg+xml"
  else if m = .image ∧ extension = "ico" then "x-icon"
  else if m = .audio ∧ extension = "mp3" then "mpeg"
  else extension

/-- Whether a text begins a query or a fragment, or is empty. -/
def endsPath : Text → Bool
  | [] => true
  | c :: _ => c == '?' || c == '#'

/-- The extension of a source: the word after the first period that is the last thing before a
query, a fragment or the end. -/
def extension? : Text → Option Text
  | [] => none
  | c :: s =>
    let word := s.takeWhile isWord
    if c = '.' ∧ !word.isEmpty ∧ endsPath (s.dropWhile isWord) then some word
    else extension? s

/-- The media type of a source in an attribute; a source without an extension has that of the
kind, and a general kind has none. -/
def typeAttribute (m : Medium) (source kind : Text) : Text :=
  let extension := ((extension? source).map Text.lower).getD kind
  if generalKinds.contains extension then []
  else " type=\"" ++ m.typePrefix ++ "/" ++ m.subtype extension ++ "\""

end Medium

structure Embed where
  kind : Text
  sources : Text
  attributes : Option Text
  deriving DecidableEq, Repr

namespace Embed

def read : Reader Embed := fun _ s => do
  let s ← Text.after? ['!', '['] s
  let kind := s.takeWhile isBracketChar
  let s ← Text.after? [']', '('] (s.dropWhile isBracketChar)
  let sources := s.takeWhile isParenChar
  let s ← Text.after? [')'] (s.dropWhile isParenChar)
  let (attributes, rest) := bracedSuffix s
  return (⟨Text.lower (Text.trim kind), sources, attributes⟩, rest)

def medium? (e : Embed) : Option Medium := Medium.ofKind? e.kind

def sourceList (e : Embed) : List Text :=
  (((Text.lines e.sources).map Text.trim).filter fun s => !s.isEmpty).map Link.escapeQuotes

def attributeText (e : Embed) : Text := extraAttributes e.attributes

/-- One source in the list of a video or an audio. -/
def sourceHtml (m : Medium) (kind source : Text) : Text :=
  "<source src=\"" ++ source ++ "\"" ++ m.typeAttribute source kind ++ ">"

/-- One source of a picture. -/
def pictureSourceHtml (kind source : Text) : Text :=
  "<source srcset=\"" ++ source ++ "\"" ++ Medium.image.typeAttribute source kind ++ ">"

/-- Sources as an array in JSON, ready for an attribute between single quotes. -/
def sourceArray (sources : List Text) : Text :=
  let array := ['['] ++ Text.join [','] (sources.map Json.quoted) ++ [']']
  array.flatMap fun c => if c = '\'' then "&#39;" else [c]

def singleHtml (m : Medium) (source attributes : Text) : Text :=
  if m = .image then "<img src=\"" ++ source ++ "\"" ++ attributes ++ ">"
  else
    "<" ++ m.tag ++ " src=\"" ++ source ++ "\"" ++ attributes ++ "></" ++ m.tag ++ ">"

/-- An element with the source `first`, more sources in `others`, and `last` the last of all. -/
def severalHtml (m : Medium) (kind first : Text) (others : List Text) (last attributes : Text) :
    Text :=
  match m with
  | .image =>
    "<picture>" ++ (first :: others).flatMap (pictureSourceHtml kind) ++
      "<img src=\"" ++ last ++ "\"" ++ attributes ++ "></picture>"
  | .video | .audio =>
    "<" ++ m.tag ++ attributes ++ ">" ++ (first :: others).flatMap (sourceHtml m kind) ++
      "</" ++ m.tag ++ ">"
  | .frame =>
    "<iframe src=\"" ++ first ++ "\" srcFallback=\"0\" srcFallbackList='" ++ sourceArray others ++
      "'" ++ attributes ++ "></iframe>"

/-- An embed as HTML; an unknown kind or an embed without sources has none. -/
def html? (e : Embed) : Option Text :=
  match e.medium?, e.sourceList with
  | none, _ => none
  | some _, [] => none
  | some m, [source] => some (singleHtml m source e.attributeText)
  | some m, first :: second :: rest =>
    some (severalHtml m e.kind first (second :: rest) ((second :: rest).getLastD first)
      e.attributeText)

/-- Whether an embed is a frame that needs the fallback script. -/
def needsFallback (e : Embed) : Bool := e.medium? == some .frame && 2 ≤ e.sourceList.length

end Embed

def embeds (s : Text) : Text :=
  Text.substitute Embed.read (fun source e => e.html?.getD source) s

/-- The scripts that the embeds of a text need. -/
def embedScripts (s : Text) : List ClientScript :=
  if (Text.finds Embed.read s).any Embed.needsFallback then [.frameFallback] else []

end Stencil
