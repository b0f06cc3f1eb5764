import Stencil.Render.Placeholder

/-!
# Filling in values

The placeholders of a skeleton are filled from left to right.  One that cannot be filled stays as
it is.  What was filled in is kept apart from the text of the template, so that nothing in it is
ever read as a placeholder of any kind.
-/

namespace Stencil

inductive Part where
  /-- Text of the template. -/
  | template (s : Text)
  /-- Text that was filled in. -/
  | value (s : Text)
  deriving DecidableEq, Repr

def Part.text : Part → Text
  | .template s => s
  | .value s => s

def Part.join (parts : List Part) : Text := parts.flatMap Part.text

/-- Puts template text before some parts; it becomes one with template text there. -/
def Part.consTemplate (s : Text) : List Part → List Part
  | .template t :: parts => .template (s ++ t) :: parts
  | parts => if s.isEmpty then parts else .template s :: parts

/-- Where a page gets its texts from: values by name and templates by path, over some state. -/
structure Sources (τ : Type) where
  value : Text → τ → Option Text × τ
  template : Text → τ → Option Text × τ

variable {τ : Type}

/-- The text for a placeholder, if there is one. -/
def Placeholder.fill (p : Placeholder) (sources : Sources τ) (t : τ) : Option Text × τ :=
  match p.request? with
  | none => (none, t)
  | some (.template path) =>
    let (s, t) := sources.template path t
    (s.map p.escape, t)
  | some (.value name) =>
    let (s, t) := sources.value name t
    (s.map p.escape, t)
  | some (.attribute attr name quote) =>
    let (s, t) := sources.value name t
    (s.map fun s => attr ++ ['=', quote] ++ escapeAttr (p.escape s) ++ [quote], t)

/-- Fills the placeholders among some pieces. -/
def fillPieces (sources : Sources τ) : List (Piece Placeholder) → τ → List Part × τ
  | [], t => ([], t)
  | .plain c :: pieces, t =>
    let (parts, t) := fillPieces sources pieces t
    (Part.consTemplate [c] parts, t)
  | .found source p :: pieces, t =>
    let (s, t) := p.fill sources t
    let (parts, t) := fillPieces sources pieces t
    match s with
    | some s => (.value s :: parts, t)
    | none => (Part.consTemplate source parts, t)

def fillValues (sources : Sources τ) (skeleton : Text) (t : τ) : List Part × τ :=
  fillPieces sources (Text.scan Placeholder.read skeleton) t

end Stencil
