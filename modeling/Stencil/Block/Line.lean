import Stencil.Text.Basic

/-!
# Lines that are a block of their own

Headings, quotations and rules take one line each; every other line stays as it is.
-/

namespace Stencil.Line

/-- The last of some blanks, which is the content of a mark that only blanks follow. -/
def lastBlank? (blanks : Text) : Option Text := blanks.getLast?.map fun c => [c]

/-- The level and the content of a heading: one to six hash signs, blanks, and the content without
the blanks at its end. -/
def heading? (line : Text) : Option (Nat × Text) :=
  let s := line.dropWhile isBlank
  let level := (s.takeWhile (· == '#')).length
  let s := s.dropWhile (· == '#')
  let blanks := s.takeWhile isBlank
  let content := s.dropWhile isBlank
  if level = 0 ∨ 6 < level ∨ blanks.isEmpty then none
  else if !content.isEmpty then some (level, Text.dropEndWhile isBlank content)
  else if blanks.length < 2 then none
  else (lastBlank? blanks).map (level, ·)

def headingHtml (level : Nat) (content : Text) : Text :=
  "<h" ++ Text.ofNat level ++ ">" ++ content ++ "</h" ++ Text.ofNat level ++ ">"

/-- The content of a quotation: what follows a closing angle bracket and blanks. -/
def quotation? (line : Text) : Option Text :=
  match line.dropWhile isBlank with
  | '>' :: s =>
    let content := s.dropWhile isBlank
    if content.isEmpty then lastBlank? (s.takeWhile isBlank) else some content
  | _ => none

def quotationHtml (content : Text) : Text := "<blockquote>" ++ content ++ "</blockquote>"

/-- Whether a line is a rule: three or more of one sign with nothing but blanks around. -/
def isRule (line : Text) : Bool :=
  let s := Text.dropEndWhile isBlank (line.dropWhile isBlank)
  3 ≤ s.length && ['-', '*', '_'].any fun sign => s.all (· == sign)

def mapLines (f : Text → Text) (s : Text) : Text := Text.ofLines ((Text.lines s).map f)

def headings (s : Text) : Text :=
  mapLines (fun line =>
    match heading? line with
    | some (level, content) => headingHtml level content
    | none => line) s

def quotations (s : Text) : Text :=
  mapLines (fun line =>
    match quotation? line with
    | some content => quotationHtml content
    | none => line) s

def rules (s : Text) : Text := mapLines (fun line => if isRule line then "<hr>" else line) s

end Stencil.Line
