import Stencil.Source.Normal
import Stencil.Tag.Extract
import Stencil.Template.ClientScript
import Stencil.Template.Transform

/-!
# Compiling a template

A template source is brought into normal form, its script, style, link and meta elements are taken
out, and the rest is compiled to HTML.  The result is a skeleton, which still holds the
placeholders for values and for the elements, and the table of the elements.
-/

namespace Stencil

structure Artifact where
  skeleton : Text
  tags : TagTable
  deriving DecidableEq, Repr

/-- How templates are compiled: the hooks for elements that are taken out, and the address from
which the browser gets scripts; without one they are written into the page. -/
structure CompileOptions where
  hooks : TagHooks := .none
  assetsUrl : Option Text := none

def ClientScript.element (assetsUrl : Option Text) (script : ClientScript) : Text :=
  match assetsUrl with
  | some url =>
    "<script src=\"" ++ Text.dropEndWhile (· == '/') url ++ "/" ++ script.fileName ++
      "\"></script>"
  | none => "<script>" ++ script.source ++ "</script>"

def pageEnd : Text := "</html>"

/-- Puts a placeholder on a line of its own before the tag that ends a page, or at the end. -/
def insertPlaceholder (html placeholder : Text) : Text :=
  match Text.endsWith (Text.trimEnd html) pageEnd, Text.splitAtLast? pageEnd html with
  | true, some (before, after) => before ++ placeholder ++ ['\n'] ++ pageEnd ++ after
  | _, _ =>
    if html.isEmpty ∨ html.getLast? = some '\n' then html ++ placeholder
    else html ++ ['\n'] ++ placeholder

/-- Adds the element for a script to the table, and its placeholder to the skeleton. -/
def Artifact.addScript (assetsUrl : Option Text) (a : Artifact) (script : ClientScript) :
    Artifact :=
  let tags := a.tags.push .script (script.element assetsUrl)
  ⟨insertPlaceholder a.skeleton (TagKind.script.placeholder (tags.count .script)), tags⟩

/-- What a template source is compiled to, if taking the elements out of it comes to an end. -/
def compile (options : CompileOptions) (source : Text) : Artifact :=
  let (skeleton, tags) := extract options.hooks (Source.normalize source)
  let transformed := transform skeleton
  transformed.scripts.foldl (Artifact.addScript options.assetsUrl) ⟨transformed.html, tags⟩

/-- Compiles a template source.  There is no artifact where reading the attributes of an open tag
never ends. -/
def compile? (options : CompileOptions) (source : Text) : Option Artifact :=
  if extractEnds (Source.normalize source) then some (compile options source) else none

end Stencil
