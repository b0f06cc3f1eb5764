import Stencil.Text.Word
import Stencil.Text.Upper
import Stencil.Form.Entry
import Stencil.Html.Escape

/-!
# Form controls as HTML

What a control looks like in HTML: its kind decides the element, its entries the values.
-/

namespace Stencil.Form

inductive ControlKind where
  | hidden
  | button (type : Text)
  | label
  | select
  | checkbox (required : Bool)
  | radio
  | textArea
  | dataList
  | input (type : Text)
  deriving DecidableEq, Repr

/-- The kind with a name; a name of no special kind is the type of an input. -/
def ControlKind.ofName (name : Text) : ControlKind :=
  if name = "hidden" ∨ name = "value" then .hidden
  else if name = "submit" ∨ name = "button" then .button name
  else if name = "label" then .label
  else if name = "select" then .select
  else if name = "checkbox" then .checkbox false
  else if name = "accept" then .checkbox true
  else if name = "radio" then .radio
  else if name = "textarea" ∨ name = "textbox" then .textArea
  else if name = "list" then .dataList
  else .input name

def onWords : List Text := ["true", "yes", "y", "on", "1", "checked"]

def offWords : List Text := ["false", "no", "n", "off", "0", "unchecked"]

/-- The text to show for a name: separators become blanks, and the first letter is upper case. -/
def derivedLabel (name : Text) : Text :=
  match name.map fun c => if c = '_' ∨ c = '-' then ' ' else c with
  | [] => []
  | c :: s => upperCase c ++ s

/-- The part of an id that stands for a value. -/
def idPart (value : Text) : Text :=
  value.map fun c => if isAlphanumeric c || c == '-' || c == '_' then c else '-'

/-- An attribute with an escaped value, after a blank. -/
def attr (name value : Text) : Text := [' '] ++ name ++ "=\"" ++ escapeAttr value ++ "\""

def flag (applies : Bool) (word : Text) : Text := if applies then ' ' :: word else []

def optionHtml (choice : Choice) : Text :=
  "<option value=\"" ++ escapeAttr choice.value ++ "\"" ++ flag choice.isDefault "selected" ++
    ">" ++ choice.display ++ "</option>"

def radioHtml (name attributes : Text) (choice : Choice) : Text :=
  let id := name ++ ['-'] ++ idPart choice.value
  "<input type=\"radio\" id=\"" ++ id ++ "\" name=\"" ++ escapeAttr name ++ "\"" ++
    attr "value" choice.value ++ flag choice.isDefault "checked" ++ attributes ++
    "><label for=\"" ++ id ++ "\">" ++ choice.display ++ "</label>"

def selectEntryHtml : Entry → Text
  | .single choice => optionHtml choice
  | .group label choices =>
    "<optgroup label=\"" ++ escapeAttr label ++ "\">" ++ choices.flatMap optionHtml ++
      "</optgroup>"

def radioEntryHtml (name attributes : Text) : Entry → Text
  | .single choice => radioHtml name attributes choice
  | .group label choices =>
    "<fieldset><legend>" ++ label ++ "</legend>" ++
      choices.flatMap (radioHtml name attributes) ++ "</fieldset>"

/-- A checkbox with its label as HTML.  A first choice that is a word for on or off sets the state;
any other gives the value and the label. -/
def checkboxHtml (required : Bool) (name attributes : Text) (first : Option Choice) : Text :=
  let n := escapeAttr name
  let word := (first.map fun c => Text.lower c.value).getD []
  let isOn := first.isSome && onWords.contains word
  let isState := isOn || offWords.contains word
  let checked := isOn || first.any Choice.isDefault
  let (value, label) : Text × Text :=
    match first with
    | some c => if isState then ([], derivedLabel name) else (attr "value" c.value, c.display)
    | none => ([], derivedLabel name)
  "<input type=\"checkbox\" id=\"" ++ n ++ "\" name=\"" ++ n ++ "\"" ++ value ++
    flag checked "checked" ++ flag required "required" ++ attributes ++ "><label for=\"" ++ n ++
    "\">" ++ label ++ "</label>"

/-- The text to show for a control with an optional first choice. -/
def shownLabel (name : Text) (first : Option Choice) : Text :=
  (first.map Choice.display).getD (derivedLabel name)

/-- The placeholder of a control: what is shown for the first choice that is not the default. -/
def placeholderAttribute (choices : List Choice) : Text :=
  ((choices.find? fun c => !c.isDefault).map fun c => attr "placeholder" c.display).getD []

/-- The id and the name of a control. -/
def nameAndId (name : Text) : Text := attr "name" name ++ attr "id" name

def ControlKind.html (kind : ControlKind) (name : Text) (entries : List Entry)
    (attributes : Text) : Text :=
  let choices := entries.flatMap Entry.choices
  let first := choices.head?
  let default? := choices.find? Choice.isDefault
  let n := escapeAttr name
  match kind with
  | .hidden =>
    let value := ((default?.or first).map Choice.value).getD []
    "<input type=\"hidden\"" ++ attr "name" name ++ attr "value" value ++ attributes ++ ">"
  | .button type =>
    "<button type=\"" ++ type ++ "\"" ++ attr "name" name ++ attributes ++ ">" ++
      shownLabel name first ++ "</button>"
  | .label =>
    "<label" ++ attr "for" name ++ attributes ++ ">" ++ shownLabel name first ++ "</label>"
  | .select =>
    "<select" ++ nameAndId name ++ attributes ++ ">" ++ entries.flatMap selectEntryHtml ++
      "</select>"
  | .checkbox required => checkboxHtml required name attributes first
  | .radio => entries.flatMap (radioEntryHtml name attributes)
  | .textArea =>
    "<textarea" ++ nameAndId name ++ placeholderAttribute choices ++ attributes ++ ">" ++
      (default?.map Choice.display).getD [] ++ "</textarea>"
  | .dataList =>
    "<input list=\"" ++ n ++ "-list\"" ++ nameAndId name ++ attributes ++ "><datalist id=\"" ++ n ++
      "-list\">" ++ choices.flatMap optionHtml ++ "</datalist>"
  | .input type =>
    let value := (default?.map fun c => attr "value" c.value).getD []
    "<input type=\"" ++ type ++ "\"" ++ nameAndId name ++ value ++ placeholderAttribute choices ++
      attributes ++ ">"

end Stencil.Form
