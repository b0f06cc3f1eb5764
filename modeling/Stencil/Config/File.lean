import Stencil.Config.Lifetime
import Stencil.Context.Nonce
import Stencil.Toml.Parse

/-!
# What a configuration file says

The file has the sections `templates`, `cache` and `render`; all else in it is ignored.  A section
is a table, or an array of its values in order.  A value of another type than its setting takes
makes the whole file invalid.
-/

namespace Stencil

/-- A lifetime as it stands in a file. -/
inductive LifetimeSetting where
  | millis (ms : Int)
  | text (s : Text)
  deriving DecidableEq, Repr

namespace LifetimeSetting

/-- The lifetime; the default if the setting gives none. -/
def resolve (fallback : Lifetime) : LifetimeSetting → Lifetime
  | .millis ms => (Lifetime.ofMillis? ms).getD fallback
  | .text s => (Lifetime.parse? s).getD fallback

/-- The setting in a value: a whole number of 64 bits or a text. -/
def ofToml? : Toml → Option LifetimeSetting
  | .integer n =>
    if -(Nat.pow 2 63 : Nat) ≤ n ∧ n < (Nat.pow 2 63 : Nat) then some (.millis n) else none
  | .string s => some (.text s)
  | _ => none

end LifetimeSetting

inductive NonceSetting where
  /-- One for scripts. -/
  | single (value : Text)
  /-- One for each of some names of kinds, which are in order. -/
  | perKind (values : List (Text × Text))
  deriving DecidableEq, Repr

namespace NonceSetting

def kindOf (entry : Text × Text) : Except UnknownTagKind (TagKind × Text) :=
  (TagKind.ofName entry.1).map fun k => (k, entry.2)

/-- The nonces, if every name is that of a kind; otherwise the first that is not.  Of two names for
a kind the later one counts. -/
def toNonce : NonceSetting → Except UnknownTagKind Nonce
  | .single value => .ok (.single value)
  | .perKind values => (values.mapM kindOf).map fun entries => .perKind entries.reverse

def ofToml? (v : Toml) : Option NonceSetting :=
  match v.string?, v.members? with
  | some s, _ => some (.single s)
  | none, some members => do
    let values ← members.mapM fun (name, value) => value.string?.map (name, ·)
    return .perKind (values.mergeSort fun a b => Text.le a.1 b.1)
  | none, none => none

end NonceSetting

structure ConfigFile where
  directory : Option Text := none
  extension : Option Text := none
  layout : Option Text := none
  assetsUrl : Option Text := none
  cacheEnabled : Option Bool := none
  ttl : Option LifetimeSetting := none
  sweepInterval : Option LifetimeSetting := none
  nonce : Option NonceSetting := none
  noLayout : Bool := false
  deriving DecidableEq, Repr

namespace ConfigFile

/-- The value of a setting with some names, of which at most one may be used. -/
def memberOf? (members : Keyed Toml) (names : List Text) : Option (Option Toml) :=
  match names.filterMap (Keyed.get? members) with
  | [] => some none
  | [v] => some (some v)
  | _ => none

/-- The values of the settings of a section, each of which has some names. -/
def sectionValues? (settings : List (List Text)) (v : Toml) : Option (List (Option Toml)) :=
  match v.members?, v.elements? with
  | some members, _ => settings.mapM (memberOf? members)
  | none, some elements => some ((List.range settings.length).map (elements[·]?))
  | none, none => none

/-- The value of a setting, which may be missing but must not be wrong. -/
def setting? {α : Type} (read? : Toml → Option α) (v : Option Toml) : Option (Option α) :=
  match v with
  | none => some none
  | some v => (read? v).map some

def addTemplates? (file : ConfigFile) (v : Toml) : Option ConfigFile := do
  match ← sectionValues? [["dir"], ["extension"], ["layout", "template", "temp"],
      ["assets_url"]] v with
  | [directory, extension, layout, assetsUrl] =>
    let directory ← setting? Toml.string? directory
    let extension ← setting? Toml.string? extension
    let layout ← setting? Toml.string? layout
    let assetsUrl ← setting? Toml.string? assetsUrl
    return { file with directory, extension, layout, assetsUrl }
  | _ => none

def addCache? (file : ConfigFile) (v : Toml) : Option ConfigFile := do
  match ← sectionValues? [["enabled"], ["ttl"], ["sweep_interval"]] v with
  | [enabled, ttl, sweepInterval] =>
    let cacheEnabled ← setting? Toml.boolean? enabled
    let ttl ← setting? LifetimeSetting.ofToml? ttl
    let sweepInterval ← setting? LifetimeSetting.ofToml? sweepInterval
    return { file with cacheEnabled, ttl, sweepInterval }
  | _ => none

def addRender? (file : ConfigFile) (v : Toml) : Option ConfigFile := do
  match ← sectionValues? [["nonce"], ["no_layout"]] v with
  | [nonce, noLayout] =>
    let nonce ← setting? NonceSetting.ofToml? nonce
    let noLayout ← setting? Toml.boolean? noLayout
    return { file with nonce, noLayout := noLayout.getD false }
  | _ => none

/-- Adds what a section says, if it is there. -/
def addSection? (add? : ConfigFile → Toml → Option ConfigFile) (v : Option Toml)
    (file : ConfigFile) : Option ConfigFile :=
  match v with
  | none => some file
  | some v => add? file v

def ofToml? (members : Keyed Toml) : Option ConfigFile := do
  let file ← addSection? addTemplates? (Keyed.get? members "templates") {}
  let file ← addSection? addCache? (Keyed.get? members "cache") file
  addSection? addRender? (Keyed.get? members "render") file

def parse? (s : Text) : Option ConfigFile := (Toml.parse? s).bind ofToml?

end ConfigFile

end Stencil
