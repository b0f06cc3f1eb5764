import Stencil.Config.Expansion
import Stencil.Config.File

/-!
# Configurations

The settings of an engine after the file, the defaults and the command line have had their say.  A
configuration is valid if its extension is bare, its layout has a name and its sweeper does not run
all the time; overrides replace single settings and leave all others alone.
-/

namespace Stencil

structure Config where
  /-- The directory of the templates. -/
  directory : Text
  /-- The extension of the templates, without the period. -/
  extension : Text := "imdl"
  /-- The template around every page. -/
  layout : Option Text := none
  /-- Where client scripts are served; they are put into the page if this is not set. -/
  assetsUrl : Option Text := none
  cacheEnabled : Bool := true
  ttl : Lifetime := .finite 7200000
  sweepInterval : Lifetime := .finite 600000
  nonce : Option NonceSetting := none
  noLayout : Bool := false
  /-- The file that the configuration comes from. -/
  file : Option Text := none
  deriving DecidableEq, Repr

/-- What makes a configuration invalid. -/
inductive ConfigFault where
  | emptyExtension
  | notBareExtension (extension : Text)
  | blankLayout
  | zeroSweepInterval
  deriving DecidableEq, Repr

namespace ConfigFault

def message : ConfigFault → Text
  | .emptyExtension => "templates.extension cannot be empty"
  | .notBareExtension extension =>
    "templates.extension must be a bare extension, got " ++ Text.quoted extension
  | .blankLayout => "templates.layout cannot be empty"
  | .zeroSweepInterval => "cache.sweep_interval cannot be 0"

end ConfigFault

/-- Settings that replace those of a configuration. -/
structure Overrides where
  directory : Option Text := none
  layout : Option Text := none
  cacheEnabled : Option Bool := none
  ttl : Option Lifetime := none
  noLayout : Option Bool := none
  deriving DecidableEq, Repr

/-- Whether an extension is part of a file's name and begins with no period. -/
def isBareExtension (extension : Text) : Bool :=
  extension.head? != some '.' && !extension.contains '/' && !extension.contains '\\'

namespace Config

def fault? (c : Config) : Option ConfigFault :=
  if c.extension.isEmpty then some .emptyExtension
  else if !isBareExtension c.extension then some (.notBareExtension c.extension)
  else if c.layout.any Text.isSpaceOnly then some .blankLayout
  else if c.sweepInterval = .finite 0 then some .zeroSweepInterval
  else none

def defaultDirectory : Text := "views"

/-- The configuration where there is no file, for templates below a directory. -/
def ofDefaults (base : Text) : Config := { directory := joinPath base defaultDirectory }

def override (c : Config) (o : Overrides) : Config :=
  { c with
    directory := o.directory.getD c.directory
    layout := o.layout.or c.layout
    cacheEnabled := o.cacheEnabled.getD c.cacheEnabled
    ttl := o.ttl.getD c.ttl
    noLayout := o.noLayout.getD c.noLayout }

/-- The configuration that a file gives, where its directory of templates is below `base`; the name
of a variable that it uses and that is not set. -/
def ofFile (env : Environment) (base : Text) (file : ConfigFile) : Except Text Config :=
  (env.expand (file.directory.getD defaultDirectory)).map fun directory =>
    let c : Config := { directory := joinPath base directory }
    { c with
      extension := file.extension.getD c.extension
      layout := file.layout
      assetsUrl := file.assetsUrl
      cacheEnabled := file.cacheEnabled.getD c.cacheEnabled
      ttl := (file.ttl.map (LifetimeSetting.resolve c.ttl)).getD c.ttl
      sweepInterval :=
        (file.sweepInterval.map (LifetimeSetting.resolve c.sweepInterval)).getD c.sweepInterval
      nonce := file.nonce
      noLayout := file.noLayout }

end Config

end Stencil
