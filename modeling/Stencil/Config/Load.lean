import Stencil.Config.Basic
import Stencil.Files.Basic
import Stencil.Files.Path

/-!
# Loading a configuration

A configuration comes from a file that is named, from the nearest `imdl.toml` around the working
directory, or from the defaults.  It is checked when it is loaded, and again after settings have
been replaced.
-/

namespace Stencil

inductive ConfigError where
  | notFound (path : Text)
  | unreadable (cause : FileError)
  /-- The text of the file is not TOML, or a setting has the wrong type. -/
  | malformed
  /-- The directory of templates refers to a variable that is not set. -/
  | unsetVariable (name : Text)
  | invalid (fault : ConfigFault)
  deriving DecidableEq, Repr

namespace ConfigError

def message : ConfigError → Text
  | .notFound path => "Configuration file not found: " ++ path
  | .unreadable cause => "I/O error: " ++ cause.message
  | .malformed => "TOML parse error: not a valid configuration"
  | .unsetVariable name =>
    "Environment variable error in templates.dir: $\x7b" ++ name ++ "\x7d not set"
  | .invalid fault => "Configuration error: " ++ fault.message

end ConfigError

/-- What a program sees around it. -/
structure Surroundings where
  files : Files
  environment : Environment
  /-- The names that lead from the root to the working directory. -/
  workingDirectory : List Text

namespace Config

/-- The configuration, if it has no fault. -/
def checked (c : Config) : Except ConfigError Config :=
  match c.fault? with
  | some fault => .error (.invalid fault)
  | none => .ok c

def ofText (env : Environment) (path content : Text) : Except ConfigError Config :=
  match ConfigFile.parse? content with
  | none => .error .malformed
  | some file =>
    match ofFile env (directoryOf path) file with
    | .error name => .error (.unsetVariable name)
    | .ok c => checked { c with file := some path }

def loadFile (around : Surroundings) (path : Text) : Except ConfigError Config :=
  match around.files.readText path with
  | .error cause => .error (.unreadable cause)
  | .ok content => ofText around.environment path content

def fileName : Text := "imdl.toml"

/-- The paths at which a configuration file is looked for. -/
def candidates (workingDirectory : List Text) : List Text :=
  (enclosing workingDirectory).map fun directory => joinPath directory fileName

/-- The file that a configuration comes from: the one that is named, or else the first candidate
that is there. -/
def source? (around : Surroundings) (path : Option Text) : Option Text :=
  path.or ((candidates around.workingDirectory).find? around.files.contains)

/-- The configuration before settings are replaced: that of its file, or the defaults. -/
def loadBase (around : Surroundings) (path : Option Text) : Except ConfigError Config :=
  match source? around path with
  | some path =>
    if around.files.contains path then loadFile around path else .error (.notFound path)
  | none => .ok (ofDefaults (absolutePath around.workingDirectory))

def variableNames (around : Surroundings) (path : Option Text) : List Text :=
  let content := (source? around path).bind fun path => (around.files.readText path).toOption
  let directory := (content.bind ConfigFile.parse?).bind ConfigFile.directory
  "HOME" :: Environment.variableNames (directory.getD [])

/-- The configuration of a file, or of the defaults, with settings replaced. -/
def load (around : Surroundings) (path : Option Text) (overrides : Option Overrides) :
    Except ConfigError Config :=
  match loadBase around path, overrides with
  | .ok c, some o => checked (c.override o)
  | r, _ => r

end Config

end Stencil
