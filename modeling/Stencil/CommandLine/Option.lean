import Stencil.Config.Lifetime

/-!
# The options of the command line

Each option has a long name, perhaps a letter, and a summary, and it takes a value or none.  Some
options belong to one command only.
-/

namespace Stencil.CommandLine

/-- What the program can be told to do with a template. -/
inductive Command where
  | render | compile
  deriving DecidableEq, Repr

inductive CommandOption where
  | context | contextFile | assignment | noLayout | timing
  | config | directory | layout | noCache | cacheTtl | verbose
  deriving DecidableEq, Repr

namespace Command

def name : Command → Text
  | .render => "render"
  | .compile => "compile"

def all : List Command := [.render, .compile]

def ofName? (s : Text) : Option Command := all.find? fun c => c.name = s

def summary : Command → Text
  | .render => "Render a template"
  | .compile => "Compile a template and show the result"

/-- What the template of a command is for. -/
def purpose : Command → Text
  | .render => "Template to render"
  | .compile => "Template to compile"

def commonOptions : List CommandOption :=
  [.config, .directory, .layout, .noCache, .cacheTtl, .verbose]

def options : Command → List CommandOption
  | .render => [.context, .contextFile, .assignment, .noLayout, .timing] ++ commonOptions
  | .compile => commonOptions

end Command

namespace CommandOption

/-- The long name of an option. -/
def name : CommandOption → Text
  | .context => "context"
  | .contextFile => "context-file"
  | .assignment => "set"
  | .noLayout => "no-layout"
  | .timing => "timing"
  | .config => "config"
  | .directory => "dir"
  | .layout => "layout"
  | .noCache => "no-cache"
  | .cacheTtl => "cache-ttl"
  | .verbose => "verbose"

def letter? : CommandOption → Option Char
  | .config => some 'c'
  | .directory => some 'd'
  | .layout => some 'l'
  | .verbose => some 'v'
  | _ => none

/-- What the value of an option is called; none if it takes no value. -/
def valueName? : CommandOption → Option Text
  | .context => some "CONTEXT"
  | .contextFile => some "CONTEXT_FILE"
  | .assignment => some "KEY=VALUE"
  | .config => some "CONFIG"
  | .directory => some "DIR"
  | .layout => some "LAYOUT"
  | .cacheTtl => some "CACHE_TTL"
  | .noLayout | .timing | .noCache | .verbose => none

def takesValue (o : CommandOption) : Bool := o.valueName?.isSome

/-- Whether the value of an option may look like an option. -/
def takesDash : CommandOption → Bool
  | .cacheTtl => true
  | _ => false

/-- Whether an option may be given more than once. -/
def isRepeatable : CommandOption → Bool
  | .assignment => true
  | _ => false

/-- Whether a text can be the value of an option: a path is not empty, and a time to live is a
lifetime. -/
def accepts (o : CommandOption) (value : Text) : Bool :=
  match o with
  | .config | .directory | .contextFile => !value.isEmpty
  | .cacheTtl => (Lifetime.parse? value).isSome
  | _ => true

def summary : CommandOption → Text
  | .context => "Render context as a JSON object"
  | .contextFile => "Read the render context from a JSON file"
  | .assignment => "Set a context value (repeatable). Values are parsed as JSON when possible"
  | .noLayout => "Do not wrap the output in the layout template"
  | .timing => "Report the render time in microseconds"
  | .config => "Path to configuration file (default: auto-discover imdl.toml)"
  | .directory => "Template directory (overrides config)"
  | .layout => "Layout template (overrides config)"
  | .noCache => "Bypass the compiled template cache"
  | .cacheTtl => "Cache TTL, e.g. \"30m\" or -1 for never (overrides config)"
  | .verbose => "Enable verbose output"

end CommandOption

namespace Command

def optionNamed? (c : Command) (name : Text) : Option CommandOption :=
  c.options.find? fun o => o.name = name

def optionLettered? (c : Command) (letter : Char) : Option CommandOption :=
  c.options.find? fun o => o.letter? = some letter

end Command

end Stencil.CommandLine
