import Stencil.CommandLine.Option
import Stencil.Config.Basic

/-!
# Reading the arguments

The arguments are read from left to right.  The first thing that is wrong, or that asks for help,
decides; only then it is checked that nothing is missing.  An option's value is the rest of its
argument or the next argument, which must not look like an option unless the option allows that.
After two dashes nothing is an option.
-/

namespace Stencil.CommandLine

inductive HelpTopic where
  | program
  | command (c : Command)
  /-- The help command itself. -/
  | help
  deriving DecidableEq, Repr

/-- Why the arguments are no request. -/
inductive Stop where
  | wrongUsage
  | help (topic : HelpTopic)
  | version
  deriving DecidableEq, Repr

/-- What has been read of the arguments of a command. -/
structure Reading where
  template : Option Text := none
  /-- The options so far; one that takes no value has an empty one. -/
  given : List (CommandOption × Text) := []
  /-- The option whose value is to come. -/
  pending : Option CommandOption := none
  /-- Whether options are over. -/
  trailing : Bool := false
  deriving DecidableEq, Repr

namespace Reading

def take (r : Reading) (o : CommandOption) (value : Text) : Except Stop Reading :=
  if (r.given.any fun (p, _) => p = o) && !o.isRepeatable then .error .wrongUsage
  else if o.accepts value then .ok { r with given := r.given ++ [(o, value)], pending := none }
  else .error .wrongUsage

/-- Takes the template, of which there is one. -/
def takeTemplate (r : Reading) (s : Text) : Except Stop Reading :=
  match r.template, r.pending with
  | none, none => .ok { r with template := some s }
  | _, _ => .error .wrongUsage

/-- Takes an option with a long name, and the value behind its equals sign if there is one. -/
def takeNamed (c : Command) (r : Reading) (name : Text) (value : Option Text) :
    Except Stop Reading :=
  match c.optionNamed? name, value with
  | some o, some value => if o.takesValue then r.take o value else .error .wrongUsage
  | some o, none => if o.takesValue then .ok { r with pending := some o } else r.take o []
  | none, none => .error (if name = "help" then .help (.command c) else .wrongUsage)
  | none, some _ => .error .wrongUsage

/-- The value behind a letter in the same argument, with or without an equals sign. -/
def attachedValue (s : Text) : Text :=
  match s with
  | '=' :: value => value
  | _ => s

/-- Takes the options of some letters, of which the first that takes a value has the rest as its
value. -/
def takeLetters (c : Command) (r : Reading) : Text → Except Stop Reading
  | [] => .ok r
  | letter :: rest =>
    match c.optionLettered? letter with
    | none => .error (if letter = 'h' then .help (.command c) else .wrongUsage)
    | some o =>
      if !o.takesValue then
        match r.take o [] with
        | .ok r => takeLetters c r rest
        | .error e => .error e
      else if rest.isEmpty then .ok { r with pending := some o }
      else r.take o (attachedValue rest)

def splitNamed (s : Text) : Text × Option Text :=
  match Text.splitFirst? '=' s with
  | some (name, value) => (name, some value)
  | none => (s, none)

/-- Takes an argument where no value is to come. -/
def takeOption (c : Command) (r : Reading) (arg : Text) : Except Stop Reading :=
  match arg with
  | ['-', '-'] => .ok { r with trailing := true }
  | '-' :: '-' :: s => takeNamed c r (splitNamed s).1 (splitNamed s).2
  | '-' :: letter :: s => takeLetters c r (letter :: s)
  | _ => r.takeTemplate arg

/-- Whether an argument looks like an option; a single dash does not. -/
def looksLikeOption (arg : Text) : Bool := arg.head? == some '-' && arg != ['-']

def step (c : Command) (r : Reading) (arg : Text) : Except Stop Reading :=
  match r.pending with
  | some o =>
    if looksLikeOption arg && !o.takesDash then .error .wrongUsage else r.take o arg
  | none => if r.trailing then r.takeTemplate arg else takeOption c r arg

def values (r : Reading) (o : CommandOption) : List Text :=
  (r.given.filter fun (p, _) => p = o).map Prod.snd

def value? (r : Reading) (o : CommandOption) : Option Text := (r.values o).head?

def has (r : Reading) (o : CommandOption) : Bool := (r.value? o).isSome

end Reading

/-- Where the values of a page come from. -/
inductive ContextSource where
  | text (s : Text)
  | file (path : Text)
  deriving DecidableEq, Repr

/-- What a complete command line asks for. -/
structure Request where
  command : Command
  template : Text
  config : Option Text := none
  overrides : Overrides := {}
  context : Option ContextSource := none
  /-- The values that are set one by one. -/
  assignments : List Text := []
  timing : Bool := false
  verbose : Bool := false
  deriving DecidableEq, Repr

namespace Request

/-- Where the values come from, if not from two places. -/
def contextOf (r : Reading) : Except Stop (Option ContextSource) :=
  match r.value? .context, r.value? .contextFile with
  | some _, some _ => .error .wrongUsage
  | some s, none => .ok (some (.text s))
  | none, some path => .ok (some (.file path))
  | none, none => .ok none

/-- The settings that options replace. -/
def overridesOf (r : Reading) : Overrides :=
  { directory := r.value? .directory
    layout := r.value? .layout
    cacheEnabled := if r.has .noCache then some false else none
    ttl := (r.value? .cacheTtl).bind Lifetime.parse?
    noLayout := if r.has .noLayout then some true else none }

/-- What has been read, if nothing is missing or contradictory. -/
def ofReading (c : Command) (r : Reading) : Except Stop Request :=
  match r.template, r.pending, contextOf r with
  | some template, none, .ok context =>
    .ok
      { command := c
        template
        config := r.value? .config
        overrides := overridesOf r
        context
        assignments := r.values .assignment
        timing := r.has .timing
        verbose := r.has .verbose }
  | _, _, _ => .error .wrongUsage

def ofArguments (c : Command) (args : List Text) : Except Stop Request :=
  match args.foldlM (Reading.step c) {} with
  | .ok r => ofReading c r
  | .error e => .error e

/-- What help some names ask for. -/
def helpFor (names : List Text) : Stop :=
  match names with
  | [] => .help .program
  | [name] =>
    match Command.ofName? name with
    | some c => .help (.command c)
    | none => if name = "help" then .help .help else .wrongUsage
  | _ => .wrongUsage

/-- What an option before any command asks for. -/
def programOption (arg : Text) : Stop :=
  if arg = "--help" ∨ Text.startsWith arg "-h" then .help .program
  else if arg = "--version" ∨ Text.startsWith arg "-V" then .version
  else .wrongUsage

def parse (args : List Text) : Except Stop Request :=
  match args with
  | [] => .error .wrongUsage
  | name :: rest =>
    match Command.ofName? name with
    | some c => ofArguments c rest
    | none => .error (if name = "help" then helpFor rest else programOption name)

end Request

end Stencil.CommandLine
