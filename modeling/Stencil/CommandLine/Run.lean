import Stencil.CommandLine.Help
import Stencil.Config.Load
import Stencil.Engine.Render
import Stencil.Json.Parse
import Stencil.Storage.Files

/-!
# Running a request

A request loads the configuration, sets the engine up, and renders or compiles one template.  The
outcome says what is printed and which files and variables it depends on, so that a program that
does not know them all can look them up and ask again.
-/

namespace Stencil.CommandLine

/-- Why a request could not be carried out. -/
inductive RequestError where
  | config (cause : ConfigError)
  | nonce (cause : UnknownTagKind)
  | render (cause : RenderError)
  | unreadable (cause : FileError)
  /-- The text of the context is not JSON. -/
  | malformedContext
  /-- The context is not a JSON object. -/
  | notObject
  /-- What sets a value has no key or no equals sign. -/
  | badAssignment (s : Text)
  deriving DecidableEq, Repr

namespace RequestError

def message : RequestError → Text
  | .config cause => cause.message
  | .nonce cause => "Invalid nonce table: " ++ cause.message
  | .render cause => cause.message
  | .unreadable cause => cause.message
  | .malformedContext => "Invalid context JSON: not a JSON value"
  | .notObject => "Render context must be a JSON object"
  | .badAssignment s => "Expected KEY=VALUE, got " ++ Text.quoted s

end RequestError

/-- What a program says beside its output. -/
inductive Message where
  | error (cause : RequestError)
  /-- How long a render took. -/
  | timing (template : Text)
  | compiled (id : Text)
  /-- How long the skeleton is. -/
  | size (bytes : Nat)
  /-- How many elements of a kind there are. -/
  | count (kind : TagKind) (n : Nat)
  deriving DecidableEq, Repr

/-- What only a run of the program can tell. -/
structure Measures where
  microseconds : Text
  storedBytes : Text

def Message.print (m : Measures) : Message → Text
  | .error cause => "Error: " ++ cause.message ++ "\n"
  | .timing template => "Rendered " ++ template ++ " in " ++ m.microseconds ++ "µs\n"
  | .compiled id => "Compiled " ++ id ++ "\n"
  | .size bytes =>
    "Skeleton: " ++ Text.ofNat bytes ++ " bytes (" ++ m.storedBytes ++ " compressed)\n"
  | .count kind n => "  " ++ kind.name ++ ": " ++ Text.ofNat n ++ "\n"

/-- What comes of a request. -/
structure Outcome where
  /-- Whether the request was carried out. -/
  succeeded : Bool
  output : Text := []
  messages : List Message := []
  /-- The paths at which templates were looked for. -/
  paths : List Text := []

/-- A text with a newline at its end. -/
def withNewline (s : Text) : Text := if s.getLast? = some '\n' then s else s ++ ['\n']

def engineConfig (c : Config) : Except UnknownTagKind (EngineConfig Unit) := do
  let nonce ← c.nonce.mapM NonceSetting.toNonce
  return {
    root := c.directory
    extension := c.extension
    layout := c.layout
    ttl := c.ttl.millis?
    sweepInterval := c.sweepInterval.millis?
    cacheEnabled := c.cacheEnabled
    nonce
    noLayout := c.noLayout
    compile := { assetsUrl := c.assetsUrl } }

/-- The key and the value that a text sets. -/
def assignment (s : Text) : Except RequestError (Text × Text) :=
  match Text.splitFirst? '=' s with
  | some (key, value) =>
    if Text.isSpaceOnly key then .error (.badAssignment s) else .ok (Text.trim key, value)
  | none => .error (.badAssignment s)

def parseContext (s : Text) : Except RequestError (Context Unit) :=
  match Json.parse? s with
  | none => .error .malformedContext
  | some v =>
    match Context.ofJson? v with
    | none => .error .notObject
    | some ctx => .ok ctx

def sourceContext (files : Files) : Option ContextSource → Except RequestError (Context Unit)
  | none => .ok .empty
  | some (.text s) => parseContext s
  | some (.file path) =>
    match files.readText path with
    | .error cause => .error (.unreadable cause)
    | .ok s => parseContext s

def assign (ctx : Context Unit) (s : Text) : Except RequestError (Context Unit) :=
  (assignment s).map fun (key, value) => ctx.set key (.coerced value)

def requestContext (files : Files) (r : Request) : Except RequestError (Context Unit) := do
  let ctx ← sourceContext files r.context
  r.assignments.foldlM assign ctx

/-- An engine's setting over templates in files. -/
def setting (templates : FileStorage) (engine : EngineConfig Unit) : Setting Unit :=
  ⟨engine, templates.read, 0⟩

def session (engine : EngineConfig Unit) : Session Unit :=
  { cache := { ttl := engine.ttl, enabled := engine.cacheEnabled }, tally := () }

def failed (cause : RequestError) : Outcome :=
  { succeeded := false, messages := [.error cause] }

def done (output : Text) (messages : List Message) : Outcome :=
  { succeeded := true, output := withNewline output, messages }

/-- The outcome with the paths of the templates that a session read. -/
def withPaths (templates : FileStorage) (st : Session Unit) (outcome : Outcome) : Outcome :=
  { outcome with paths := st.reads.filterMap fun id => (templates.path id).toOption }

def renderOutcome (r : Request) : Except RenderError Text → Outcome
  | .error e => failed (.render e)
  | .ok html => done html (if r.timing then [.timing r.template] else [])

def compiledMessages (id : Text) (a : Artifact) : List Message :=
  [.compiled id, .size (Text.byteSize a.skeleton)] ++
    TagKind.all.map fun k => .count k (a.tags.count k)

def compileOutcome (id : Text) : Except RenderError Artifact → Outcome
  | .error e => failed (.render e)
  | .ok a => done a.skeleton (compiledMessages id a)

def render (templates : FileStorage) (engine : EngineConfig Unit) (r : Request) : Outcome :=
  match requestContext templates.files r with
  | .error e => failed e
  | .ok ctx =>
    let (html, st) := (setting templates engine).render ctx r.template (session engine)
    withPaths templates st (renderOutcome r html)

def compile (templates : FileStorage) (engine : EngineConfig Unit) (r : Request) : Outcome :=
  let id := engine.templateId r.template
  let (artifact, st) := (setting templates engine).compileId .empty id (session engine)
  withPaths templates st (compileOutcome id artifact)

def run (around : Surroundings) (r : Request) : Outcome :=
  match Config.load around r.config (some r.overrides) with
  | .error e => failed (.config e)
  | .ok c =>
    match engineConfig c with
    | .error e => failed (.nonce e)
    | .ok engine =>
      let templates : FileStorage := ⟨around.files, c.directory, c.extension⟩
      match r.command with
      | .render => render templates engine r
      | .compile => compile templates engine r

/-- The paths of the files that a request needs beside templates. -/
def Request.paths (r : Request) (workingDirectory : List Text) : List Text :=
  let configs := match r.config with
    | some path => [path]
    | none => Config.candidates workingDirectory
  match r.context with
  | some (.file path) => configs ++ [path]
  | _ => configs

end Stencil.CommandLine
