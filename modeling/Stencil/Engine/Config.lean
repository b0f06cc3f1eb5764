import Stencil.Context.Value
import Stencil.Storage.Error
import Stencil.Storage.Id
import Stencil.Template.Compile

/-!
# How an engine is set up

The configuration of an engine, the hooks that may change texts on their way, and the two ways in
which a render fails.
-/

namespace Stencil

/-- A hook may give another text in place of one, for a context and over the state of lazy
values. -/
abbrev SourceHook (σ : Type) := Text → Context σ → σ → Option Text × σ

namespace SourceHook

variable {σ : Type}

def none : SourceHook σ := fun _ _ t => (Option.none, t)

def apply (hook : SourceHook σ) (s : Text) (ctx : Context σ) (t : σ) : Text × σ :=
  let (r, t) := hook s ctx t
  (r.getD s, t)

end SourceHook

structure Hooks (σ : Type) where
  /-- Sees a source before it is compiled. -/
  beforeCompile : SourceHook σ := .none
  /-- Sees a skeleton before its placeholders are filled. -/
  beforeRender : SourceHook σ := .none
  /-- Sees a rendered page. -/
  afterRender : SourceHook σ := .none

/-- The configuration of an engine.  Times are in milliseconds. -/
structure EngineConfig (σ : Type) where
  /-- The directory that is dropped from paths. -/
  root : Text := []
  extension : Text := "imdl"
  /-- The path of the template around every page. -/
  layout : Option Text := none
  /-- The time to live in the cache; none for ever. -/
  ttl : Option Nat := some (2 * 60 * 60 * 1000)
  /-- The time between sweeps; none for no sweeper. -/
  sweepInterval : Option Nat := some (10 * 60 * 1000)
  cacheEnabled : Bool := true
  /-- The nonces of a page whose context has none. -/
  nonce : Option Nonce := none
  noLayout : Bool := false
  compile : CompileOptions := {}
  hooks : Hooks σ := {}

namespace EngineConfig

variable {σ : Type}

def templateId (config : EngineConfig σ) (path : Text) : Text :=
  logicalId config.root config.extension path

def layoutFor? (config : EngineConfig σ) (ctx : Context σ) : Option Text :=
  if ctx.noLayout || config.noLayout then none else config.layout

end EngineConfig

/-- Why a template could not be rendered. -/
inductive RenderError where
  /-- The template does not exist or is known not to be readable. -/
  | notFound (id : Text)
  /-- The template could not be read. -/
  | read (id : Text) (cause : StorageError)
  deriving DecidableEq, Repr

namespace RenderError

/-- The error for a template whose source could not be read. -/
def ofStorage (id : Text) (cause : StorageError) : RenderError :=
  if cause.isNotFound then .notFound id else .read id cause

def message : RenderError → Text
  | .notFound id => "Template not found: " ++ id
  | .read id cause => "Failed to read template " ++ id ++ ": " ++ cause.message

end RenderError

end Stencil
