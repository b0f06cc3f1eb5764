import Stencil.Cache.Basic
import Stencil.Engine.Config
import Stencil.Render.Reinsert

/-!
# Rendering

A page is compiled or taken from the cache, its placeholders are filled, its elements put back, and
the layout is rendered around it.  Templates that a page includes are rendered in the same way but
without the layout, and may include others; below a depth of 32 no template is included any more,
which ends every cycle.  An include that fails leaves its placeholder in place.
-/

namespace Stencil

/-- What a render changes: the cache, the ids whose sources were read, and the state of lazy
values. -/
structure Session (σ : Type) where
  cache : Cache Artifact
  reads : List Text := []
  tally : σ

/-- What a render depends on and does not change: the configuration, the sources, the time. -/
structure Setting (σ : Type) where
  config : EngineConfig σ
  source : Text → Except StorageError Text
  now : Nat

variable {σ : Type}

namespace Session

def runHook (st : Session σ) (hook : SourceHook σ) (s : Text) (ctx : Context σ) :
    Text × Session σ :=
  let (s, tally) := hook.apply s ctx st.tally
  (s, { st with tally := tally })

def resolve (ctx : Context σ) (key : Text) (st : Session σ) : Option Text × Session σ :=
  let (s, tally) := ctx.resolve key st.tally
  (s, { st with tally := tally })

def lookup (st : Session σ) (now : Nat) (id : Text) : Lookup Artifact × Session σ :=
  let (found, cache) := st.cache.get now id
  (found, { st with cache := cache })

end Session

namespace Setting

def read (s : Setting σ) (id : Text) (st : Session σ) : Except StorageError Text × Session σ :=
  (s.source id, { st with reads := st.reads ++ [id] })

/-- Compiles what was read and stores the result; a source that could not be read is stored as
absent. -/
def store (s : Setting σ) (ctx : Context σ) (id : Text) (source : Except StorageError Text)
    (st : Session σ) : Except RenderError Artifact × Session σ :=
  match source with
  | .error e =>
    (.error (.ofStorage id e), { st with cache := st.cache.insertAbsent s.now id })
  | .ok source =>
    let (source, st) := st.runHook s.config.hooks.beforeCompile source ctx
    let artifact := Stencil.compile s.config.compile source
    (.ok artifact, { st with cache := st.cache.insert s.now id artifact })

/-- The compiled template with an id, from the cache or from its source. -/
def compileId (s : Setting σ) (ctx : Context σ) (id : Text) (st : Session σ) :
    Except RenderError Artifact × Session σ :=
  let (found, st) := st.lookup s.now id
  match found with
  | .hit artifact => (.ok artifact, st)
  | .absent => (.error (.notFound id), st)
  | .miss =>
    let (source, st) := s.read id st
    s.store ctx id source st

/-- Fills a compiled template, where `nested` renders the templates that it includes. -/
def fillArtifact (s : Setting σ) (nested : Text → Session σ → Option Text × Session σ)
    (ctx : Context σ) (artifact : Artifact) (st : Session σ) : Text × Session σ :=
  let (skeleton, st) := st.runHook s.config.hooks.beforeRender artifact.skeleton ctx
  let (parts, st) := fillValues ⟨Session.resolve ctx, nested⟩ skeleton st
  (reinsertTags artifact.tags (ctx.nonce.or s.config.nonce) parts, st)

/-- A template without the layout and before the last hook. -/
def page (s : Setting σ) (nested : Text → Session σ → Option Text × Session σ)
    (ctx : Context σ) (id : Text) (st : Session σ) : Except RenderError Text × Session σ :=
  match s.compileId ctx id st with
  | (.error e, st) => (.error e, st)
  | (.ok artifact, st) =>
    let (html, st) := s.fillArtifact nested ctx artifact st
    (.ok html, st)

def finish (s : Setting σ) (ctx : Context σ) :
    Except RenderError Text × Session σ → Except RenderError Text × Session σ
  | (.error e, st) => (.error e, st)
  | (.ok html, st) =>
    let (html, st) := st.runHook s.config.hooks.afterRender html ctx
    (.ok html, st)

/-- How deep templates may include each other. -/
def maxDepth : Nat := 32

/-- Renders the template that a page includes, where `room` more levels of includes are allowed. -/
def includePath (s : Setting σ) (ctx : Context σ) :
    (room : Nat) → Text → Session σ → Option Text × Session σ
  | 0 => fun _ st => (none, st)
  | room + 1 => fun path st =>
    let (r, st) := s.finish ctx (s.page (includePath s ctx room) ctx (s.config.templateId path) st)
    (r.toOption, st)

/-- A page at the outermost level, without the layout and before the last hook. -/
def outerPage (s : Setting σ) (ctx : Context σ) (path : Text) (st : Session σ) :
    Except RenderError Text × Session σ :=
  s.page (s.includePath ctx maxDepth) ctx (s.config.templateId path) st

/-- The key under which the layout finds the page. -/
def bodyKey : Text := "body"

/-- The context of the layout around a page: the page is a value in it, unless there is one. -/
def layoutContext (ctx : Context σ) (html : Text) : Context σ :=
  if ctx.contains bodyKey then ctx else ctx.set bodyKey (.literal (.string html))

def renderBare (s : Setting σ) (ctx : Context σ) (path : Text) (st : Session σ) :
    Except RenderError Text × Session σ :=
  s.finish ctx (s.outerPage ctx path st)

/-- Renders the template at a path with the layout around it. -/
def render (s : Setting σ) (ctx : Context σ) (path : Text) (st : Session σ) :
    Except RenderError Text × Session σ :=
  match s.outerPage ctx path st, s.config.layoutFor? ctx with
  | (.ok html, st), some layout =>
    s.finish ctx (s.renderBare (layoutContext ctx html) layout st)
  | r, _ => s.finish ctx r

end Setting

end Stencil
