import Stencil.Cache.Clock
import Stencil.Engine.Render
import Stencil.Storage.Memory

/-!
# The engine

An engine holds templates, the cache of what it has compiled, and the present time.  Every operation
gives its result and the engine after it.
-/

namespace Stencil

structure Engine (σ : Type) where
  config : EngineConfig σ
  storage : MemoryStorage
  timed : TimedCache Artifact
  /-- Whether changes of templates drop their entries from the cache. -/
  watching : Bool := false
  tally : σ

namespace Engine

variable {σ : Type}

/-- An engine that has not done anything yet.  A sweeper runs if entries expire and the interval is
set. -/
def create (config : EngineConfig σ) (storage : MemoryStorage) (tally : σ) : Engine σ :=
  let timed : TimedCache Artifact :=
    { cache := { ttl := config.ttl, enabled := config.cacheEnabled } }
  let timed :=
    match config.ttl, config.sweepInterval with
    | some _, some interval => timed.startSweeper interval
    | _, _ => timed
  { config, storage, timed, tally }

/-- What a render depends on at the present time. -/
def setting (e : Engine σ) : Setting σ := ⟨e.config, e.storage.read, e.timed.now⟩

/-- What a render may change. -/
def session (e : Engine σ) : Session σ := ⟨e.timed.cache, [], e.tally⟩

def after (e : Engine σ) (st : Session σ) : Engine σ :=
  { e with
    timed := { e.timed with cache := st.cache }
    storage := { e.storage with reads := e.storage.reads + st.reads.length }
    tally := st.tally }

def withCache (e : Engine σ) (cache : Cache Artifact) : Engine σ :=
  { e with timed := { e.timed with cache := cache } }

def reads (e : Engine σ) : Nat := e.storage.reads

def templateId (e : Engine σ) (path : Text) : Text := e.config.templateId path

def compile (e : Engine σ) (ctx : Context σ) (path : Text) :
    Except RenderError Artifact × Engine σ :=
  let (r, st) := e.setting.compileId ctx (e.templateId path) e.session
  (r, e.after st)

/-- Renders the template at a path with the layout around it. -/
def render (e : Engine σ) (ctx : Context σ) (path : Text) : Except RenderError Text × Engine σ :=
  let (r, st) := e.setting.render ctx path e.session
  (r, e.after st)

/-- Renders the template at a path, with or without the layout; none if that fails. -/
def get (e : Engine σ) (ctx : Context σ) (path : Text) (skipLayout : Bool) :
    Option Text × Engine σ :=
  let (r, st) :=
    if skipLayout then e.setting.renderBare ctx path e.session
    else e.setting.render ctx path e.session
  (r.toOption, e.after st)

/-- Drops the cache entry of the template at a path; whether there was one. -/
def invalidate (e : Engine σ) (path : Text) : Bool × Engine σ :=
  let (existed, cache) := e.timed.cache.invalidate (e.templateId path)
  (existed, e.withCache cache)

def resetCache (e : Engine σ) : Engine σ := e.withCache e.timed.cache.reset

/-- In development mode the cache is bypassed. -/
def setDevelopment (e : Engine σ) (on : Bool) : Engine σ :=
  e.withCache (e.timed.cache.setEnabled !on)

def isDevelopment (e : Engine σ) : Bool := !e.timed.cache.enabled

def lookup (e : Engine σ) (id : Text) : Lookup Artifact × Engine σ :=
  let (found, cache) := e.timed.cache.get e.timed.now id
  (found, e.withCache cache)

/-- Drops the expired cache entries; how many there were. -/
def sweep (e : Engine σ) : Nat × Engine σ :=
  let cache := e.timed.cache.sweep e.timed.now
  (e.timed.cache.size - cache.size, e.withCache cache)

def wait (e : Engine σ) (ms : Nat) : Engine σ := { e with timed := e.timed.wait ms }

/-- Waits for an empty cache; whether it is. -/
def awaitEmpty (e : Engine σ) : Bool × Engine σ :=
  let (isEmpty, timed) := e.timed.awaitEmpty
  (isEmpty, { e with timed := timed })

/-- Begins or ends to drop the cache entries of templates that change. -/
def setWatching (e : Engine σ) (on : Bool) : Engine σ := { e with watching := on }

/-- Hears that a template has changed. -/
def handle (e : Engine σ) (event : Event) : Engine σ :=
  if e.watching then e.withCache (e.timed.cache.invalidate event.id).2 else e

def insertTemplate (e : Engine σ) (id source : Text) : Engine σ :=
  { e with storage := e.storage.insert id source }

def removeTemplate (e : Engine σ) (id : Text) : Engine σ :=
  { e with storage := e.storage.remove id }

end Engine

end Stencil
