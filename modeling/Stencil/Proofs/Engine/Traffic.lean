import Mathlib.Logic.Function.Basic
import Stencil.Proofs.Engine.Compilation
import Stencil.Proofs.Engine.Transparency

/-!
# Calls that overlap

Several callers may ask one engine for compiled templates at the same time.  A call looks the
template up in the cache; if it is not there, the call reads the source and then stores what it
compiles to.  Each of the three is done in one go, but other callers, changes of templates and the
handling of these changes may come between them.  A call that nothing comes between is
`Engine.compile` (`Call.run_asked`).

What one step can do is told once for each part of the state: the calls (`fetched_step`), the
changes that are not handled yet (`awaits_step`), what the cache should hold (`truth_step`) and what
it holds (`holds_step`).
-/

namespace Stencil

variable {σ α : Type}

namespace Cache

def Holds (c : Cache α) (id : Text) (payload : Option α) : Prop :=
  ∃ entry ∈ c.entries, entry.1 = id ∧ entry.2.payload = payload

variable {c : Cache α} {now : Nat} {id i : Text} {payload p : Option α}

/-- A look-up adds no entry. -/
theorem Holds.of_get (h : (c.get now i).2.Holds id payload) : c.Holds id payload := by
  obtain ⟨entry, member, named, paid⟩ := h
  unfold Cache.get at member
  split at member
  · exact ⟨entry, member, named, paid⟩
  · split at member
    · exact ⟨entry, member, named, paid⟩
    · next e found =>
      split at member
      · exact ⟨entry, (Keyed.mem_erase.mp member).1, named, paid⟩
      · rcases Keyed.mem_insert.mp member with rfl | ⟨old, -⟩
        -- The entry that was found holds what it held, it is only touched.
        · exact ⟨(i, e), Keyed.mem_of_get? found, named, paid⟩
        · exact ⟨entry, old, named, paid⟩

theorem Holds.of_invalidate (h : (c.invalidate i).2.Holds id payload) :
    c.Holds id payload ∧ id ≠ i := by
  obtain ⟨entry, member, rfl, paid⟩ := h
  obtain ⟨old, other⟩ := Keyed.mem_erase.mp member
  exact ⟨⟨entry, old, rfl, paid⟩, other⟩

theorem Holds.of_sweep (h : (c.sweep now).Holds id payload) : c.Holds id payload := by
  obtain ⟨entry, member, named, paid⟩ := h
  have kept : entry ∈ Keyed.keep c.entries fun e => !e.isExpired c.ttl now := member
  exact ⟨entry, (Keyed.mem_keep.mp kept).1, named, paid⟩

theorem Holds.of_store (on : c.enabled = true) (h : (c.store now i p).Holds id payload) :
    id = i ∧ payload = p ∨ id ≠ i ∧ c.Holds id payload := by
  obtain ⟨entry, member, rfl, paid⟩ := h
  rw [Cache.store, if_pos on] at member
  rcases Keyed.mem_insert.mp member with rfl | ⟨old, other⟩
  · exact .inl ⟨rfl, paid.symm⟩
  · exact .inr ⟨other, entry, old, rfl, paid⟩

end Cache

namespace TimedCache

variable {c : TimedCache α} {id : Text} {payload : Option α}

theorem holds_of_wait {ms : Nat} (h : (c.wait ms).cache.Holds id payload) :
    c.cache.Holds id payload := by
  unfold TimedCache.wait at h
  cases swept : c.sweeper with
  | none => simpa [swept] using h
  | some sweeper =>
    simp only [swept] at h
    split at h
    · exact h.of_sweep
    · exact h

theorem enabled_wait (c : TimedCache α) (ms : Nat) :
    (c.wait ms).cache.enabled = c.cache.enabled := by
  unfold TimedCache.wait
  cases c.sweeper with
  | none => rfl
  | some sweeper =>
    dsimp only
    split <;> rfl

end TimedCache

/-- A call for a compiled template, by what it has yet to do. -/
inductive Call (σ : Type) where
  /-- To look the template up. -/
  | asked (ctx : Context σ) (id : Text)
  /-- To read the source, since nothing was found. -/
  | missed (ctx : Context σ) (id : Text)
  /-- To compile and store what was read. -/
  | fetched (ctx : Context σ) (id : Text) (source : Except StorageError Text)

inductive Progress (σ : Type) where
  | goesOn (call : Call σ)
  | ends (result : Except RenderError Artifact)

def Progress.call? : Progress σ → Option (Call σ)
  | .goesOn call => some call
  | .ends _ => none

namespace Call

/-- The next step of a call. -/
def advance (e : Engine σ) : Call σ → Progress σ × Engine σ
  | .asked ctx id =>
    match e.lookup id with
    | (.hit artifact, e) => (.ends (.ok artifact), e)
    | (.absent, e) => (.ends (.error (.notFound id)), e)
    | (.miss, e) => (.goesOn (.missed ctx id), e)
  | .missed ctx id =>
    let (source, st) := e.setting.read id e.session
    (.goesOn (.fetched ctx id source), e.after st)
  | .fetched ctx id source =>
    let (result, st) := e.setting.store ctx id source e.session
    (.ends result, e.after st)

/-- Some steps of a call, one directly after the other; the result if it has ended. -/
def run : Nat → Call σ → Engine σ → Option (Except RenderError Artifact) × Engine σ
  | 0, _, e => (none, e)
  | steps + 1, call, e =>
    match call.advance e with
    | (.ends result, e) => (some result, e)
    | (.goesOn call, e) => run steps call e

/-- A call that nothing comes between compiles the template. -/
theorem run_asked (e : Engine σ) (ctx : Context σ) (path : Text) :
    (asked ctx (e.templateId path)).run 3 e =
      (some (e.compile ctx path).1, (e.compile ctx path).2) := by
  simp only [run, advance, Engine.compile, Setting.compileId, Session.lookup, Engine.lookup]
  rw [show e.session.cache = e.timed.cache from rfl, show e.setting.now = e.timed.now from rfl]
  obtain ⟨found, cache⟩ := e.timed.cache.get e.timed.now (e.templateId path)
  cases found with
  | hit artifact => rfl
  | absent => rfl
  | miss =>
    simp only [Setting.read, Setting.store]
    rw [show (e.withCache cache).setting.source = e.setting.source from rfl]
    cases e.setting.source (e.templateId path) with
    | error cause => rfl
    | ok source => rfl

/-- A look-up changes nothing but the cache. -/
theorem snd_advance_asked (e : Engine σ) (ctx : Context σ) (id : Text) :
    ((asked ctx id).advance e).2 = (e.lookup id).2 := by
  simp only [advance]
  obtain ⟨found, looked⟩ := e.lookup id
  cases found <;> rfl

/-- Without a hook before compilation, what is stored is what the source compiles to, or an absence
where it could not be read. -/
theorem cache_advance_fetched {e : Engine σ} (plain : e.config.hooks.beforeCompile = .none)
    (ctx : Context σ) (id : Text) (source : Except StorageError Text) :
    ((fetched ctx id source).advance e).2.timed.cache =
      e.timed.cache.store e.timed.now id
        (source.toOption.map (Stencil.compile e.config.compile)) := by
  cases source with
  | error cause => rfl
  | ok source =>
    simp only [advance, Setting.store, Session.runHook, Engine.setting, plain, SourceHook.apply,
      SourceHook.none, Option.getD_none]
    rfl

end Call

/-- What neither a call nor a change of a template changes about an engine. -/
structure Engine.Frame (e e' : Engine σ) : Prop where
  config : e'.config = e.config
  watching : e'.watching = e.watching
  enabled : e'.timed.cache.enabled = e.timed.cache.enabled

namespace Call

/-- A step of a call changes nothing about an engine but its cache and what it has read. -/
theorem frame_advance (e : Engine σ) (call : Call σ) : e.Frame (call.advance e).2 := by
  cases call with
  | asked ctx id =>
    rw [snd_advance_asked]
    exact ⟨rfl, rfl, Cache.enabled_get _ _ _⟩
  | missed ctx id => exact ⟨rfl, rfl, rfl⟩
  | fetched ctx id source =>
    refine ⟨rfl, rfl, ?_⟩
    cases source with
    | error cause => exact Cache.enabled_store _ _ _ _
    | ok source => exact Cache.enabled_store _ _ _ _

/-- Calls change no templates. -/
theorem truth_advance (e : Engine σ) (call : Call σ) : (call.advance e).2.truth = e.truth := by
  cases call with
  | asked ctx id =>
    rw [snd_advance_asked]
    rfl
  | missed ctx id => rfl
  | fetched ctx id source => rfl

end Call

/-- An engine that callers use side by side, and the changes that it has not heard of yet. -/
structure Traffic (σ : Type) where
  engine : Engine σ
  /-- The call of each caller, if there is one on the way. -/
  calls : Nat → Option (Call σ)
  pending : List Event

/-- Something that happens while an engine is in use. -/
inductive TrafficStep (σ : Type) where
  /-- A caller begins a call, unless it is in one. -/
  | call (caller : Nat) (ctx : Context σ) (path : Text)
  /-- The call of a caller does its next step. -/
  | advance (caller : Nat)
  /-- A template gets another source, or is taken away, and the change is reported. -/
  | change (event : Event) (source : Option Text)
  /-- The engine hears of a change. -/
  | handle (event : Event)
  /-- Time passes. -/
  | wait (ms : Nat)

/-- The caller whose call a step begins or continues. -/
def TrafficStep.caller? : TrafficStep σ → Option Nat
  | .call caller .. | .advance caller => some caller
  | .change .. | .handle _ | .wait _ => none

namespace Traffic

/-- An engine without templates in its cache that hears of changes, before the first call. -/
def start (config : EngineConfig σ) (storage : MemoryStorage) (tally : σ) : Traffic σ :=
  ⟨(Engine.create config storage tally).setWatching true, fun _ => none, []⟩

def step (t : Traffic σ) : TrafficStep σ → Traffic σ
  | .call caller ctx path =>
    if (t.calls caller).isSome then t
    else
      let call := Call.asked ctx (t.engine.templateId path)
      { t with calls := Function.update t.calls caller (some call) }
  | .advance caller =>
    match t.calls caller with
    | none => t
    | some call =>
      let (progress, e) := call.advance t.engine
      { t with engine := e, calls := Function.update t.calls caller progress.call? }
  | .change event (some source) =>
    { t with
      engine := t.engine.insertTemplate event.id source
      pending := t.pending ++ [event] }
  | .change event none =>
    { t with engine := t.engine.removeTemplate event.id, pending := t.pending ++ [event] }
  | .handle event =>
    if event ∈ t.pending then
      { t with engine := t.engine.handle event, pending := t.pending.erase event }
    else t
  | .wait ms => { t with engine := t.engine.wait ms }

def run (t : Traffic σ) (steps : List (TrafficStep σ)) : Traffic σ := steps.foldl step t

def truth (t : Traffic σ) (id : Text) : Option Artifact := t.engine.truth id

def Holds (t : Traffic σ) (id : Text) (payload : Option Artifact) : Prop :=
  t.engine.timed.cache.Holds id payload

def Awaits (t : Traffic σ) (id : Text) : Prop := ∃ event ∈ t.pending, event.id = id

def Handles (t : Traffic σ) (id : Text) (s : TrafficStep σ) : Prop :=
  ∃ event ∈ t.pending, event.id = id ∧ s = .handle event

def Changes (id : Text) (s : TrafficStep σ) : Prop :=
  ∃ event source, event.id = id ∧ s = .change event source

def Stores (t : Traffic σ) (id : Text) (s : TrafficStep σ) : Prop :=
  ∃ caller ctx source, t.calls caller = some (.fetched ctx id source) ∧ s = .advance caller

/-- The engine hears of changes, compiles sources as they are, and caches what it compiles. -/
structure InUse (t : Traffic σ) : Prop where
  plain : t.engine.config.hooks.beforeCompile = .none
  watching : t.engine.watching = true
  enabled : t.engine.timed.cache.enabled = true

variable {t : Traffic σ} {s : TrafficStep σ} {steps more : List (TrafficStep σ)} {id : Text}

theorem run_append (t : Traffic σ) (steps more : List (TrafficStep σ)) :
    t.run (steps ++ more) = (t.run steps).run more :=
  List.foldl_append

@[simp] theorem run_nil (t : Traffic σ) : t.run [] = t := rfl

@[simp] theorem run_cons (t : Traffic σ) (s : TrafficStep σ) (steps : List (TrafficStep σ)) :
    t.run (s :: steps) = (t.step s).run steps :=
  rfl

theorem run_concat (t : Traffic σ) (steps : List (TrafficStep σ)) (s : TrafficStep σ) :
    t.run (steps ++ [s]) = (t.run steps).step s := by
  rw [run_append]
  rfl

theorem step_advance_of_none {caller : Nat} (h : t.calls caller = none) :
    t.step (.advance caller) = t := by
  simp only [step, h]

theorem step_advance_of_some {caller : Nat} {call : Call σ} (h : t.calls caller = some call) :
    t.step (.advance caller) =
      ⟨(call.advance t.engine).2,
        Function.update t.calls caller (call.advance t.engine).1.call?, t.pending⟩ := by
  simp only [step, h]

/-- No step changes how an engine is set up. -/
theorem frame_step (t : Traffic σ) (s : TrafficStep σ) : t.engine.Frame (t.step s).engine := by
  have same : t.engine.Frame t.engine := ⟨rfl, rfl, rfl⟩
  cases s with
  | call caller ctx path =>
    simp only [step]
    split <;> exact same
  | advance caller =>
    cases calling : t.calls caller with
    | none => rwa [step_advance_of_none calling]
    | some call =>
      rw [step_advance_of_some calling]
      exact call.frame_advance t.engine
  | change event source => cases source <;> exact ⟨rfl, rfl, rfl⟩
  | handle event =>
    simp only [step, Engine.handle]
    split
    · split
      · exact ⟨rfl, rfl, rfl⟩
      · exact same
    · exact same
  | wait ms => exact ⟨rfl, rfl, TimedCache.enabled_wait _ ms⟩

theorem inUse_start {config : EngineConfig σ} (plain : config.hooks.beforeCompile = .none)
    (enabled : config.cacheEnabled = true) (storage : MemoryStorage) (tally : σ) :
    (start config storage tally).InUse where
  plain := plain
  watching := rfl
  enabled := by
    simp only [start, Engine.setWatching, Engine.create]
    split <;> exact enabled

theorem InUse.step (use : t.InUse) (s : TrafficStep σ) : (t.step s).InUse where
  plain := (frame_step t s).config ▸ use.plain
  watching := (frame_step t s).watching.trans use.watching
  enabled := (frame_step t s).enabled.trans use.enabled

theorem InUse.run (use : t.InUse) (steps : List (TrafficStep σ)) : (t.run steps).InUse := by
  induction steps generalizing t with
  | nil => exact use
  | cons s steps ih => exact ih (use.step s)

theorem config_run (t : Traffic σ) (steps : List (TrafficStep σ)) :
    (t.run steps).engine.config = t.engine.config := by
  induction steps generalizing t with
  | nil => rfl
  | cons s steps ih => rw [run_cons, ih, (frame_step t s).config]

/-- A step of one caller leaves the calls of the others alone. -/
theorem calls_step {caller : Nat} (other : s.caller? ≠ some caller) :
    (t.step s).calls caller = t.calls caller := by
  cases s with
  | call acting ctx path =>
    have differs : caller ≠ acting := fun same => other (congrArg some same.symm)
    simp only [step]
    split
    · rfl
    · exact Function.update_of_ne differs _ _
  | advance acting =>
    have differs : caller ≠ acting := fun same => other (congrArg some same.symm)
    cases calling : t.calls acting with
    | none => rw [step_advance_of_none calling]
    | some call =>
      rw [step_advance_of_some calling]
      exact Function.update_of_ne differs _ _
  | change event source => cases source <;> rfl
  | handle event =>
    simp only [step]
    split <;> rfl
  | wait ms => rfl

/-- A call that has a source in hand had it before, or has read it in this step after a miss. -/
theorem fetched_step {caller : Nat} {ctx : Context σ} {source : Except StorageError Text}
    (h : (t.step s).calls caller = some (.fetched ctx id source)) :
    t.calls caller = some (.fetched ctx id source) ∨
      t.calls caller = some (.missed ctx id) ∧ source = t.engine.storage.read id ∧
        s = .advance caller := by
  by_cases acting : s.caller? = some caller
  · cases s with
    | call other ctx' path =>
      obtain rfl := Option.some.inj acting
      simp only [step] at h
      split at h
      · exact .inl h
      · simp at h
    | advance other =>
      obtain rfl := Option.some.inj acting
      cases calling : t.calls other with
      | none => simp [step_advance_of_none calling, calling] at h
      | some call =>
        simp only [step_advance_of_some calling, Function.update_self] at h
        cases call with
        | asked ctx' id' =>
          simp only [Call.advance] at h
          split at h <;> simp [Progress.call?] at h
        | missed ctx' id' =>
          simp only [Call.advance, Progress.call?, Option.some.injEq, Call.fetched.injEq] at h
          obtain ⟨rfl, rfl, rfl⟩ := h
          exact .inr ⟨rfl, rfl, rfl⟩
        | fetched ctx' id' source' => simp [Call.advance, Progress.call?] at h
    | change event source => cases acting
    | handle event => cases acting
    | wait ms => cases acting
  · rw [calls_step acting] at h
    exact .inl h

/-- A change waits until it is handled. -/
theorem awaits_step (h : t.Awaits id) (unhandled : ¬t.Handles id s) : (t.step s).Awaits id := by
  obtain ⟨event, waits, named⟩ := h
  cases s with
  | call caller ctx path =>
    simp only [step]
    split <;> exact ⟨event, waits, named⟩
  | advance caller =>
    cases calling : t.calls caller with
    | none =>
      rw [step_advance_of_none calling]
      exact ⟨event, waits, named⟩
    | some call =>
      rw [step_advance_of_some calling]
      exact ⟨event, waits, named⟩
  | change other source =>
    cases source <;> exact ⟨event, List.mem_append_left _ waits, named⟩
  | handle other =>
    simp only [step]
    split
    · next known =>
      have differs : event ≠ other := by
        rintro rfl
        exact unhandled ⟨event, known, named, rfl⟩
      exact ⟨event, (List.mem_erase_of_ne differs).mpr waits, named⟩
    · exact ⟨event, waits, named⟩
  | wait ms => exact ⟨event, waits, named⟩

theorem awaits_of_changes (h : Changes id s) : (t.step s).Awaits id := by
  obtain ⟨event, source, named, rfl⟩ := h
  cases source <;> exact ⟨event, List.mem_append_right _ (List.mem_singleton_self event), named⟩

/-- What the cache should hold for an id stays what it is unless the template changes. -/
theorem truth_step (unchanged : ¬Changes id s) : (t.step s).truth id = t.truth id := by
  cases s with
  | call caller ctx path =>
    simp only [step]
    split <;> rfl
  | advance caller =>
    cases calling : t.calls caller with
    | none => rw [step_advance_of_none calling]
    | some call =>
      rw [step_advance_of_some calling]
      exact congrFun (call.truth_advance t.engine) id
  | change event source =>
    have other : id ≠ event.id := fun same => unchanged ⟨event, source, same.symm, rfl⟩
    cases source with
    | none => exact Engine.truth_removeTemplate _ other
    | some source => exact Engine.truth_insertTemplate _ source other
  | handle event =>
    simp only [step, Engine.handle]
    split
    · split <;> rfl
    · rfl
  | wait ms => rfl

/-- What the cache holds for an id it held before, or a call stores it in this step.  It holds
nothing for an id after a change of the id is handled. -/
theorem holds_step {payload : Option Artifact} (use : t.InUse)
    (h : (t.step s).Holds id payload) :
    t.Holds id payload ∧ ¬t.Handles id s ∧ ¬t.Stores id s ∨
      ∃ caller ctx source, t.calls caller = some (.fetched ctx id source) ∧ s = .advance caller ∧
        payload = source.toOption.map (Stencil.compile t.engine.config.compile) := by
  cases s with
  | call caller ctx path =>
    refine .inl ⟨?_, by simp [Handles], by simp [Stores]⟩
    simp only [step] at h
    split at h <;> exact h
  | advance caller =>
    have unhandled : ¬t.Handles id (.advance caller) := by simp [Handles]
    cases calling : t.calls caller with
    | none =>
      rw [step_advance_of_none calling] at h
      exact .inl ⟨h, unhandled, by simp [Stores, calling]⟩
    | some call =>
      rw [step_advance_of_some calling] at h
      cases call with
      | asked ctx id' =>
        rw [Holds, Call.snd_advance_asked] at h
        exact .inl ⟨Cache.Holds.of_get h, unhandled, by simp [Stores, calling]⟩
      | missed ctx id' => exact .inl ⟨h, unhandled, by simp [Stores, calling]⟩
      | fetched ctx id' source =>
        rw [Holds, Call.cache_advance_fetched use.plain] at h
        rcases h.of_store use.enabled with ⟨rfl, stored⟩ | ⟨other, old⟩
        · exact .inr ⟨caller, ctx, source, calling, rfl, stored⟩
        · exact .inl ⟨old, unhandled, by simp [Stores, calling, other.symm]⟩
  | change event source =>
    refine .inl ⟨?_, by simp [Handles], by simp [Stores]⟩
    cases source <;> exact h
  | handle event =>
    simp only [step] at h
    split at h
    · rw [Holds, Engine.handle, if_pos use.watching] at h
      obtain ⟨old, other⟩ := Cache.Holds.of_invalidate h
      exact .inl ⟨old, by simp [Handles, other.symm], by simp [Stores]⟩
    · next unknown => exact .inl ⟨h, by simp [Handles, unknown], by simp [Stores]⟩
  | wait ms =>
    exact .inl ⟨TimedCache.holds_of_wait h, by simp [Handles], by simp [Stores]⟩

end Traffic

end Stencil
