import Stencil.Engine.Basic
import Stencil.Proofs.Engine.Agreement

/-!
# The cache is transparent

An engine works through any finite sequence of steps: it renders and compiles, entries of its cache
are dropped in all the ways there are, time passes, the cache is bypassed and put to use again, and
templates change.  A template that has changed is stale until its id is invalidated, by name, with
all others, or because its change is heard of; only while no template is stale may the engine
compile anything (`Engine.Reached`).

In every state that is reached without a stale template, a render gives what an engine that starts
with an empty cache over the same templates gives (`Engine.render_like_fresh`).  The invariant is
that every entry of an id that is not stale holds what its source compiles to, or an absence if it
has no readable source.
-/

namespace Stencil

variable {σ : Type}

inductive EngineStep (σ : Type) where
  | render (ctx : Context σ) (path : Text)
  | get (ctx : Context σ) (path : Text) (skipLayout : Bool)
  | compile (ctx : Context σ) (path : Text)
  | lookup (id : Text)
  | invalidate (path : Text)
  | resetCache
  | sweep
  | setDevelopment (on : Bool)
  | wait (ms : Nat)
  | awaitEmpty
  | setWatching (on : Bool)
  | handle (event : Event)
  | insertTemplate (id source : Text)
  | removeTemplate (id : Text)

def EngineStep.compiles : EngineStep σ → Bool
  | .render .. | .get .. | .compile .. => true
  | _ => false

namespace Engine

def step (e : Engine σ) : EngineStep σ → Engine σ
  | .render ctx path => (e.render ctx path).2
  | .get ctx path skipLayout => (e.get ctx path skipLayout).2
  | .compile ctx path => (e.compile ctx path).2
  | .lookup id => (e.lookup id).2
  | .invalidate path => (e.invalidate path).2
  | .resetCache => e.resetCache
  | .sweep => e.sweep.2
  | .setDevelopment on => e.setDevelopment on
  | .wait ms => e.wait ms
  | .awaitEmpty => e.awaitEmpty.2
  | .setWatching on => e.setWatching on
  | .handle event => e.handle event
  | .insertTemplate id source => e.insertTemplate id source
  | .removeTemplate id => e.removeTemplate id

/-- The ids that are stale after a step: those of templates that changed and were not invalidated
since. -/
def staleAfter (e : Engine σ) (stale : List Text) : EngineStep σ → List Text
  | .invalidate path => dropId (e.templateId path) stale
  | .resetCache => []
  | .handle event => if e.watching then dropId event.id stale else stale
  | .insertTemplate id _ => id :: stale
  | .removeTemplate id => id :: stale
  | _ => stale

/-- The engines that a finite run from an empty cache reaches, with the ids that are stale then,
where nothing is compiled while an id is stale. -/
inductive Reached (config : EngineConfig σ) : Engine σ → List Text → Prop where
  | create (storage : MemoryStorage) (tally : σ) : Reached config (create config storage tally) []
  | step {e : Engine σ} {stale : List Text} (s : EngineStep σ)
      (heeded : s.compiles → stale = []) (before : Reached config e stale) :
      Reached config (e.step s) (e.staleAfter stale s)

/-- An engine that has done nothing yet, over the same templates and with the lazy values in the
same state. -/
def fresh (e : Engine σ) : Engine σ := create e.config e.storage e.tally

variable {e : Engine σ} {stale : List Text} {config : EngineConfig σ}

@[simp] theorem config_step (e : Engine σ) (s : EngineStep σ) : (e.step s).config = e.config := by
  cases s with
  | handle event => simp only [step, handle]; split <;> rfl
  | _ => rfl

theorem Reached.config_eq (h : Reached config e stale) : e.config = config := by
  induction h with
  | create => rfl
  | step s _ _ ih => rw [config_step, ih]

def truth (e : Engine σ) : Text → Option Artifact := e.setting.truth

theorem truth_insertTemplate (e : Engine σ) {id i : Text} (source : Text) (other : i ≠ id) :
    (e.insertTemplate id source).truth i = e.truth i := by
  simp [truth, Setting.truth, setting, insertTemplate, MemoryStorage.insert, MemoryStorage.read,
    Keyed.get?_insert, other]

theorem truth_removeTemplate (e : Engine σ) {id i : Text} (other : i ≠ id) :
    (e.removeTemplate id).truth i = e.truth i := by
  simp [truth, Setting.truth, setting, removeTemplate, MemoryStorage.remove, MemoryStorage.read,
    Keyed.get?_erase, other]

/-- Each step keeps the entries of all ids that are not stale after it true to their sources. -/
theorem current_step (plain : e.config.hooks.beforeCompile = .none) (s : EngineStep σ)
    (heeded : s.compiles → stale = []) (h : e.timed.cache.Current e.truth stale) :
    (e.step s).timed.cache.Current (e.step s).truth (e.staleAfter stale s) := by
  have agree (none : stale = []) : Session.Agree e.setting.truth e.session e.session := by
    subst none
    exact ⟨rfl, h, h⟩
  cases s with
  | render ctx path =>
    obtain rfl := heeded rfl
    exact (Setting.agrees_render (t := e.timed.now) plain ctx path (agree rfl)).sessions.first
  | get ctx path skipLayout =>
    obtain rfl := heeded rfl
    cases skipLayout with
    | true =>
      exact (Setting.agrees_renderBare (t := e.timed.now) plain ctx path (agree rfl)).sessions.first
    | false =>
      exact (Setting.agrees_render (t := e.timed.now) plain ctx path (agree rfl)).sessions.first
  | compile ctx path =>
    obtain rfl := heeded rfl
    have current : e.session.cache.Current e.setting.truth [] := h
    exact (Setting.compileId_spec plain ctx (e.templateId path) current).2.2
  | lookup id => exact h.get e.timed.now id
  | invalidate path => exact h.invalidate (e.templateId path)
  | resetCache => exact Cache.current_reset e.timed.cache
  | sweep => exact h.sweep e.timed.now
  | setDevelopment on => exact h.setEnabled !on
  | wait ms => exact TimedCache.current_wait h ms
  | awaitEmpty => exact TimedCache.current_awaitEmpty h
  | setWatching on => exact h
  | handle event =>
    simp only [step, handle, staleAfter]
    split
    · exact h.invalidate event.id
    · exact h
  | insertTemplate id source =>
    exact h.of_truth_changed (fun _ => List.mem_cons_of_mem id)
      fun i known => truth_insertTemplate e source fun same => known (same ▸ List.mem_cons_self)
  | removeTemplate id =>
    exact h.of_truth_changed (fun _ => List.mem_cons_of_mem id)
      fun i known => truth_removeTemplate e fun same => known (same ▸ List.mem_cons_self)

theorem entries_create (config : EngineConfig σ) (storage : MemoryStorage) (tally : σ) :
    (create config storage tally).timed.cache.entries = [] := by
  unfold create
  cases config.ttl with
  | none => rfl
  | some ttl => cases config.sweepInterval <;> rfl

theorem Reached.current (plain : config.hooks.beforeCompile = .none)
    (h : Reached config e stale) : e.timed.cache.Current e.truth stale := by
  induction h with
  | create storage tally => exact Cache.current_of_empty (entries_create config storage tally)
  | step s heeded before ih => exact current_step (before.config_eq ▸ plain) s heeded ih

/-- The sessions of an engine and of its fresh twin agree while no template is stale. -/
theorem Reached.agree_fresh (plain : config.hooks.beforeCompile = .none)
    (h : Reached config e []) : Session.Agree e.setting.truth e.session e.fresh.session := by
  have empty : e.fresh.timed.cache.entries = [] := entries_create e.config e.storage e.tally
  exact ⟨rfl, h.current plain, Cache.current_of_empty empty⟩

/-- While no template is stale, a render or get gives what the fresh twin of the engine gives: the
same page, or a failure where the twin fails.  The failures tell that the same template cannot be
read, perhaps one of them as a known absence.  Lazy values go on alike in both. -/
theorem render_like_fresh (plain : config.hooks.beforeCompile = .none)
    (h : Reached config e []) (ctx : Context σ) (path : Text) :
    Alike e.storage.read (e.render ctx path).1 (e.fresh.render ctx path).1 ∧
      (e.render ctx path).2.tally = (e.fresh.render ctx path).2.tally ∧
      ∀ skipLayout, (e.get ctx path skipLayout).1 = (e.fresh.get ctx path skipLayout).1 ∧
        (e.get ctx path skipLayout).2.tally = (e.fresh.get ctx path skipLayout).2.tally := by
  have agree := h.agree_fresh plain
  have hook : e.setting.config.hooks.beforeCompile = .none := by
    rw [← h.config_eq] at plain
    exact plain
  have full := Setting.agrees_render (t := e.fresh.timed.now) hook ctx path agree
  have bare := Setting.agrees_renderBare (t := e.fresh.timed.now) hook ctx path agree
  refine ⟨full.alike, full.sessions.tally, ?_⟩
  intro skipLayout
  cases skipLayout with
  | true => exact ⟨bare.alike.toOption, bare.sessions.tally⟩
  | false => exact ⟨full.alike.toOption, full.sessions.tally⟩

/-- An engine that rendered a page, and heard that the page changed after that. -/
def withChangedPage : Engine Unit :=
  ((((create {} { templates := [("page", "old")] } ()).step (.setWatching true)).step
    (.render {} "page")).step (.insertTemplate "page" "new")).step (.handle ⟨"page", .modified⟩)

theorem reached_withChangedPage : Reached {} withChangedPage [] :=
  .step (.handle ⟨"page", .modified⟩) nofun <| .step (.insertTemplate "page" "new") nofun <|
    .step (.render {} "page") (fun _ => rfl) <| .step (.setWatching true) nofun <| .create _ ()

/-- After the change the page is rendered anew, as the fresh twin does it. -/
theorem render_withChangedPage :
    Alike withChangedPage.storage.read (withChangedPage.render {} "page").1
        (withChangedPage.fresh.render {} "page").1 ∧
      (withChangedPage.render {} "page").1.toOption = some "<p>new</p>" :=
  ⟨(render_like_fresh rfl reached_withChangedPage {} "page").1, by decide +kernel⟩

end Engine

end Stencil
