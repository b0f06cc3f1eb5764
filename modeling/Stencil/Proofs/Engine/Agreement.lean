import Stencil.Proofs.Cache.Current
import Stencil.Proofs.Engine.Simulation

/-!
# Renders that start from different caches

Two renders of the same path, in the same context, from the same sources and with the lazy values
in the same state, may start from different caches and at different times.  If both caches are
current, the renders agree (`Setting.agrees_render`): they succeed with the same page, or both fail
because the same template cannot be read.  Only how the failure is told may differ, since a failure
that the cache knows of is told as an absence.

Only one function looks at a cache, and its lemma (`Setting.compileId_spec`) is the only place at
which the content of a cache matters.  Everything above it is carried by the relation between the
two sessions (`Setting.simulates_atTime`).
-/

namespace Stencil

variable {σ α : Type}

/-- An error that tells that a template cannot be read: with the reason, or as a known absence. -/
inductive RenderError.Tells (source : Text → Except StorageError Text) (id : Text) :
    RenderError → Prop where
  | known {cause : StorageError} (failed : source id = .error cause) :
      Tells source id (.notFound id)
  | read {cause : StorageError} (failed : source id = .error cause) :
      Tells source id (.ofStorage id cause)

theorem RenderError.Tells.failed {source : Text → Except StorageError Text} {id : Text}
    {e : RenderError} (h : e.Tells source id) : ∃ cause, source id = .error cause := by
  cases h with
  | known failed => exact ⟨_, failed⟩
  | read failed => exact ⟨_, failed⟩

/-- The same value twice, or two failures because the same template cannot be read. -/
inductive Alike (source : Text → Except StorageError Text) :
    Except RenderError α → Except RenderError α → Prop where
  | ok (value : α) : Alike source (.ok value) (.ok value)
  | error {id : Text} {e e' : RenderError} (first : e.Tells source id)
      (second : e'.Tells source id) : Alike source (.error e) (.error e')

theorem Alike.toOption {source : Text → Except StorageError Text} {r r' : Except RenderError α}
    (h : Alike source r r') : r.toOption = r'.toOption := by
  cases h with
  | ok value => rfl
  | error first second => rfl

namespace Setting

def truth (s : Setting σ) (id : Text) : Option Artifact :=
  (s.source id).toOption.map (Stencil.compile s.config.compile)

theorem truth_of_ok {s : Setting σ} {id source : Text} (h : s.source id = .ok source) :
    s.truth id = some (Stencil.compile s.config.compile source) := by
  simp [truth, h, Except.toOption]

theorem truth_of_error {s : Setting σ} {id : Text} {cause : StorageError}
    (h : s.source id = .error cause) : s.truth id = none := by
  simp [truth, h, Except.toOption]

/-- What compiling a template must give: its compiled source, or an error that tells that it cannot
be read. -/
inductive Compiles (s : Setting σ) (id : Text) : Except RenderError Artifact → Prop where
  | ok {source : Text} (found : s.source id = .ok source) :
      Compiles s id (.ok (Stencil.compile s.config.compile source))
  | error {e : RenderError} (tells : e.Tells s.source id) : Compiles s id (.error e)

variable {s : Setting σ} {st : Session σ}

/-- Storing what was read of a template gives what compiling it must and keeps the cache current. -/
theorem store_spec (plain : s.config.hooks.beforeCompile = .none) (ctx : Context σ) (id : Text)
    (current : st.cache.Current s.truth []) :
    s.Compiles id (s.store ctx id (s.source id) st).1 ∧
      (s.store ctx id (s.source id) st).2.tally = st.tally ∧
      (s.store ctx id (s.source id) st).2.cache.Current s.truth [] := by
  cases found : s.source id with
  | error cause =>
    refine ⟨.error (.read found), rfl, ?_⟩
    exact current.store s.now id none fun _ => (truth_of_error found).symm
  | ok source =>
    simp only [store, Session.runHook, plain, SourceHook.apply, SourceHook.none, Option.getD_none]
    refine ⟨.ok found, trivial, ?_⟩
    exact current.store s.now id _ fun _ => (truth_of_ok found).symm

/-- With a current cache a template is compiled as from its source, found in the cache or not. -/
theorem compileId_spec (plain : s.config.hooks.beforeCompile = .none) (ctx : Context σ) (id : Text)
    (current : st.cache.Current s.truth []) :
    s.Compiles id (s.compileId ctx id st).1 ∧ (s.compileId ctx id st).2.tally = st.tally ∧
      (s.compileId ctx id st).2.cache.Current s.truth [] := by
  have kept := current.get s.now id
  unfold compileId Session.lookup
  rcases current.get_result s.now (List.not_mem_nil : id ∉ []) with
    miss | ⟨artifact, known, hit⟩ | ⟨unknown, absent⟩
  · simp only [miss]
    exact store_spec plain ctx id kept
  · simp only [hit]
    refine ⟨?_, trivial, kept⟩
    cases found : s.source id with
    | ok source =>
      rw [truth_of_ok found, Option.some.injEq] at known
      rw [← known]
      exact .ok found
    | error cause => simp [truth_of_error found] at known
  · simp only [absent]
    refine ⟨?_, trivial, kept⟩
    cases found : s.source id with
    | ok source => simp [truth_of_ok found] at unknown
    | error cause => exact .error (.known found)

/-- Two outcomes of compiling one template are alike: its compiled source twice, or two errors that
tell that it cannot be read. -/
theorem Compiles.alike {r r' : Except RenderError Artifact} {id : Text} (first : s.Compiles id r)
    (second : s.Compiles id r') : Alike s.source r r' := by
  cases first with
  | ok found =>
    cases second with
    | ok again =>
      rw [found, Except.ok.injEq] at again
      rw [again]
      exact .ok _
    | error tells =>
      obtain ⟨cause, failed⟩ := tells.failed
      simp [found] at failed
  | error tells =>
    cases second with
    | ok found =>
      obtain ⟨cause, failed⟩ := tells.failed
      simp [found] at failed
    | error tells' => exact .error tells tells'

end Setting

/-- Two sessions from which renders agree: the lazy values are in the same state, and both caches
are current. -/
structure Session.Agree (truth : Text → Option Artifact) (st st' : Session σ) : Prop where
  tally : st.tally = st'.tally
  first : st.cache.Current truth []
  second : st'.cache.Current truth []

namespace Setting

/-- Two outcomes of a render that are alike and leave agreeing sessions. -/
structure Agrees (s : Setting σ) (r r' : Except RenderError α × Session σ) : Prop where
  alike : Alike s.source r.1 r'.1
  sessions : Session.Agree s.truth r.2 r'.2

def atTime (s : Setting σ) (t : Nat) : Setting σ := { s with now := t }

/-- Two errors that tell that the same template cannot be read. -/
def BothTell (s : Setting σ) (e e' : RenderError) : Prop :=
  ∃ id, e.Tells s.source id ∧ e'.Tells s.source id

variable {s : Setting σ} {st st' : Session σ} {t : Nat}

theorem Agrees.meets {r r' : Except RenderError α × Session σ} (h : s.Agrees r r') :
    Meets s.BothTell (Session.Agree s.truth) r r' := by
  obtain ⟨r, st⟩ := r
  obtain ⟨r', st'⟩ := r'
  obtain ⟨alike, sessions⟩ := h
  refine ⟨?_, sessions⟩
  cases alike with
  | ok value => exact .ok value
  | error first second => exact .error ⟨_, first, second⟩

/-- Outcomes that match up to errors about the same template agree. -/
theorem Agrees.of_meets {r r' : Except RenderError α × Session σ}
    (h : Meets s.BothTell (Session.Agree s.truth) r r') : s.Agrees r r' := by
  obtain ⟨r, st⟩ := r
  obtain ⟨r', st'⟩ := r'
  obtain ⟨matched, sessions⟩ := h
  refine ⟨?_, sessions⟩
  cases matched with
  | ok value => exact .ok value
  | error excused =>
    obtain ⟨id, first, second⟩ := excused
    exact .error first second

theorem Compiles.of_atTime {r : Except RenderError Artifact} {id : Text}
    (h : (s.atTime t).Compiles id r) : s.Compiles id r := by
  cases h with
  | ok found => exact .ok found
  | error tells => exact .error tells

theorem agrees_compileId (plain : s.config.hooks.beforeCompile = .none) (ctx : Context σ)
    (id : Text) (h : Session.Agree s.truth st st') :
    s.Agrees (s.compileId ctx id st) ((s.atTime t).compileId ctx id st') := by
  obtain ⟨first, tally, kept⟩ := compileId_spec plain ctx id h.first
  obtain ⟨second, tally', kept'⟩ := compileId_spec (s := s.atTime t) plain ctx id h.second
  exact ⟨first.alike second.of_atTime, by rw [tally, tally', h.tally], kept, kept'⟩

/-- At another time and with another current cache everything goes alike. -/
theorem simulates_atTime (plain : s.config.hooks.beforeCompile = .none) (ctx : Context σ) :
    Simulates s (s.atTime t) ctx s.BothTell (Session.Agree s.truth) :=
  .of_compile rfl Session.Agree.tally (fun _ agree => ⟨rfl, agree.first, agree.second⟩)
    fun id _ _ agree => (agrees_compileId plain ctx id agree).meets

theorem agrees_renderBare (plain : s.config.hooks.beforeCompile = .none) (ctx : Context σ)
    (path : Text) (h : Session.Agree s.truth st st') :
    s.Agrees (s.renderBare ctx path st) ((s.atTime t).renderBare ctx path st') :=
  .of_meets ((simulates_atTime plain ctx).renderBare path h)

/-- Renders from agreeing sessions agree, with the layout around the page or without one. -/
theorem agrees_render (plain : s.config.hooks.beforeCompile = .none) (ctx : Context σ)
    (path : Text) (h : Session.Agree s.truth st st') :
    s.Agrees (s.render ctx path st) ((s.atTime t).render ctx path st') :=
  .of_meets ((simulates_atTime plain ctx).render
    (fun html => simulates_atTime plain (layoutContext ctx html)) path h)

end Setting

end Stencil
