import Stencil.Engine.Render
import Stencil.Proofs.Render.Simulation

/-!
# Renders over related sessions

Two settings with one configuration render the same template in the same context, each over a
session of its own.  Where compiling, asking for values and running hooks give alike results in
related sessions and leave related sessions behind, so do whole renders
(`Setting.Simulates.renderBare`, `Setting.Simulates.render`).  What the sessions have in common is
for the user of these lemmas to say; no more is used here than that both renders take the same
steps.

That every step of a render keeps a property is the case of a session that is related to itself
(`Setting.Keeps.outerPage`).
-/

namespace Stencil

variable {σ α : Type}

/-- The same value twice, or two errors that excuse each other. -/
inductive Matched (excuse : RenderError → RenderError → Prop) :
    Except RenderError α → Except RenderError α → Prop where
  | ok (value : α) : Matched excuse (.ok value) (.ok value)
  | error {e e' : RenderError} (excused : excuse e e') : Matched excuse (.error e) (.error e')

theorem Matched.toOption {excuse : RenderError → RenderError → Prop}
    {r r' : Except RenderError α} (h : Matched excuse r r') : r.toOption = r'.toOption := by
  cases h with
  | ok value => rfl
  | error excused => rfl

/-- Two outcomes that match and leave related sessions behind. -/
structure Meets (excuse : RenderError → RenderError → Prop) (R : Session σ → Session σ → Prop)
    (r r' : Except RenderError α × Session σ) : Prop where
  matched : Matched excuse r.1 r'.1
  related : R r.2 r'.2

/-- Two answers that are the same and leave related sessions behind. -/
def Accords (R : Session σ → Session σ → Prop) (r r' : α × Session σ) : Prop :=
  r.1 = r'.1 ∧ R r.2 r'.2

namespace Setting

/-- Whatever a render in a context does over related sessions, it does alike in both settings. -/
structure Simulates (s s' : Setting σ) (ctx : Context σ)
    (excuse : RenderError → RenderError → Prop) (R : Session σ → Session σ → Prop) : Prop where
  config : s'.config = s.config
  compile : ∀ id st st', R st st' →
    Meets excuse R (s.compileId ctx id st) (s'.compileId ctx id st')
  resolve : ∀ key st st', R st st' →
    Accords R (Session.resolve ctx key st) (Session.resolve ctx key st')
  beforeRender : ∀ text st st', R st st' →
    Accords R (st.runHook s.config.hooks.beforeRender text ctx)
      (st'.runHook s.config.hooks.beforeRender text ctx)
  afterRender : ∀ text st st', R st st' →
    Accords R (st.runHook s.config.hooks.afterRender text ctx)
      (st'.runHook s.config.hooks.afterRender text ctx)

namespace Simulates

variable {s s' : Setting σ} {ctx : Context σ} {excuse : RenderError → RenderError → Prop}
  {R : Session σ → Session σ → Prop} {st st' : Session σ}
  {nested nested' : Text → Session σ → Option Text × Session σ}

/-- Of a session, only compiling looks at more than the state of lazy values. -/
theorem of_compile (config : s'.config = s.config)
    (tally : ∀ {st st'}, R st st' → st.tally = st'.tally)
    (frame : ∀ {st st'} t, R st st' → R { st with tally := t } { st' with tally := t })
    (compile : ∀ id st st', R st st' →
      Meets excuse R (s.compileId ctx id st) (s'.compileId ctx id st')) :
    Simulates s s' ctx excuse R where
  config := config
  compile := compile
  resolve := fun key st st' h => by
    simp only [Accords, Session.resolve, tally h]
    exact ⟨trivial, frame _ h⟩
  beforeRender := fun text st st' h => by
    simp only [Accords, Session.runHook, tally h]
    exact ⟨trivial, frame _ h⟩
  afterRender := fun text st st' h => by
    simp only [Accords, Session.runHook, tally h]
    exact ⟨trivial, frame _ h⟩

/-- Filling a compiled template accords if the includes do. -/
theorem fillArtifact (sim : Simulates s s' ctx excuse R)
    (nestedAccord : ∀ path st st', R st st' → Accords R (nested path st) (nested' path st'))
    (artifact : Artifact) (h : R st st') :
    Accords R (s.fillArtifact nested ctx artifact st)
      (s'.fillArtifact nested' ctx artifact st') := by
  obtain ⟨skeleton, hooked⟩ := sim.beforeRender artifact.skeleton st st' h
  have sources : Sources.Related R ⟨Session.resolve ctx, nested⟩ ⟨Session.resolve ctx, nested'⟩ :=
    ⟨sim.resolve, nestedAccord⟩
  obtain ⟨parts, filled⟩ := sources.fillValues
    (st'.runHook s.config.hooks.beforeRender artifact.skeleton ctx).1 hooked
  simp only [Accords, Setting.fillArtifact, sim.config, skeleton, parts]
  exact ⟨trivial, filled⟩

/-- Pages meet if the includes accord: compiling does, and so does filling what is compiled. -/
theorem page (sim : Simulates s s' ctx excuse R)
    (nestedAccord : ∀ path st st', R st st' → Accords R (nested path st) (nested' path st'))
    (id : Text) (h : R st st') :
    Meets excuse R (s.page nested ctx id st) (s'.page nested' ctx id st') := by
  obtain ⟨matched, related⟩ := sim.compile id st st' h
  unfold Setting.page
  generalize s.compileId ctx id st = r at matched related
  generalize s'.compileId ctx id st' = r' at matched related
  obtain ⟨r, st⟩ := r
  obtain ⟨r', st'⟩ := r'
  cases matched with
  | ok artifact =>
    obtain ⟨html, after⟩ := sim.fillArtifact nestedAccord artifact related
    refine ⟨?_, after⟩
    simp only [html]
    exact .ok _
  | error excused => exact ⟨.error excused, related⟩

/-- The last hook keeps two outcomes together. -/
theorem finish (sim : Simulates s s' ctx excuse R) {r r' : Except RenderError Text × Session σ}
    (h : Meets excuse R r r') : Meets excuse R (s.finish ctx r) (s'.finish ctx r') := by
  obtain ⟨matched, related⟩ := h
  obtain ⟨r, st⟩ := r
  obtain ⟨r', st'⟩ := r'
  cases matched with
  | ok html =>
    obtain ⟨finished, after⟩ := sim.afterRender html st st' related
    simp only [Setting.finish, sim.config]
    refine ⟨?_, after⟩
    simp only [finished]
    exact .ok _
  | error excused => exact ⟨.error excused, related⟩

/-- Included templates are rendered alike at every depth, by induction on the levels that are
left. -/
theorem includePath (sim : Simulates s s' ctx excuse R) (room : Nat) (path : Text)
    (st st' : Session σ) (h : R st st') :
    Accords R (s.includePath ctx room path st) (s'.includePath ctx room path st') := by
  induction room generalizing path st st' with
  | zero => exact ⟨rfl, h⟩
  | succ room ih =>
    have page := sim.page ih (s.config.templateId path) h
    obtain ⟨matched, related⟩ := sim.finish page
    simp only [Setting.includePath, sim.config]
    exact ⟨matched.toOption, related⟩

theorem outerPage (sim : Simulates s s' ctx excuse R) (path : Text) (h : R st st') :
    Meets excuse R (s.outerPage ctx path st) (s'.outerPage ctx path st') := by
  unfold Setting.outerPage
  rw [sim.config]
  exact sim.page (sim.includePath maxDepth) (s.config.templateId path) h

theorem renderBare (sim : Simulates s s' ctx excuse R) (path : Text) (h : R st st') :
    Meets excuse R (s.renderBare ctx path st) (s'.renderBare ctx path st') :=
  sim.finish (sim.outerPage path h)

/-- Renders with the layout are alike if they are so in the context of every layout, too. -/
theorem render (sim : Simulates s s' ctx excuse R)
    (layouts : ∀ html, Simulates s s' (layoutContext ctx html) excuse R) (path : Text)
    (h : R st st') : Meets excuse R (s.render ctx path st) (s'.render ctx path st') := by
  have outer := sim.outerPage path h
  unfold Setting.render
  rw [sim.config]
  generalize s.outerPage ctx path st = r at outer
  generalize s'.outerPage ctx path st' = r' at outer
  obtain ⟨matched, related⟩ := outer
  obtain ⟨r, st⟩ := r
  obtain ⟨r', st'⟩ := r'
  cases matched with
  | ok html =>
    cases s.config.layoutFor? ctx with
    | none => exact sim.finish ⟨.ok html, related⟩
    | some layout => exact sim.finish ((layouts html).renderBare layout related)
  | error excused => exact sim.finish ⟨.error excused, related⟩

end Simulates

/-- Nothing that a render in a context does takes a property from a session. -/
structure Keeps (s : Setting σ) (ctx : Context σ) (I : Session σ → Prop) : Prop where
  compile : ∀ id st, I st → I (s.compileId ctx id st).2
  resolve : ∀ key st, I st → I (Session.resolve ctx key st).2
  beforeRender : ∀ text st, I st → I (st.runHook s.config.hooks.beforeRender text ctx).2
  afterRender : ∀ text st, I st → I (st.runHook s.config.hooks.afterRender text ctx).2

namespace Keeps

variable {s : Setting σ} {ctx : Context σ} {I : Session σ → Prop} {st : Session σ}

/-- Only compiling changes more of a session than the state of lazy values. -/
theorem of_compile (frame : ∀ {st} t, I st → I { st with tally := t })
    (compile : ∀ id st, I st → I (s.compileId ctx id st).2) : s.Keeps ctx I where
  compile := compile
  resolve := fun _ _ h => frame _ h
  beforeRender := fun _ _ h => frame _ h
  afterRender := fun _ _ h => frame _ h

/-- A property that nothing in a render takes away holds along with the render itself, so that two
equal sessions stay equal and keep it. -/
theorem simulates (keeps : s.Keeps ctx I) :
    Simulates s s ctx (fun e e' => e = e') fun st st' => st = st' ∧ I st where
  config := rfl
  compile := by
    rintro id st _ ⟨rfl, h⟩
    refine ⟨?_, rfl, keeps.compile id st h⟩
    cases (s.compileId ctx id st).1 with
    | error e => exact .error rfl
    | ok artifact => exact .ok artifact
  resolve := by
    rintro key st _ ⟨rfl, h⟩
    exact ⟨rfl, rfl, keeps.resolve key st h⟩
  beforeRender := by
    rintro text st _ ⟨rfl, h⟩
    exact ⟨rfl, rfl, keeps.beforeRender text st h⟩
  afterRender := by
    rintro text st _ ⟨rfl, h⟩
    exact ⟨rfl, rfl, keeps.afterRender text st h⟩

theorem includePath (keeps : s.Keeps ctx I) (room : Nat) (path : Text) (h : I st) :
    I (s.includePath ctx room path st).2 :=
  (keeps.simulates.includePath room path st st ⟨rfl, h⟩).2.2

theorem outerPage (keeps : s.Keeps ctx I) (path : Text) (h : I st) :
    I (s.outerPage ctx path st).2 :=
  (keeps.simulates.outerPage path ⟨rfl, h⟩).related.2

end Keeps

end Setting

end Stencil
