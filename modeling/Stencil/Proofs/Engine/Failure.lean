import Stencil.Proofs.Engine.Compilation
import Stencil.Proofs.Engine.Simulation

/-!
# When a render fails

A render fails if its page cannot be compiled, or if the layout applies and cannot be compiled, and
for no other reason (`Setting.render_fails_iff`).  The error names the template.  Included
templates, placeholders, lazy values and elements may go wrong in any way: none of them makes a
render fail.

Whether a template can be compiled does not depend on the context or on hooks, and nothing that
happens in the course of a render changes it (`Setting.fails_compileId`).  That is why it can be
asked of the session in which the render begins, for the layout as well as for the page.
-/

namespace Stencil

variable {σ : Type}

/-- The errors that name a template: it is missing or known to be, or it could not be read. -/
def RenderError.Names (e : RenderError) (id : Text) : Prop :=
  e = .notFound id ∨ ∃ cause, e = .read id cause

theorem RenderError.names_ofStorage (id : Text) (cause : StorageError) :
    (RenderError.ofStorage id cause).Names id := by
  unfold RenderError.ofStorage
  split
  · exact Or.inl rfl
  · exact Or.inr ⟨cause, rfl⟩

theorem exists_ok_iff {ε α : Type} {r : Except ε α} :
    (∃ a, r = .ok a) ↔ ¬∃ e, r = .error e := by
  cases r with
  | error e => simp
  | ok a => simp

namespace Setting

variable {s : Setting σ} {ctx : Context σ} {path id : Text} {st : Session σ}

/-- Whether compiling a template fails: it is known to be absent, or it is not known and its source
cannot be read. -/
def fails (s : Setting σ) (id : Text) (st : Session σ) : Bool :=
  match s.found id st with
  | .hit _ => false
  | .absent => true
  | .miss => !(s.source id).isOk

/-- Compiling a template fails exactly if it is known to be absent, or is unknown and cannot be
read. -/
theorem compileId_eq_error_iff :
    (∃ e, (s.compileId ctx id st).1 = .error e) ↔ s.fails id st = true := by
  unfold fails
  cases h : s.found id st with
  | hit artifact => simp [compileId_of_hit h]
  | absent => simp [compileId_of_absent h]
  | miss =>
    rw [compileId_of_miss h, learn]
    cases s.source id with
    | error cause => simp [Except.map, Except.mapError, Except.isOk, Except.toBool]
    | ok source => simp [Except.map, Except.mapError, Except.isOk, Except.toBool]

theorem compileId_eq_ok_iff :
    (∃ artifact, (s.compileId ctx id st).1 = .ok artifact) ↔ ¬s.fails id st = true := by
  rw [exists_ok_iff, compileId_eq_error_iff]

/-- An error of compiling a template names that template. -/
theorem names_of_compileId {e : RenderError} (h : (s.compileId ctx id st).1 = .error e) :
    e.Names id := by
  cases found : s.found id st with
  | hit artifact => simp [compileId_of_hit found] at h
  | absent =>
    rw [compileId_of_absent found, Except.error.injEq] at h
    exact Or.inl h.symm
  | miss =>
    rw [compileId_of_miss found] at h
    cases learned : s.learn ctx id st with
    | ok artifact => simp [learned, Except.mapError] at h
    | error cause =>
      rw [learned, Except.mapError, Except.error.injEq] at h
      exact h ▸ RenderError.names_ofStorage id cause

/-- Compiling a template changes for no template whether it can be compiled. -/
theorem fails_compileId (s : Setting σ) (ctx : Context σ) (id i : Text) (st : Session σ) :
    s.fails i (s.compileId ctx id st).2 = s.fails i st := by
  unfold fails
  rw [found_compileId]
  by_cases learns : st.cache.enabled = true ∧ i = id ∧ (s.found id st).isMiss = true
  · -- What is learned from the source is a failure just where the source cannot be read.
    rw [if_pos learns]
    obtain ⟨-, rfl, missed⟩ := learns
    rw [Lookup.isMiss_iff.mp missed, learn]
    cases s.source i with
    | error cause => rfl
    | ok source => rfl
  · rw [if_neg learns]

theorem keeps_fails (s : Setting σ) (ctx : Context σ) (id : Text) (b : Bool) :
    s.Keeps ctx fun st => s.fails id st = b :=
  .of_compile (fun _ h => h) fun i st h => (s.fails_compileId ctx i id st).trans h

/-- What a render of a page does changes for no template whether it can be compiled. -/
theorem fails_outerPage (s : Setting σ) (ctx : Context σ) (path id : Text) (st : Session σ) :
    s.fails id (s.outerPage ctx path st).2 = s.fails id st :=
  (s.keeps_fails ctx id (s.fails id st)).outerPage path rfl

/-- A page fails as compiling it does. -/
theorem page_eq_error_iff {nested : Text → Session σ → Option Text × Session σ} {e : RenderError} :
    (s.page nested ctx id st).1 = .error e ↔ (s.compileId ctx id st).1 = .error e := by
  unfold page
  obtain ⟨r, st'⟩ := s.compileId ctx id st
  cases r with
  | error e' => simp
  | ok artifact => simp

theorem outerPage_eq_error_iff {e : RenderError} :
    (s.outerPage ctx path st).1 = .error e ↔
      (s.compileId ctx (s.config.templateId path) st).1 = .error e :=
  page_eq_error_iff

theorem outerPage_eq_ok_iff : (∃ html, (s.outerPage ctx path st).1 = .ok html) ↔
    ¬s.fails (s.config.templateId path) st = true := by
  rw [exists_ok_iff, exists_congr fun _ => outerPage_eq_error_iff, compileId_eq_error_iff]

theorem finish_eq_error_iff {r : Except RenderError Text × Session σ} {e : RenderError} :
    (s.finish ctx r).1 = .error e ↔ r.1 = .error e := by
  obtain ⟨r, st'⟩ := r
  cases r with
  | error e' => rfl
  | ok html => simp [finish]

theorem renderBare_eq_error_iff {e : RenderError} :
    (s.renderBare ctx path st).1 = .error e ↔
      (s.compileId ctx (s.config.templateId path) st).1 = .error e :=
  finish_eq_error_iff.trans page_eq_error_iff

/-- The error of a render is that of compiling the page, or, once the page is rendered, that of
compiling the layout. -/
theorem render_eq_error_iff {e : RenderError} :
    (s.render ctx path st).1 = .error e ↔
      (s.compileId ctx (s.config.templateId path) st).1 = .error e ∨
      ∃ html layout, (s.outerPage ctx path st).1 = .ok html ∧
        s.config.layoutFor? ctx = some layout ∧
        (s.compileId (layoutContext ctx html) (s.config.templateId layout)
          (s.outerPage ctx path st).2).1 = .error e := by
  rw [← outerPage_eq_error_iff]
  unfold render
  obtain ⟨r, st'⟩ := s.outerPage ctx path st
  cases r with
  | error e' => simp [finish_eq_error_iff]
  | ok html =>
    cases s.config.layoutFor? ctx with
    | none => simp [finish_eq_error_iff]
    | some layout => simp [finish_eq_error_iff, renderBare_eq_error_iff]

/-- A render that fails names the page, if that cannot be compiled, or else the layout. -/
theorem names_of_render {e : RenderError} (failed : (s.render ctx path st).1 = .error e) :
    (s.fails (s.config.templateId path) st = true ∧ e.Names (s.config.templateId path)) ∨
      ∃ layout, s.config.layoutFor? ctx = some layout ∧
        ¬s.fails (s.config.templateId path) st = true ∧
        s.fails (s.config.templateId layout) st = true ∧
        e.Names (s.config.templateId layout) := by
  rcases render_eq_error_iff.mp failed with page | ⟨html, layout, rendered, applies, fails⟩
  · exact Or.inl ⟨compileId_eq_error_iff.mp ⟨e, page⟩, names_of_compileId page⟩
  · refine Or.inr ⟨layout, applies, outerPage_eq_ok_iff.mp ⟨html, rendered⟩, ?_,
      names_of_compileId fails⟩
    rw [← s.fails_outerPage ctx path]
    exact compileId_eq_error_iff.mp ⟨e, fails⟩

/-- A render fails exactly if compiling the page fails, or if the page compiles, a layout applies,
and compiling that fails.  The error tells that the one of the two that fails is missing or could
not be read. -/
theorem render_fails_iff (s : Setting σ) (ctx : Context σ) (path : Text) (st : Session σ) :
    ((∃ e, (s.render ctx path st).1 = .error e) ↔
      (∃ e, (s.compileId ctx (s.config.templateId path) st).1 = .error e) ∨
      (∃ artifact, (s.compileId ctx (s.config.templateId path) st).1 = .ok artifact) ∧
        ∃ layout, s.config.layoutFor? ctx = some layout ∧
          ∃ e, (s.compileId ctx (s.config.templateId layout) st).1 = .error e) ∧
    ∀ e, (s.render ctx path st).1 = .error e →
      ((∃ e', (s.compileId ctx (s.config.templateId path) st).1 = .error e') ∧
        e.Names (s.config.templateId path)) ∨
      ∃ layout, s.config.layoutFor? ctx = some layout ∧
        (∃ artifact, (s.compileId ctx (s.config.templateId path) st).1 = .ok artifact) ∧
        (∃ e', (s.compileId ctx (s.config.templateId layout) st).1 = .error e') ∧
        e.Names (s.config.templateId layout) := by
  simp only [compileId_eq_ok_iff, compileId_eq_error_iff]
  refine ⟨⟨?_, ?_⟩, fun e failed => names_of_render failed⟩
  · rintro ⟨e, failed⟩
    rcases names_of_render failed with ⟨page, -⟩ | ⟨layout, applies, ok, fails, -⟩
    · exact Or.inl page
    · exact Or.inr ⟨ok, layout, applies, fails⟩
  · rintro (page | ⟨ok, layout, applies, fails⟩)
    · obtain ⟨e, failed⟩ : ∃ e, (s.compileId ctx (s.config.templateId path) st).1 = .error e :=
        compileId_eq_error_iff.mpr page
      exact ⟨e, render_eq_error_iff.mpr (Or.inl failed)⟩
    · obtain ⟨html, rendered⟩ := outerPage_eq_ok_iff.mpr ok
      rw [← s.fails_outerPage ctx path] at fails
      obtain ⟨e, failed⟩ : ∃ e, (s.compileId (layoutContext ctx html) (s.config.templateId layout)
          (s.outerPage ctx path st).2).1 = .error e := compileId_eq_error_iff.mpr fails
      exact ⟨e, render_eq_error_iff.mpr (Or.inr ⟨html, layout, rendered, applies, failed⟩)⟩

end Setting

end Stencil
