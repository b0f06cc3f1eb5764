import Stencil.Proofs.Engine.Failure
import Stencil.Proofs.Engine.Layout
import Stencil.Proofs.Text.Rise

/-!
# How often the last hook sees a page

The last hook runs at the end of every template that is rendered.  For a page without a layout that
is once.  Around a page, the layout is rendered like any other template, so the hook has already
seen it, in the context with the body, when it sees the whole at the end of the page
(`Setting.render_eq_finish_finish`).  A hook that makes the same of what it has made cannot be told
from one that runs once, any other can (`Engine.render_lastHook`).

Included templates would be seen by the hook before they are filled in; the templates here include
none.
-/

namespace Stencil

variable {σ τ : Type}

def Placeholder.includes (p : Placeholder) : Bool :=
  match p.request? with
  | some (.template _) => true
  | _ => false

def includesNone (skeleton : Text) : Bool :=
  (Text.finds Placeholder.read skeleton).all fun p => !p.includes

/-- What includes no template is filled alike, however templates are rendered. -/
theorem fillValues_of_includesNone {skeleton : Text} (none : includesNone skeleton = true)
    (value template template' : Text → τ → Option Text × τ) (t : τ) :
    fillValues ⟨value, template⟩ skeleton t = fillValues ⟨value, template'⟩ skeleton t := by
  have values : ∀ source p, .found source p ∈ Text.scan Placeholder.read skeleton →
      p.includes = false := fun source p member => by
    simpa using List.all_eq_true.mp none p (Text.mem_finds.mpr ⟨source, member⟩)
  unfold fillValues
  generalize Text.scan Placeholder.read skeleton = pieces at values
  induction pieces generalizing t with
  | nil => rfl
  | cons piece pieces ih =>
    have later := fun t => ih t fun source p member =>
      values source p (List.mem_cons_of_mem _ member)
    cases piece with
    | plain c => simp only [fillPieces, later]
    | found source p =>
      have here : p.fill ⟨value, template⟩ t = p.fill ⟨value, template'⟩ t := by
        have plain := values source p List.mem_cons_self
        unfold Placeholder.includes at plain
        unfold Placeholder.fill
        split at plain
        · simp at plain
        · rename_i other
          split
          · rfl
          · rename_i path request
            exact absurd request (other path)
          · rfl
          · rfl
      simp only [fillPieces, here, later]

namespace Setting

variable {s : Setting σ} {ctx : Context σ} {path id : Text} {st : Session σ}

/-- Whether a template, as it would be filled now, includes none. -/
def includesNone (s : Setting σ) (ctx : Context σ) (id : Text) (st : Session σ) : Bool :=
  match s.compileId ctx id st with
  | (.error _, _) => true
  | (.ok artifact, st) =>
    Stencil.includesNone (st.runHook s.config.hooks.beforeRender artifact.skeleton ctx).1

def unhooked (s : Setting σ) : Setting σ :=
  { s with config := { s.config with hooks := { s.config.hooks with afterRender := .none } } }

/-- A page that includes nothing does not depend on how includes are rendered. -/
theorem page_of_includesNone (none : s.includesNone ctx id st = true)
    (nested nested' : Text → Session σ → Option Text × Session σ) :
    s.page nested ctx id st = s.page nested' ctx id st := by
  unfold page
  unfold includesNone at none
  generalize s.compileId ctx id st = r at none
  obtain ⟨r, st'⟩ := r
  cases r with
  | error e => rfl
  | ok artifact =>
    have filled : s.fillArtifact nested ctx artifact st' =
        s.fillArtifact nested' ctx artifact st' := by
      unfold fillArtifact
      dsimp only at none ⊢
      rw [fillValues_of_includesNone none _ nested nested']
    simp only [filled]

/-- Before the last hook, a template that includes none does not depend on it. -/
theorem outerPage_unhooked (none : s.includesNone ctx (s.config.templateId path) st = true) :
    s.unhooked.outerPage ctx path st = s.outerPage ctx path st := by
  have same : s.unhooked.outerPage ctx path st =
      s.page (s.unhooked.includePath ctx maxDepth) ctx (s.config.templateId path) st := rfl
  rw [same, page_of_includesNone none _ (s.includePath ctx maxDepth)]
  rfl

/-- Without a layout, the hook sees the page once. -/
theorem render_eq_finish (bare : s.config.layoutFor? ctx = none)
    (page : s.includesNone ctx (s.config.templateId path) st = true) :
    s.render ctx path st = s.finish ctx (s.unhooked.render ctx path st) := by
  rw [render_of_bare bare, render_of_bare (s := s.unhooked) bare, renderBare, renderBare,
    finish_of_none (s := s.unhooked) rfl, outerPage_unhooked page]

/-- With a layout, the hook sees the whole in the context of the layout, and then what it has made
of it in that of the page. -/
theorem render_eq_finish_finish {layout body : Text}
    (applies : s.config.layoutFor? ctx = some layout)
    (page : s.includesNone ctx (s.config.templateId path) st = true)
    (rendered : (s.outerPage ctx path st).1 = .ok body)
    (frame : s.includesNone (layoutContext ctx body) (s.config.templateId layout)
      (s.outerPage ctx path st).2 = true) :
    s.render ctx path st =
      s.finish ctx (s.finish (layoutContext ctx body) (s.unhooked.render ctx path st)) := by
  have applies' : s.unhooked.config.layoutFor? ctx = some layout := applies
  unfold render
  rw [applies', applies, outerPage_unhooked page]
  generalize s.outerPage ctx path st = r at rendered frame
  obtain ⟨_, st'⟩ := r
  obtain rfl : _ = Except.ok body := rendered
  dsimp only at frame ⊢
  rw [finish_of_none (s := s.unhooked) rfl, renderBare, renderBare,
    finish_of_none (s := s.unhooked) rfl, outerPage_unhooked frame]

/-- A page that fails is not seen by the hook. -/
theorem render_of_error {e : RenderError} (failed : (s.outerPage ctx path st).1 = .error e) :
    s.render ctx path st = s.outerPage ctx path st := by
  unfold render
  generalize s.outerPage ctx path st = r at failed
  obtain ⟨_, st'⟩ := r
  obtain rfl : _ = Except.error e := failed
  rfl

theorem finish_of_ok {r : Except RenderError Text × Session σ} {html : Text} (ok : r.1 = .ok html) :
    s.finish ctx r =
      (.ok (s.config.hooks.afterRender.apply html ctx r.2.tally).1,
        { r.2 with tally := (s.config.hooks.afterRender.apply html ctx r.2.tally).2 }) := by
  obtain ⟨_, st'⟩ := r
  obtain rfl : _ = Except.ok html := ok
  rfl

/-- Whether the layout, as it would be filled around a page that is rendered now, includes no
template. -/
def LayoutIncludesNone (s : Setting σ) (ctx : Context σ) (path layout : Text) (st : Session σ) :
    Prop :=
  ∀ body, (s.outerPage ctx path st).1 = .ok body →
    s.includesNone (layoutContext ctx body) (s.config.templateId layout)
      (s.outerPage ctx path st).2 = true

end Setting

namespace Engine

open Setting

def unhooked (e : Engine σ) : Engine σ :=
  { e with config := { e.config with hooks := { e.config.hooks with afterRender := .none } } }

/-- The last hook makes no render fail.  A page without a layout it sees once.  With a layout around
the page, and no templates included by either, it sees what is rendered without it in the context of
the layout, and what it has made of that in the context of the page; a hook that makes the same of a
text in both has the effect of running once exactly if it changes nothing in what it has made. -/
theorem render_lastHook (e : Engine σ) (ctx : Context σ) (path : Text)
    (page : e.setting.includesNone ctx (e.templateId path) e.session = true)
    (frame : ∀ layout, e.config.layoutFor? ctx = some layout →
      e.setting.LayoutIncludesNone ctx path layout e.session) :
    (∀ err, (e.render ctx path).1 = .error err ↔ (e.unhooked.render ctx path).1 = .error err) ∧
    ∀ html t, (e.unhooked.render ctx path).1 = .ok html →
      (e.unhooked.render ctx path).2.tally = t →
      (e.config.layoutFor? ctx = none →
        (e.render ctx path).1 = .ok (e.config.hooks.afterRender.apply html ctx t).1) ∧
      ∀ layout, e.config.layoutFor? ctx = some layout →
        ∃ body, (e.unhooked.get ctx path true).1 = some body ∧
          let once := e.config.hooks.afterRender.apply html (layoutContext ctx body) t
          let twice := e.config.hooks.afterRender.apply once.1 ctx once.2
          (e.render ctx path).1 = .ok twice.1 ∧ (e.render ctx path).2.tally = twice.2 ∧
          ∀ g, e.config.hooks.afterRender.Gives g ctx →
            e.config.hooks.afterRender.Gives g (layoutContext ctx body) →
            ((e.render ctx path).1 = .ok (g html) ↔ g (g html) = g html) := by
  have rendered : e.render ctx path =
      ((e.setting.render ctx path e.session).1,
        e.after (e.setting.render ctx path e.session).2) := rfl
  have without : (e.unhooked.render ctx path).1 =
      (e.setting.unhooked.render ctx path e.session).1 := rfl
  have tally : (e.unhooked.render ctx path).2.tally =
      (e.setting.unhooked.render ctx path e.session).2.tally := rfl
  have alone : (e.unhooked.get ctx path true).1 =
      (e.setting.outerPage ctx path e.session).1.toOption := by
    have bare : (e.unhooked.get ctx path true).1 =
        (e.setting.unhooked.renderBare ctx path e.session).1.toOption := rfl
    rw [bare, renderBare, finish_of_none (s := e.setting.unhooked) rfl, outerPage_unhooked page]
  rw [rendered, without, tally, alone]
  cases outer : (e.setting.outerPage ctx path e.session).1 with
  | error err =>
    have hookless : (e.setting.unhooked.outerPage ctx path e.session).1 = .error err :=
      (congrArg Prod.fst (outerPage_unhooked page)).trans outer
    rw [render_of_error outer, render_of_error hookless, outer, hookless]
    exact ⟨fun _ => .rfl, nofun⟩
  | ok body =>
    cases applies : e.config.layoutFor? ctx with
    | none =>
      rw [render_eq_finish applies page]
      refine ⟨fun err => finish_eq_error_iff, fun html t ok same => ⟨fun _ => ?_, nofun⟩⟩
      rw [finish_of_ok ok, ← same]
      rfl
    | some layout =>
      rw [render_eq_finish_finish applies page outer (frame layout applies body outer)]
      refine ⟨fun err => finish_eq_error_iff.trans finish_eq_error_iff, fun html t ok same =>
        ⟨nofun, fun _ _ => ⟨body, rfl, ?_⟩⟩⟩
      subst same
      rw [finish_of_ok ok, finish_of_ok rfl]
      refine ⟨rfl, rfl, fun g gives layoutGives => ?_⟩
      change Except.ok (e.config.hooks.afterRender.apply
        (e.config.hooks.afterRender.apply html (layoutContext ctx body) _).1 ctx _).1 = _ ↔ _
      rw [layoutGives, gives, Except.ok.injEq]

/-- An engine whose last hook puts a value of the context after a page, where there is one. -/
def tailing : Engine Unit :=
  create
    { layout := some "frame"
      hooks := { afterRender := fun html ctx t =>
        let (tail, t) := ctx.resolve "tail" t
        (tail.map (html ++ ·), t) } }
    { templates := [("page", "a"), ("frame", "<b>\x7b\x7b\x7bbody\x7d\x7d\x7d</b>")] } ()

def exclaiming : Context Unit := { values := [("tail", .literal (.string "!"))] }

theorem tailing_gives (body : Text) :
    tailing.config.hooks.afterRender.Gives (· ++ "!") exclaiming ∧
      tailing.config.hooks.afterRender.Gives (· ++ "!") (layoutContext exclaiming body) :=
  ⟨fun _ _ => rfl, fun _ _ => rfl⟩

/-- The page gets one tail in the layout and another one behind it. -/
theorem render_tailing :
    (tailing.render exclaiming "page").1 = .ok "<b><p>a</p></b>!!" ∧
      (tailing.render exclaiming "page").1 ≠ .ok "<b><p>a</p></b>!" := by
  have html : (tailing.unhooked.render exclaiming "page").1 = .ok "<b><p>a</p></b>" :=
    toOption_eq_some_iff.mp (by decide +kernel)
  obtain ⟨-, hooked⟩ := render_lastHook tailing exclaiming "page" (by decide +kernel)
    fun layout applies body rendered => by
      obtain rfl : "frame" = layout := Option.some.inj applies
      have known : (tailing.setting.outerPage exclaiming "page" tailing.session).1.toOption =
          some "<p>a</p>" := by decide +kernel
      rw [rendered] at known
      obtain rfl : body = "<p>a</p>" := Option.some.inj known
      decide +kernel
  obtain ⟨-, wrapped⟩ := hooked "<b><p>a</p></b>" () html rfl
  obtain ⟨body, -, result, -, once⟩ := wrapped "frame" rfl
  obtain ⟨gives, layoutGives⟩ := tailing_gives body
  refine ⟨?_, fun same => ?_⟩
  · rw [result, layoutGives, gives]
    rfl
  · exact absurd ((once _ gives layoutGives).mp same) (by decide)

/-- A hook that runs once would leave one tail. -/
theorem render_ne_of_tailing :
    (tailing.unhooked.render exclaiming "page").1 = .ok "<b><p>a</p></b>" ∧
      (tailing.config.hooks.afterRender.apply "<b><p>a</p></b>" exclaiming ()).1 =
        "<b><p>a</p></b>!" ∧
      (tailing.render exclaiming "page").1 ≠ .ok "<b><p>a</p></b>!" := by
  refine ⟨toOption_eq_some_iff.mp (by decide +kernel), rfl, fun claimed => ?_⟩
  rw [← toOption_eq_some_iff] at claimed
  revert claimed
  decide +kernel

end Engine

end Stencil
