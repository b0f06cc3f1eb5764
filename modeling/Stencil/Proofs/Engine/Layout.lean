import Stencil.Engine.Basic
import Stencil.Proofs.Context.Pure
import Stencil.Proofs.Engine.Compilation
import Stencil.Proofs.Engine.Simulation
import Stencil.Proofs.Render.Noninterference

/-!
# The layout around a page

Rendering with a layout is rendering the page without one and then the layout, with the page as its
body, also without one (`Engine.render_eq_ok_iff`).  The layout may be rendered from the cache in
which the page began: what the page left there makes no difference, since it serves the same
compiled templates (`Setting.serves_outerPage`).

That needs a hook before compilation, if there is one and the cache is in use, to treat a source
alike in the context of the page and in that of the layout.  A template that both include is
compiled once, for the page, and a hook that looks at the body sees none then
(`Engine.render_ne_of_bodyHook`).
-/

namespace Stencil

variable {σ : Type}

namespace SourceHook

/-- The hook keeps nothing, and makes the same of a text in the contexts of a page and of the layout
around it. -/
def Steady (hook : SourceHook σ) (ctx : Context σ) : Prop :=
  ∃ f, hook.Gives f ctx ∧ ∀ body, hook.Gives f (Setting.layoutContext ctx body)

/-- In a context, the hook gives each text one answer whatever the state, and leaves the state
alone. -/
def Pure (hook : SourceHook σ) (ctx : Context σ) : Prop :=
  ∀ text, ∃ answer, ∀ t, hook text ctx t = (answer, t)

end SourceHook

namespace Setting

variable {s : Setting σ} {ctx : Context σ} {f : Text → Text} {path id : Text} {st : Session σ}

/-- Two sessions that serve the same templates, with the lazy values in the same state. -/
structure Serving (s : Setting σ) (f : Text → Text) (st st' : Session σ) : Prop where
  tally : st.tally = st'.tally
  serves : ∀ id, s.serves f id st = s.serves f id st'

/-- Renders cannot tell sessions apart that serve the same templates. -/
theorem simulates_serving (gives : s.config.hooks.beforeCompile.Gives f ctx) :
    Simulates s s ctx (fun _ _ => True) (s.Serving f) := by
  refine .of_compile rfl Serving.tally (fun _ h => ⟨rfl, h.serves⟩) fun id st st' h => ?_
  have same : (s.compileId ctx id st).1.toOption = (s.compileId ctx id st').1.toOption := by
    rw [toOption_compileId gives, toOption_compileId gives, h.serves]
  refine ⟨?_, ?_, fun i => ?_⟩
  · revert same
    cases (s.compileId ctx id st).1 <;> cases (s.compileId ctx id st').1 <;> intro same
    · exact .error trivial
    · simp [Except.toOption] at same
    · simp [Except.toOption] at same
    · obtain rfl := Option.some.inj same
      exact .ok _
  · rw [tally_compileId gives, tally_compileId gives, h.tally]
  · rw [serves_compileId gives, serves_compileId gives, h.serves]

/-- What a page renders changes for no template what is served. -/
theorem serves_outerPage (gives : s.config.hooks.beforeCompile.Gives f ctx) (i : Text) :
    s.serves f i (s.outerPage ctx path st).2 = s.serves f i st :=
  Keeps.outerPage (I := fun st' => s.serves f i st' = s.serves f i st)
    (.of_compile (fun _ h => h) fun _ _ h => (serves_compileId gives i).trans h) path rfl

/-- Two sessions that bypass the cache, with the lazy values in the same state. -/
structure Bypassing (st st' : Session σ) : Prop where
  tally : st.tally = st'.tally
  first : st.cache.enabled = false
  second : st'.cache.enabled = false

theorem found_of_bypassed (h : st.cache.enabled = false) : s.found id st = .miss := by
  simp [found, Cache.get, h]

/-- Renders cannot tell sessions apart that bypass the cache. -/
theorem simulates_bypassing (s : Setting σ) (ctx : Context σ) :
    Simulates s s ctx (fun _ _ => True) Bypassing := by
  refine .of_compile rfl Bypassing.tally (fun _ h => ⟨rfl, h.first, h.second⟩)
    fun id st st' h => ?_
  have learns : s.learn ctx id st' = s.learn ctx id st := by simp only [learn, h.tally]
  rw [compileId_of_miss (found_of_bypassed h.first),
    compileId_of_miss (found_of_bypassed h.second), learns]
  refine ⟨?_, ?_, ?_, ?_⟩
  · cases (s.learn ctx id st).mapError (RenderError.ofStorage id) with
    | error e => exact .error trivial
    | ok artifact => exact .ok artifact
  · simp only [learned, tallyAfter, h.tally]
  · simp [learned, h.first]
  · simp [learned, h.second]

theorem enabled_outerPage (s : Setting σ) (ctx : Context σ) (path : Text) (st : Session σ) :
    (s.outerPage ctx path st).2.cache.enabled = st.cache.enabled :=
  Keeps.outerPage (I := fun st' => st'.cache.enabled = st.cache.enabled)
    (.of_compile (fun _ h => h) fun id st' h => (s.enabled_compileId ctx id st').trans h) path rfl

/-- A page leaves the state of lazy values as it is, if all that could change it is pure. -/
theorem tally_outerPage (pure : ctx.Pure) (compile : s.config.hooks.beforeCompile.Pure ctx)
    (before : s.config.hooks.beforeRender.Pure ctx) (after : s.config.hooks.afterRender.Pure ctx) :
    (s.outerPage ctx path st).2.tally = st.tally := by
  have hooked {hook : SourceHook σ} (pure : hook.Pure ctx) (text : Text) (t : σ) :
      (hook.apply text ctx t).2 = t := by
    obtain ⟨answer, gives⟩ := pure text
    simp [SourceHook.apply, gives]
  have keeps : s.Keeps ctx fun st' => st'.tally = st.tally :=
    { compile := fun id st' h => by
        cases found : s.found id st' with
        | hit artifact => simpa [compileId_of_hit found, lookedUp] using h
        | absent => simpa [compileId_of_absent found, lookedUp] using h
        | miss =>
          rw [compileId_of_miss found, ← h]
          simp only [learned, tallyAfter]
          cases s.source id with
          | error cause => rfl
          | ok source => exact hooked compile source st'.tally
      resolve := fun key st' h => by
        obtain ⟨answer, resolves⟩ := pure.resolve key
        simpa [Session.resolve, resolves] using h
      beforeRender := fun text st' h => (hooked before text st'.tally).trans h
      afterRender := fun text st' h => (hooked after text st'.tally).trans h }
  exact keeps.outerPage path rfl

section Body

variable {nested : Text → Session σ → Option Text × Session σ} {artifact : Artifact}

/-- The placeholders of a compiled template in a context, each with what is filled in for it. -/
def fillings (s : Setting σ) (nested : Text → Session σ → Option Text × Session σ)
    (ctx : Context σ) (artifact : Artifact) (st : Session σ) :
    List (Placeholder × Option Text) :=
  let (skeleton, st) := st.runHook s.config.hooks.beforeRender artifact.skeleton ctx
  (Text.foundValues (Text.scan Placeholder.read skeleton)).zip
    (resolved ⟨Session.resolve ctx, nested⟩ skeleton st)

/-- The text of a compiled template around what is filled in, with its elements put back.  Of what
is filled in, only counts for which placeholders there is something. -/
def frame (s : Setting σ) (ctx : Context σ) (artifact : Artifact) (st : Session σ)
    (texts : List (Option Text)) : List Text :=
  let (skeleton, _) := st.runHook s.config.hooks.beforeRender artifact.skeleton ctx
  Part.around (swept artifact.tags (ctx.nonce.or s.config.nonce)
    (place (Text.scan Placeholder.read skeleton) (texts.map blankAnswer)))

/-- A filled template is what is filled in, as it is, between the texts of the frame. -/
theorem fillArtifact_eq_weave :
    (s.fillArtifact nested ctx artifact st).1 =
      Text.weave (s.frame ctx artifact st ((s.fillings nested ctx artifact st).map Prod.snd))
        ((s.fillings nested ctx artifact st).filterMap Prod.snd) := by
  unfold fillArtifact fillings frame
  obtain ⟨skeleton, st⟩ := st.runHook s.config.hooks.beforeRender artifact.skeleton ctx
  let sources : Sources (Session σ) := ⟨Session.resolve ctx, nested⟩
  have answered : ((Text.foundValues (Text.scan Placeholder.read skeleton)).zip
      (resolved sources skeleton st)).map Prod.snd = resolved sources skeleton st :=
    List.map_snd_zip (length_answers _ _ _).le
  have texts : ((Text.foundValues (Text.scan Placeholder.read skeleton)).zip
      (resolved sources skeleton st)).filterMap Prod.snd =
        (resolved sources skeleton st).filterMap id := by
    conv_rhs => rw [← answered, List.filterMap_map]
    rfl
  dsimp only
  rw [answered, texts, ← map_blank_fillValues, swept_map_blank, Part.around_map_blank,
    reinsertTags_eq_weave, values_fillValues]

theorem resolve_body (free : ctx.contains bodyKey = false) (body : Text) (t : σ) :
    (layoutContext ctx body).resolve bodyKey t = (some body, t) := by
  have known : Keyed.get? (layoutContext ctx body).values bodyKey =
      some (.literal (.string body)) := by
    simp [layoutContext, free, Context.set, Keyed.get?_insert]
  simp [Context.resolve, Context.resolveWith, known, Value.maxSteps, Value.settle, Json.display?]

/-- A placeholder for the body in the layout has the page as it is, escaped if it asks for that. -/
theorem filling_of_body (free : ctx.contains bodyKey = false) {body : Text} {p : Placeholder}
    {answer : Option Text} (request : p.request? = some (.value bodyKey))
    (member : (p, answer) ∈ s.fillings nested (layoutContext ctx body) artifact st) :
    answer = some (p.escape body) := by
  obtain ⟨t', rfl⟩ := exists_fill_of_mem_answers member
  unfold Placeholder.fill
  simp [request, Session.resolve, resolve_body free]

end Body

def withLayout (s : Setting σ) (layout : Option Text) : Setting σ :=
  { s with config := { s.config with layout := layout } }

/-- No included template is rendered with the layout around it: whichever there is, it comes out the
same. -/
theorem includePath_withLayout (s : Setting σ) (layout : Option Text) (ctx : Context σ)
    (room : Nat) : (s.withLayout layout).includePath ctx room = s.includePath ctx room := by
  induction room with
  | zero => rfl
  | succ room ih =>
    funext path st
    unfold includePath
    rw [ih]
    rfl

theorem finish_of_none (last : s.config.hooks.afterRender = .none)
    (r : Except RenderError Text × Session σ) : s.finish ctx r = r := by
  obtain ⟨r, st⟩ := r
  cases r with
  | error e => rfl
  | ok html => simp [finish, Session.runHook, last, SourceHook.apply, SourceHook.none]

theorem render_of_bare (bare : s.config.layoutFor? ctx = none) :
    s.render ctx path st = s.renderBare ctx path st := by
  unfold render renderBare
  rw [bare]
  obtain ⟨r, st'⟩ := s.outerPage ctx path st
  cases r <;> rfl

/-- The layout comes out the same in the session in which the page began as in the one that the page
left, as long as the lazy values are where the page left them. -/
theorem renderBare_after_outerPage
    (steady : st.cache.enabled = true → s.config.hooks.beforeCompile.Steady ctx)
    (path body layout : Text) :
    (s.renderBare (layoutContext ctx body) layout (s.outerPage ctx path st).2).1.toOption =
      (s.renderBare (layoutContext ctx body) layout
        { st with tally := (s.outerPage ctx path st).2.tally }).1.toOption := by
  cases enabled : st.cache.enabled with
  | true =>
    obtain ⟨f, gives, layoutGives⟩ := steady enabled
    have serving : s.Serving f (s.outerPage ctx path st).2
        { st with tally := (s.outerPage ctx path st).2.tally } :=
      ⟨rfl, serves_outerPage gives⟩
    exact ((simulates_serving (layoutGives body)).renderBare layout serving).matched.toOption
  | false =>
    have bypassing : Bypassing (s.outerPage ctx path st).2
        { st with tally := (s.outerPage ctx path st).2.tally } :=
      ⟨rfl, (s.enabled_outerPage ctx path st).trans enabled, enabled⟩
    exact ((s.simulates_bypassing _).renderBare layout bypassing).matched.toOption

/-- Rendering with the layout is rendering the page, and then the layout around it. -/
theorem toOption_render {layout : Text} (applies : s.config.layoutFor? ctx = some layout)
    (last : s.config.hooks.afterRender = .none)
    (steady : st.cache.enabled = true → s.config.hooks.beforeCompile.Steady ctx) :
    (s.render ctx path st).1.toOption =
      (s.renderBare ctx path st).1.toOption.bind fun body =>
        (s.renderBare (layoutContext ctx body) layout
          { st with tally := (s.renderBare ctx path st).2.tally }).1.toOption := by
  have page : s.renderBare ctx path st = s.outerPage ctx path st := finish_of_none last _
  rw [page]
  unfold render
  rw [applies]
  have rest := fun body layout => renderBare_after_outerPage steady path body layout
  revert rest
  obtain ⟨r, st'⟩ := s.outerPage ctx path st
  intro rest
  cases r with
  | error e => simp [finish_of_none last, Except.toOption]
  | ok body =>
    exact (congrArg (fun r => r.1.toOption) (finish_of_none last _)).trans (rest body layout)

end Setting

theorem toOption_eq_some_iff {ε α : Type} {r : Except ε α} {a : α} :
    r.toOption = some a ↔ r = .ok a := by
  cases r <;> simp [Except.toOption]

namespace Engine

open Setting

def withTally (e : Engine σ) (t : σ) : Engine σ := { e with tally := t }

/-- Where a layout applies, a render succeeds exactly if the page does without the layout and the
layout does in the context with the page as its body, and gives what the latter gives.  Both may
start from the same cache; pure values and hooks are in the same state, too.  In the layout, what is
filled in stands as it is between texts that do not depend on it, and a placeholder for the body has
the page.  No layout has an influence on an included template. -/
theorem render_eq_ok_iff (e : Engine σ) (ctx : Context σ) (path layout : Text)
    (applies : e.config.layoutFor? ctx = some layout)
    (last : e.config.hooks.afterRender = .none)
    (steady : e.timed.cache.enabled = true → e.config.hooks.beforeCompile.Steady ctx) :
    (∀ html, (e.render ctx path).1 = .ok html ↔ ∃ body,
      (e.get ctx path true).1 = some body ∧
      ((e.withTally (e.get ctx path true).2.tally).get (layoutContext ctx body) layout true).1 =
        some html) ∧
    (ctx.Pure → e.config.hooks.beforeCompile.Pure ctx → e.config.hooks.beforeRender.Pure ctx →
      e.withTally (e.get ctx path true).2.tally = e) ∧
    (ctx.contains bodyKey = false → ∀ body nested artifact st,
      (e.setting.fillArtifact nested (layoutContext ctx body) artifact st).1 =
        Text.weave
          (e.setting.frame (layoutContext ctx body) artifact st
            ((e.setting.fillings nested (layoutContext ctx body) artifact st).map Prod.snd))
          ((e.setting.fillings nested (layoutContext ctx body) artifact st).filterMap Prod.snd) ∧
      ∀ p answer, (p, answer) ∈ e.setting.fillings nested (layoutContext ctx body) artifact st →
        p.request? = some (.value bodyKey) → answer = some (p.escape body)) ∧
    ∀ other ctx room, (e.setting.withLayout other).includePath ctx room =
      e.setting.includePath ctx room := by
  refine ⟨fun html => ?_, fun pure compile before => ?_, fun free body nested artifact st =>
    ⟨fillArtifact_eq_weave, fun p answer member request => filling_of_body free request member⟩,
    fun other ctx room => e.setting.includePath_withLayout other ctx room⟩
  · rw [← toOption_eq_some_iff]
    have composed : (e.setting.render ctx path e.session).1.toOption = _ :=
      toOption_render applies last steady
    exact (congrArg (· = some html) composed).to_iff.trans Option.bind_eq_some_iff
  · have after : e.config.hooks.afterRender.Pure ctx := by
      rw [last]
      exact fun text => ⟨none, fun _ => rfl⟩
    have same : (e.setting.renderBare ctx path e.session).2.tally = e.tally := by
      have page : e.setting.renderBare ctx path e.session =
          e.setting.outerPage ctx path e.session := finish_of_none last _
      exact (congrArg (·.2.tally) page).trans
        (tally_outerPage (s := e.setting) pure compile before after)
    unfold withTally
    rw [show (e.get ctx path true).2.tally = e.tally from same]

theorem steady_none (ctx : Context σ) : SourceHook.Steady .none ctx :=
  ⟨id, fun _ _ => rfl, fun _ _ _ => rfl⟩

/-- An engine whose layout includes a template that its page includes, too. -/
def sharing (beforeCompile : SourceHook Unit) : Engine Unit :=
  create { layout := some "frame", hooks := { beforeCompile } }
    { templates :=
        [("page", "<p>\x7b\x7b\x7b#part\x7d\x7d\x7d</p>"), ("part", "<b>x</b>"),
          ("frame", "<i>\x7b\x7b\x7b#part\x7d\x7d\x7d</i>\x7b\x7b\x7bbody\x7d\x7d\x7d")] } ()

theorem render_sharing :
    ((sharing .none).render Context.empty "page").1 = .ok "<i><b>x</b></i><p><b>x</b></p>" := by
  obtain ⟨composed, -⟩ := render_eq_ok_iff (sharing .none) Context.empty "page" "frame" rfl rfl
    fun _ => steady_none Context.empty
  refine (composed _).mpr ⟨"<p><b>x</b></p>", ?_, ?_⟩
  · decide +kernel
  · decide +kernel

def bodyHook : SourceHook Unit := fun source ctx t =>
  let (body, t) := ctx.resolve bodyKey t
  (body.map (source ++ ·), t)

/-- With a hook that looks at the body it matters that the page has compiled what the layout
includes. -/
theorem render_ne_of_bodyHook :
    (sharing bodyHook).config.layoutFor? Context.empty = some "frame" ∧
      (sharing bodyHook).config.hooks.afterRender = .none ∧
      (Context.empty : Context Unit).Pure ∧
      ¬∀ html, ((sharing bodyHook).render Context.empty "page").1 = .ok html ↔ ∃ body,
        ((sharing bodyHook).get Context.empty "page" true).1 = some body ∧
        ((sharing bodyHook).get (layoutContext Context.empty body) "frame" true).1 = some html := by
  refine ⟨rfl, rfl, fun _ _ => nofun, fun composed => ?_⟩
  have claimed := (composed "<i><b>x</b><p><b>x</b></p></i><p><b>x</b></p><p><b>x</b></p>").mpr
    ⟨"<p><b>x</b></p>", by decide +kernel, by decide +kernel⟩
  rw [← toOption_eq_some_iff] at claimed
  revert claimed
  decide +kernel

end Engine

end Stencil
