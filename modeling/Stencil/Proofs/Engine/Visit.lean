import Stencil.Proofs.Engine.Compilation
import Stencil.Proofs.Render.Simulation

/-!
# The templates that a render visits

A render compiles templates one after the other: the page, what it includes at any depth, and the
layout.  Here it keeps a log of these visits, each with its depth and with the session that it
finds.  The log has no influence on the render (`Setting.erase_renderLogged`).

The visits of a render make up a course from its first session to its last: between two visits
nothing but the state of lazy values changes (`Course`).  Included templates are visited at depths
between those of the page and the last one that is allowed (`Setting.extends_includedLogged`).
-/

namespace Stencil

variable {σ α : Type}

inductive Role where
  /-- For itself, with nothing rendered. -/
  | compiled
  | page | included | layout
  deriving DecidableEq, Repr

/-- A template that is about to be compiled. -/
structure Visit (σ : Type) where
  setting : Setting σ
  role : Role
  /-- How many templates include each other down to this one. -/
  depth : Nat
  ctx : Context σ
  id : Text
  session : Session σ

namespace Visit

/-- What compiling the template gives, and the session after it. -/
def outcome (v : Visit σ) : Except RenderError Artifact × Session σ :=
  v.setting.compileId v.ctx v.id v.session

def reads (v : Visit σ) : List Text := v.outcome.2.reads.drop v.session.reads.length

/-- Whether an included template is visited, with at most some levels between it and a depth. -/
structure Below (depth room : Nat) (v : Visit σ) : Prop where
  role : v.role = .included
  deeper : depth < v.depth
  bounded : v.depth ≤ depth + room

end Visit

/-- A session with a log of visits. -/
structure Logged (σ : Type) where
  session : Session σ
  log : List (Visit σ) := []

namespace Logged

def carry (t : Logged σ) (r : α × Session σ) : α × Logged σ := (r.1, { t with session := r.2 })

def enter (t : Logged σ) (v : Visit σ) : Logged σ := ⟨v.outcome.2, t.log ++ [v]⟩

def erase (r : α × Logged σ) : α × Session σ := (r.1, r.2.session)

end Logged

namespace Setting

variable {s : Setting σ} {ctx : Context σ}

/-- Fills a compiled template as `fillArtifact` does. -/
def fillLogged (s : Setting σ) (nested : Text → Logged σ → Option Text × Logged σ)
    (ctx : Context σ) (artifact : Artifact) (t : Logged σ) : Text × Logged σ :=
  let (skeleton, t) :=
    t.carry (t.session.runHook s.config.hooks.beforeRender artifact.skeleton ctx)
  let (parts, t) :=
    fillValues ⟨fun key t => t.carry (Session.resolve ctx key t.session), nested⟩ skeleton t
  (reinsertTags artifact.tags (ctx.nonce.or s.config.nonce) parts, t)

/-- Renders a template as `page` does, and logs its visit. -/
def pageLogged (s : Setting σ) (role : Role) (depth : Nat)
    (nested : Text → Logged σ → Option Text × Logged σ) (ctx : Context σ) (id : Text)
    (t : Logged σ) : Except RenderError Text × Logged σ :=
  let v : Visit σ := ⟨s, role, depth, ctx, id, t.session⟩
  let t := t.enter v
  match v.outcome.1 with
  | .error e => (.error e, t)
  | .ok artifact =>
    let (html, t) := s.fillLogged nested ctx artifact t
    (.ok html, t)

def finishLogged (s : Setting σ) (ctx : Context σ) :
    Except RenderError Text × Logged σ → Except RenderError Text × Logged σ
  | (.error e, t) => (.error e, t)
  | (.ok html, t) =>
    let (html, t) := t.carry (t.session.runHook s.config.hooks.afterRender html ctx)
    (.ok html, t)

/-- Renders what a template at a depth includes as `includePath` does, and logs the visits. -/
def includedLogged (s : Setting σ) (ctx : Context σ) :
    (room depth : Nat) → Text → Logged σ → Option Text × Logged σ
  | 0, _ => fun _ t => (none, t)
  | room + 1, depth => fun path t =>
    let (r, t) := s.finishLogged ctx <|
      s.pageLogged .included (depth + 1) (includedLogged s ctx room (depth + 1)) ctx
        (s.config.templateId path) t
    (r.toOption, t)

/-- Renders what a template at a depth includes, down to the last depth that is allowed. -/
def includedAt (s : Setting σ) (ctx : Context σ) (depth : Nat) :
    Text → Logged σ → Option Text × Logged σ :=
  s.includedLogged ctx (maxDepth - depth) depth

def outerLogged (s : Setting σ) (role : Role) (ctx : Context σ) (path : Text) (t : Logged σ) :
    Except RenderError Text × Logged σ :=
  s.pageLogged role 0 (s.includedAt ctx 0) ctx (s.config.templateId path) t

def bareLogged (s : Setting σ) (role : Role) (ctx : Context σ) (path : Text) (t : Logged σ) :
    Except RenderError Text × Logged σ :=
  s.finishLogged ctx (s.outerLogged role ctx path t)

/-- Renders a page and the layout around it as `render` does, and logs the visits. -/
def renderLogged (s : Setting σ) (ctx : Context σ) (path : Text) (t : Logged σ) :
    Except RenderError Text × Logged σ :=
  match s.outerLogged .page ctx path t, s.config.layoutFor? ctx with
  | (.ok html, t), some layout =>
    s.finishLogged ctx (s.bareLogged .layout (layoutContext ctx html) layout t)
  | r, _ => s.finishLogged ctx r

section Erasure

variable {nested : Text → Session σ → Option Text × Session σ}
  {nestedLogged : Text → Logged σ → Option Text × Logged σ}

/-- Without the log, filling a template is what it is without logging. -/
theorem erase_fillLogged (s : Setting σ) (ctx : Context σ)
    (erases : ∀ path t, Logged.erase (nestedLogged path t) = nested path t.session)
    (artifact : Artifact) (t : Logged σ) :
    Logged.erase (s.fillLogged nestedLogged ctx artifact t) =
      s.fillArtifact nested ctx artifact t.session := by
  have sources : Sources.Related (fun (t : Logged σ) st => t.session = st)
      ⟨fun key t => t.carry (Session.resolve ctx key t.session), nestedLogged⟩
      ⟨Session.resolve ctx, nested⟩ := by
    constructor
    case value =>
      rintro name t _ rfl
      exact ⟨rfl, rfl⟩
    case template =>
      rintro path t _ rfl
      exact Prod.ext_iff.mp (erases path t)
  unfold fillLogged fillArtifact
  obtain ⟨parts, session⟩ := sources.fillValues
    (t.session.runHook s.config.hooks.beforeRender artifact.skeleton ctx).1
    (t := (t.carry (t.session.runHook s.config.hooks.beforeRender artifact.skeleton ctx)).2) rfl
  exact Prod.ext (congrArg (reinsertTags _ _) parts) session

/-- Without the log, rendering a page is what it is without logging. -/
theorem erase_pageLogged (s : Setting σ) (ctx : Context σ)
    (erases : ∀ path t, Logged.erase (nestedLogged path t) = nested path t.session)
    (role : Role) (depth : Nat) (id : Text) (t : Logged σ) :
    Logged.erase (s.pageLogged role depth nestedLogged ctx id t) =
      s.page nested ctx id t.session := by
  unfold pageLogged page Logged.enter Visit.outcome
  dsimp only
  obtain ⟨r, st⟩ := s.compileId ctx id t.session
  cases r with
  | error e => rfl
  | ok artifact =>
    have filled := s.erase_fillLogged ctx erases artifact
      ⟨st, t.log ++ [⟨s, role, depth, ctx, id, t.session⟩]⟩
    exact congrArg (fun r => (Except.ok r.1, r.2)) filled

theorem erase_finishLogged (r : Except RenderError Text × Logged σ) :
    Logged.erase (s.finishLogged ctx r) = s.finish ctx (Logged.erase r) := by
  obtain ⟨r, t⟩ := r
  cases r <;> rfl

/-- Without the log, an include is what it is without logging, by induction on the levels left. -/
theorem erase_includedLogged (s : Setting σ) (ctx : Context σ) (room depth : Nat) (path : Text)
    (t : Logged σ) :
    Logged.erase (s.includedLogged ctx room depth path t) =
      s.includePath ctx room path t.session := by
  induction room generalizing depth path t with
  | zero => rfl
  | succ room ih =>
    have page := s.erase_pageLogged ctx (ih (depth + 1)) .included (depth + 1)
      (s.config.templateId path) t
    simp only [includedLogged, includePath]
    rw [← page, ← erase_finishLogged]
    rfl

theorem erase_outerLogged (s : Setting σ) (role : Role) (ctx : Context σ) (path : Text)
    (t : Logged σ) :
    Logged.erase (s.outerLogged role ctx path t) = s.outerPage ctx path t.session :=
  s.erase_pageLogged ctx (s.erase_includedLogged ctx maxDepth 0) role 0 (s.config.templateId path) t

theorem erase_bareLogged (s : Setting σ) (role : Role) (ctx : Context σ) (path : Text)
    (t : Logged σ) :
    Logged.erase (s.bareLogged role ctx path t) = s.renderBare ctx path t.session := by
  unfold bareLogged renderBare
  rw [erase_finishLogged, erase_outerLogged]

/-- Without its log a render is the one that keeps no log. -/
theorem erase_renderLogged (s : Setting σ) (ctx : Context σ) (path : Text) (t : Logged σ) :
    Logged.erase (s.renderLogged ctx path t) = s.render ctx path t.session := by
  unfold renderLogged render
  rw [← s.erase_outerLogged .page ctx path t]
  obtain ⟨r, t⟩ := s.outerLogged .page ctx path t
  cases r with
  | error e => exact erase_finishLogged _
  | ok html =>
    cases s.config.layoutFor? ctx with
    | none => exact erase_finishLogged _
    | some layout =>
      dsimp only [Logged.erase]
      rw [← s.erase_bareLogged .layout]
      exact erase_finishLogged _

end Erasure

end Setting

/-- From one session to another by visits of templates, between which nothing but the state of lazy
values changes. -/
inductive Course (s : Setting σ) : Session σ → List (Visit σ) → Session σ → Prop where
  | done (st : Session σ) : Course s st [] st
  | touch {st st' : Session σ} {visits : List (Visit σ)} (t : σ)
      (rest : Course s { st with tally := t } visits st') : Course s st visits st'
  | visit {v : Visit σ} {st' : Session σ} {visits : List (Visit σ)} (setting : v.setting = s)
      (rest : Course s v.outcome.2 visits st') : Course s v.session (v :: visits) st'

theorem Course.append {s : Setting σ} {st st' st'' : Session σ} {visits more : List (Visit σ)}
    (first : Course s st visits st') (second : Course s st' more st'') :
    Course s st (visits ++ more) st'' := by
  induction first with
  | done st => exact second
  | touch t rest ih => exact .touch t (ih second)
  | visit setting rest ih => exact .visit setting (ih second)

namespace Logged

variable {s : Setting σ} {t t' t'' : Logged σ} {visits more : List (Visit σ)}
  {allowed : Visit σ → Prop}

/-- The log goes on by some visits, along with its session. -/
structure Adds (s : Setting σ) (visits : List (Visit σ)) (t t' : Logged σ) : Prop where
  log : t'.log = t.log ++ visits
  course : Course s t.session visits t'.session

theorem Adds.trans (first : Adds s visits t t') (second : Adds s more t' t'') :
    Adds s (visits ++ more) t t'' :=
  ⟨by rw [second.log, first.log, List.append_assoc], first.course.append second.course⟩

theorem adds_nil (s : Setting σ) (t : Logged σ) : Adds s [] t t := ⟨by simp, .done t.session⟩

theorem adds_touch (s : Setting σ) (t : Logged σ) (u : σ) :
    Adds s [] t { t with session := { t.session with tally := u } } :=
  ⟨by simp, .touch u (.done _)⟩

theorem adds_enter {v : Visit σ} (setting : v.setting = s) (session : v.session = t.session) :
    Adds s [v] t (t.enter v) :=
  ⟨rfl, session ▸ .visit setting (.done _)⟩

/-- The log goes on by visits that are allowed. -/
def Extends (s : Setting σ) (allowed : Visit σ → Prop) (t t' : Logged σ) : Prop :=
  ∃ visits, Adds s visits t t' ∧ ∀ v ∈ visits, allowed v

theorem Extends.refl (s : Setting σ) (allowed : Visit σ → Prop) (t : Logged σ) :
    Extends s allowed t t :=
  ⟨[], adds_nil s t, by simp⟩

theorem Extends.trans (first : Extends s allowed t t') (second : Extends s allowed t' t'') :
    Extends s allowed t t'' := by
  obtain ⟨visits, adds, all⟩ := first
  obtain ⟨more, adds', all'⟩ := second
  exact ⟨visits ++ more, adds.trans adds', List.forall_mem_append.mpr ⟨all, all'⟩⟩

theorem Extends.mono {wider : Visit σ → Prop} (h : Extends s allowed t t')
    (weaker : ∀ v, allowed v → wider v) : Extends s wider t t' := by
  obtain ⟨visits, adds, all⟩ := h
  exact ⟨visits, adds, fun v member => weaker v (all v member)⟩

theorem extends_touch (s : Setting σ) (allowed : Visit σ → Prop) (t : Logged σ) (u : σ) :
    Extends s allowed t { t with session := { t.session with tally := u } } :=
  ⟨[], adds_touch s t u, by simp⟩

end Logged

/-- The visits of a template at the outermost level: its own, and those of what it includes. -/
def Visit.Outermost (role : Role) (id : Text) (visits : List (Visit σ)) : Prop :=
  ∃ v inner, visits = v :: inner ∧ v.role = role ∧ v.depth = 0 ∧ v.id = id ∧
    ∀ w ∈ inner, w.Below 0 Setting.maxDepth

namespace Setting

open Logged

variable {s : Setting σ} {ctx : Context σ} {allowed : Visit σ → Prop}
  {nested : Text → Logged σ → Option Text × Logged σ}

/-- Filling a template extends the log only by what its includes add to it. -/
theorem extends_fillLogged (extends_nested : ∀ path t, Extends s allowed t (nested path t).2)
    (artifact : Artifact) (t : Logged σ) :
    Extends s allowed t (s.fillLogged nested ctx artifact t).2 := by
  -- A log and its session are followed from where the filling begins.
  have sources : Sources.Related (fun t' t'' => t' = t'' ∧ Extends s allowed t t')
      ⟨fun key t => t.carry (Session.resolve ctx key t.session), nested⟩
      ⟨fun key t => t.carry (Session.resolve ctx key t.session), nested⟩ := by
    constructor
    case value =>
      rintro name t' _ ⟨rfl, so⟩
      exact ⟨rfl, rfl, so.trans (extends_touch s allowed t' _)⟩
    case template =>
      rintro path t' _ ⟨rfl, so⟩
      exact ⟨rfl, rfl, so.trans (extends_nested path t')⟩
  exact (sources.fillValues _ ⟨rfl, extends_touch s allowed t _⟩).2.2

/-- A page is visited, and then what it includes. -/
theorem extends_pageLogged (ctx : Context σ)
    (extends_nested : ∀ path t, Extends s allowed t (nested path t).2)
    (role : Role) (depth : Nat) (id : Text) (t : Logged σ) :
    Extends s allowed (t.enter ⟨s, role, depth, ctx, id, t.session⟩)
      (s.pageLogged role depth nested ctx id t).2 := by
  unfold pageLogged
  dsimp only
  cases Visit.outcome ⟨s, role, depth, ctx, id, t.session⟩ |>.1 with
  | error e => exact .refl s allowed _
  | ok artifact => exact extends_fillLogged extends_nested artifact _

theorem adds_finishLogged (s : Setting σ) (ctx : Context σ)
    (r : Except RenderError Text × Logged σ) : Adds s [] r.2 (s.finishLogged ctx r).2 := by
  obtain ⟨r, t⟩ := r
  cases r with
  | error e => exact adds_nil s t
  | ok html => exact adds_touch s t _

/-- What a template includes is visited below it, but not below the depth that is allowed: by
induction on the levels that are left. -/
theorem extends_includedLogged (s : Setting σ) (ctx : Context σ) (room depth : Nat) (path : Text)
    (t : Logged σ) :
    Extends s (Visit.Below depth room) t (s.includedLogged ctx room depth path t).2 := by
  induction room generalizing depth path t with
  | zero => exact .refl s _ t
  | succ room ih =>
    have below (v : Visit σ) (h : v.Below (depth + 1) room) : v.Below depth (room + 1) := by
      obtain ⟨role, deeper, bounded⟩ := h
      exact ⟨role, by omega, by omega⟩
    have entered : Extends s (Visit.Below depth (room + 1)) t (t.enter
        ⟨s, .included, depth + 1, ctx, s.config.templateId path, t.session⟩) := by
      refine ⟨_, adds_enter rfl rfl, ?_⟩
      simp only [List.forall_mem_singleton]
      exact ⟨rfl, Nat.lt_succ_self depth, Nat.add_le_add_left (Nat.le_add_left 1 room) depth⟩
    have inside := (extends_pageLogged ctx (ih (depth + 1)) .included (depth + 1)
      (s.config.templateId path) t).mono below
    exact entered.trans (inside.trans ⟨[], s.adds_finishLogged ctx _, by simp⟩)

theorem adds_outerLogged (s : Setting σ) (role : Role) (ctx : Context σ) (path : Text)
    (t : Logged σ) : ∃ visits, Adds s visits t (s.outerLogged role ctx path t).2 ∧
      Visit.Outermost role (s.config.templateId path) visits := by
  obtain ⟨inner, adds, all⟩ := extends_pageLogged ctx
    (s.extends_includedLogged ctx maxDepth 0) role 0 (s.config.templateId path) t
  have entered : Adds s [⟨s, role, 0, ctx, s.config.templateId path, t.session⟩] t _ :=
    adds_enter rfl rfl
  exact ⟨_, entered.trans adds, _, inner, rfl, rfl, rfl, rfl, all⟩

theorem adds_bareLogged (s : Setting σ) (role : Role) (ctx : Context σ) (path : Text)
    (t : Logged σ) : ∃ visits, Adds s visits t (s.bareLogged role ctx path t).2 ∧
      Visit.Outermost role (s.config.templateId path) visits := by
  obtain ⟨visits, adds, outermost⟩ := s.adds_outerLogged role ctx path t
  have finished := adds.trans (s.adds_finishLogged ctx _)
  rw [List.append_nil] at finished
  exact ⟨visits, finished, outermost⟩

/-- The visits of a render are those of the page, and then those of the layout, if one applies. -/
theorem adds_renderLogged (s : Setting σ) (ctx : Context σ) (path : Text) (t : Logged σ) :
    ∃ page rest, Adds s (page ++ rest) t (s.renderLogged ctx path t).2 ∧
      Visit.Outermost .page (s.config.templateId path) page ∧
      (rest = [] ∨ ∃ layout, s.config.layoutFor? ctx = some layout ∧
        Visit.Outermost .layout (s.config.templateId layout) rest) := by
  obtain ⟨page, adds, outermost⟩ := s.adds_outerLogged .page ctx path t
  have alone {r : Except RenderError Text × Logged σ} (adds : Adds s page t r.2) :
      Adds s (page ++ []) t (s.finishLogged ctx r).2 := adds.trans (s.adds_finishLogged ctx r)
  unfold renderLogged
  generalize s.outerLogged .page ctx path t = r at adds
  obtain ⟨r, t'⟩ := r
  cases r with
  | error e => exact ⟨page, [], alone adds, outermost, .inl rfl⟩
  | ok html =>
    cases applies : s.config.layoutFor? ctx with
    | none => exact ⟨page, [], alone adds, outermost, .inl rfl⟩
    | some layout =>
      obtain ⟨rest, adds', outermost'⟩ :=
        s.adds_bareLogged .layout (layoutContext ctx html) layout t'
      have whole := (adds.trans adds').trans (s.adds_finishLogged ctx _)
      rw [List.append_nil] at whole
      exact ⟨page, rest, whole, outermost, .inr ⟨layout, rfl, outermost'⟩⟩

end Setting

end Stencil
