import Stencil.Proofs.Engine.Layout
import Stencil.Proofs.Engine.Visit
import Stencil.Proofs.Render.Including

/-!
# Templates that include each other

However templates include each other, a render goes no deeper than a fixed number of levels, and it
renders the layout at most once, around the page (`Setting.render_nesting`).  A placeholder that
includes a template on the last level stays as it is.

So a template that includes itself is repeated once for each level, with its placeholder in the
middle (`Setting.page_selfIncluding`).
-/

namespace Stencil

variable {σ : Type}

namespace Text

def times (n : Nat) (s : Text) : Text := (List.replicate n s).flatten

theorem times_succ (n : Nat) (s : Text) : times (n + 1) s = s ++ times n s := by
  simp [times, List.replicate_succ]

theorem times_succ' (n : Nat) (s : Text) : times (n + 1) s = times n s ++ s := by
  simp [times, List.replicate_succ']

end Text

namespace Setting

variable {s : Setting σ} {ctx : Context σ}

theorem gives_of_plain (plain : s.config.hooks = {}) (ctx : Context σ) :
    s.config.hooks.beforeCompile.Gives id ctx := by
  rw [plain]
  exact fun _ _ => rfl

section Enclosed

variable {name before after path i : Text} {artifact : Artifact}
  (encloses : Encloses name before after)
  (asks : Request.parse? ('#' :: name) = some (.template path)) (plain : s.config.hooks = {})
  (skeleton : artifact.skeleton = before ++ ((Placeholder.including name).written ++ after))
  (ctx : Context σ)

include encloses asks plain skeleton

/-- Without hooks, a template that includes another one is what that gives between two texts. -/
theorem fillArtifact_enclosed (nested : Text → Session σ → Option Text × Session σ)
    (st : Session σ) :
    s.fillArtifact nested ctx artifact st =
      (before ++ ((nested path st).1.getD (Placeholder.including name).written ++ after),
        (nested path st).2) := by
  unfold fillArtifact Session.runHook
  simp only [plain, SourceHook.apply, SourceHook.none, Option.getD_none, skeleton]
  rw [encloses.fillValues_eq asks]
  dsimp only
  rw [encloses.reinsertTags_parts]

/-- A template with one include is its two texts around what is included, or around the placeholder
where there is nothing to include. -/
theorem page_enclosed (nested : Text → Session σ → Option Text × Session σ) {st : Session σ}
    (served : s.serves id i st = some artifact) :
    ∃ st', s.serves id i st' = some artifact ∧
      s.page nested ctx i st =
        (.ok (before ++ ((nested path st').1.getD (Placeholder.including name).written ++ after)),
          (nested path st').2) := by
  have gives := gives_of_plain plain ctx
  have compiled : (s.compileId ctx i st).1 = .ok artifact :=
    toOption_eq_some_iff.mp ((toOption_compileId gives).trans served)
  refine ⟨(s.compileId ctx i st).2, (serves_compileId gives i).trans served, ?_⟩
  have filled := fillArtifact_enclosed encloses asks plain skeleton ctx nested
    (s.compileId ctx i st).2
  unfold page
  generalize s.compileId ctx i st = r at compiled filled ⊢
  obtain ⟨_, st'⟩ := r
  obtain rfl : _ = Except.ok artifact := compiled
  exact congrArg (fun r => (Except.ok r.1, r.2)) filled

/-- A template that includes itself is repeated once for each level that is left, and once for
itself, with the placeholder in the middle: by induction on the levels. -/
theorem page_selfIncluding (room : Nat) (st : Session σ)
    (served : s.serves id (s.config.templateId path) st = some artifact) :
    (s.page (s.includePath ctx room) ctx (s.config.templateId path) st).1 =
      .ok (Text.times (room + 1) before ++
        ((Placeholder.including name).written ++ Text.times (room + 1) after)) := by
  induction room generalizing st with
  | zero =>
    obtain ⟨st', -, page⟩ := page_enclosed encloses asks plain skeleton ctx
      (s.includePath ctx 0) served
    rw [page]
    simp [includePath, Text.times]
  | succ room ih =>
    obtain ⟨st', served, page⟩ := page_enclosed encloses asks plain skeleton ctx
      (s.includePath ctx (room + 1)) served
    have nested : (s.includePath ctx (room + 1) path st').1 = some (Text.times (room + 1) before ++
        ((Placeholder.including name).written ++ Text.times (room + 1) after)) := by
      simp only [includePath]
      rw [finish_of_none (by rw [plain]), ih st' served]
      rfl
    rw [page, nested, Option.getD_some, Text.times_succ (room + 1) before,
      Text.times_succ' (room + 1) after]
    simp only [List.append_assoc]

end Enclosed

/-- A template above the last level renders what it includes one level further down. -/
theorem includedAt_of_lt (s : Setting σ) (ctx : Context σ) {depth : Nat} (above : depth < maxDepth)
    (path : Text) (t : Logged σ) :
    s.includedAt ctx depth path t =
      ((s.finishLogged ctx (s.pageLogged .included (depth + 1) (s.includedAt ctx (depth + 1)) ctx
          (s.config.templateId path) t)).1.toOption,
        (s.finishLogged ctx (s.pageLogged .included (depth + 1) (s.includedAt ctx (depth + 1)) ctx
          (s.config.templateId path) t)).2) := by
  have room : maxDepth - depth = (maxDepth - (depth + 1)) + 1 := by omega
  unfold includedAt
  rw [room]
  rfl

/-- On the last level nothing is included. -/
theorem includedAt_of_le (s : Setting σ) (ctx : Context σ) {depth : Nat} (last : maxDepth ≤ depth)
    (path : Text) (t : Logged σ) : s.includedAt ctx depth path t = (none, t) := by
  unfold includedAt
  rw [Nat.sub_eq_zero_of_le last]
  rfl

/-- Every visit of a render lies within the levels that are allowed, and the layout is visited once
at most, after the page and all that it includes.  A placeholder that includes a template on the
last level is left as text of the template, and nothing is visited for it.  Where neither a layout
nor hooks interfere, a template that includes itself is repeated for every level. -/
theorem render_nesting (s : Setting σ) (ctx : Context σ) (path : Text) (st : Session σ) :
    Logged.erase (s.renderLogged ctx path ⟨st, []⟩) = s.render ctx path st ∧
    (∃ page rest, (s.renderLogged ctx path ⟨st, []⟩).2.log = page ++ rest ∧
      Visit.Outermost .page (s.config.templateId path) page ∧
      (rest = [] ∨ ∃ layout, s.config.layoutFor? ctx = some layout ∧
        Visit.Outermost .layout (s.config.templateId layout) rest)) ∧
    (∀ ctx depth, depth < maxDepth → ∀ path t,
      s.includedAt ctx depth path t =
        let r := s.finishLogged ctx (s.pageLogged .included (depth + 1)
          (s.includedAt ctx (depth + 1)) ctx (s.config.templateId path) t)
        (r.1.toOption, r.2)) ∧
    (∀ ctx depth, maxDepth ≤ depth → ∀ value source p pieces path t,
      p.request? = some (.template path) →
      fillPieces ⟨value, s.includedAt ctx depth⟩ (.found source p :: pieces) t =
        (Part.consTemplate source (fillPieces ⟨value, s.includedAt ctx depth⟩ pieces t).1,
          (fillPieces ⟨value, s.includedAt ctx depth⟩ pieces t).2)) ∧
    ∀ name before after artifact, s.config.hooks = {} → s.config.layoutFor? ctx = none →
      Request.parse? ('#' :: name) = some (.template path) → Encloses name before after →
      (s.compileId ctx (s.config.templateId path) st).1 = .ok artifact →
      artifact.skeleton = before ++ ((Placeholder.including name).written ++ after) →
      (s.render ctx path st).1 = .ok (Text.times 33 before ++
        ((Placeholder.including name).written ++ Text.times 33 after)) := by
  refine ⟨s.erase_renderLogged ctx path ⟨st, []⟩, ?_,
    fun ctx depth above path t => s.includedAt_of_lt ctx above path t, ?_, ?_⟩
  · obtain ⟨page, rest, adds, outermost, layout⟩ := s.adds_renderLogged ctx path ⟨st, []⟩
    exact ⟨page, rest, adds.log, outermost, layout⟩
  · intro ctx depth last value source p pieces path t request
    simp [fillPieces, Placeholder.fill, request, s.includedAt_of_le ctx last]
  · intro name before after artifact plain bare asks encloses compiled skeleton
    have served : s.serves id (s.config.templateId path) st = some artifact :=
      (toOption_compileId (gives_of_plain plain ctx)).symm.trans
        (toOption_eq_some_iff.mpr compiled)
    rw [render_of_bare bare, renderBare, finish_of_none (by rw [plain])]
    exact page_selfIncluding encloses asks plain skeleton ctx maxDepth st served

/-- A template that includes itself, over and over. -/
def endless : Setting Unit where
  config := {}
  source _ := .ok "<i>\x7b\x7b\x7b#self\x7d\x7d\x7d</i>"
  now := 0

theorem render_nesting_endless :
    (endless.render {} "self" ⟨{}, [], ()⟩).1 = .ok (Text.times 33 "<i>" ++
      ("\x7b\x7b\x7b#self\x7d\x7d\x7d".toList ++ Text.times 33 "</i>")) := by
  obtain ⟨-, -, -, -, repeated⟩ := render_nesting endless {} "self" ⟨{}, [], ()⟩
  refine repeated "self" "<i>" "</i>" ⟨"<i>\x7b\x7b\x7b#self\x7d\x7d\x7d</i>", {}⟩ rfl rfl rfl
    ⟨by decide, by decide, by decide, by decide, by decide⟩ ?_ rfl
  exact toOption_eq_some_iff.mp (by decide +kernel)

end Setting

end Stencil
