import Mathlib.Algebra.GroupWithZero.Nat
import Stencil.Proofs.Context.Settling
import Stencil.Proofs.Engine.Nesting
import Stencil.Proofs.Engine.Reading

/-!
# How often a lazy value is asked for

A context may hold one lazy value that counts: whenever it is asked for it goes one further, and
gives something for the new count.  A render asks for it once for each placeholder with its name, in
the page, in every template that is included as often as it is rendered, and in the layout.

What a render gives can therefore be said without following it (`Setting.numbered`): each
placeholder has the count at which the page begins and as many more as the placeholders before it
ask for, those that include a template as many as there are in it (`Setting.occurrences`).  The
proof compares a render with one over plain numbers, which do the same in related states.
-/

namespace Stencil

variable {σ : Type}

namespace Context

/-- Whether a context has a lazy value under a key that counts how often it is computed, with a
plain value to show for each count, and no other lazy values. -/
structure Counts (ctx : Context Nat) (c : Text) (shows : Nat → Option Text) : Prop where
  counter : ∃ compute, Keyed.get? ctx.values c = some (.lazy compute) ∧
    ∀ resolve n, ∃ value, compute resolve n = (value, n + 1) ∧ value.Plain ∧
      value.plainText? = shows (n + 1)
  others : ∀ key value, Keyed.get? ctx.values key = some value → key ≠ c → value.Plain

/-- The text under a name once the value under `c` has been computed `n` times. -/
def textAt (ctx : Context Nat) (c : Text) (shows : Nat → Option Text) (n : Nat) (name : Text) :
    Option Text :=
  if name = c then shows (n + 1) else (Keyed.get? ctx.values name).bind Value.plainText?

variable {ctx : Context Nat} {c : Text} {shows : Nat → Option Text}

/-- Only asking for the counting value counts, and that counts once. -/
theorem Counts.resolve (counts : ctx.Counts c shows) (name : Text) (n : Nat) :
    ctx.resolve name n = (ctx.textAt c shows n name, n + if name = c then 1 else 0) := by
  unfold Context.resolve Context.resolveWith textAt
  by_cases same : name = c
  · obtain ⟨compute, known, computes⟩ := counts.counter
    obtain ⟨value, computed, plain, shown⟩ := computes (ctx.resolveWith ctx.values.length) n
    subst same
    rw [known, if_pos rfl, if_pos rfl, ← shown]
    dsimp only
    rw [Value.maxSteps, Value.settle, computed]
    exact plain.settle _ _ _
  · cases known : Keyed.get? ctx.values name with
    | none => simp [same]
    | some value =>
      simp [same, Value.maxSteps, (counts.others name value known same).settle]

/-- The context of the layout counts on. -/
theorem Counts.layoutContext (counts : ctx.Counts c shows) (html : Text) :
    (Setting.layoutContext ctx html).Counts c shows := by
  unfold Setting.layoutContext
  split
  · exact counts
  · rename_i free
    obtain ⟨compute, known, computes⟩ := counts.counter
    have other : c ≠ Setting.bodyKey := by
      rintro rfl
      simp [Context.contains, Keyed.contains, known] at free
    refine ⟨⟨compute, ?_, computes⟩, fun key value there apart => ?_⟩
    · simpa [Context.set, Keyed.get?_insert, other] using known
    · rw [Context.set, Keyed.get?_insert] at there
      split at there
      · exact Option.some.inj there ▸ .literal _
      · exact counts.others key value there apart

end Context

namespace Placeholder

/-- The text for a placeholder, where values and templates are as given. -/
def textFrom (p : Placeholder) (value template : Text → Option Text) : Option Text :=
  (p.fill ⟨fun name t => (value name, t), fun path t => (template path, t)⟩ ()).1

/-- How often a value is asked for in filling a placeholder, where `included` says how often in
including a template. -/
def asks (c : Text) (included : Text → Nat) (p : Placeholder) : Nat :=
  match p.request? with
  | some (.template path) => included path
  | some (.value name) => if name = c then 1 else 0
  | some (.attribute _ name _) => if name = c then 1 else 0
  | none => 0

end Placeholder

/-- Texts that depend on a number, each of which makes it greater by as much as is known. -/
def Sources.adding (value template : Nat → Text → Option Text) (c : Text) (included : Text → Nat) :
    Sources Nat :=
  ⟨fun name n => (value n name, n + if name = c then 1 else 0),
    fun path n => (template n path, n + included path)⟩

section Adding

variable {value template : Nat → Text → Option Text} {c : Text} {included : Text → Nat}

theorem fill_adding (p : Placeholder) (n : Nat) :
    p.fill (.adding value template c included) n =
      (p.textFrom (value n) (template n), n + p.asks c included) := by
  unfold Placeholder.textFrom Placeholder.fill Placeholder.asks
  cases p.request? with
  | none => rfl
  | some request => cases request <;> rfl

/-- Each placeholder is filled at the number to which those before it have led. -/
theorem answers_adding (pieces : List (Piece Placeholder)) (n : Nat) :
    answers (.adding value template c included) pieces n =
      (Text.foundValues pieces).mapIdx fun j p =>
        let m := n + (((Text.foundValues pieces).take j).map (Placeholder.asks c included)).sum
        p.textFrom (value m) (template m) := by
  induction pieces generalizing n with
  | nil => rfl
  | cons piece pieces ih =>
    cases piece with
    | plain ch => exact ih n
    | found source p =>
      rw [answers, fill_adding, ih, Text.foundValues_found, List.mapIdx_cons]
      simp [Nat.add_assoc]

/-- Filling placeholders adds to the count what all of them ask for together. -/
theorem fillPieces_adding_snd (pieces : List (Piece Placeholder)) (n : Nat) :
    (fillPieces (.adding value template c included) pieces n).2 =
      n + ((Text.foundValues pieces).map (Placeholder.asks c included)).sum := by
  induction pieces generalizing n with
  | nil => rfl
  | cons piece pieces ih =>
    cases piece with
    | plain ch => exact ih n
    | found source p =>
      simp only [fillPieces, fill_adding]
      have rest := ih (n + p.asks c included)
      cases p.textFrom (value n) (template n) <;> simp [rest, Nat.add_assoc]

end Adding

namespace Artifact

def placeholders (a : Artifact) : List Placeholder :=
  Text.foundValues (Text.scan Placeholder.read a.skeleton)

def occurrences (c : Text) (included : Text → Nat) (a : Artifact) : Nat :=
  (a.placeholders.map (Placeholder.asks c included)).sum

/-- A compiled template as it is filled from the count `n` on, with each placeholder at `n` and what
those before it ask for. -/
def numbered (nonce : Option Nonce) (c : Text) (included : Text → Nat)
    (value template : Nat → Text → Option Text) (n : Nat) (a : Artifact) : Text :=
  let filled := a.placeholders.mapIdx fun j p =>
    let m := n + ((a.placeholders.take j).map (Placeholder.asks c included)).sum
    p.textFrom (value m) (template m)
  reinsertTags a.tags nonce (place (Text.scan Placeholder.read a.skeleton) filled)

end Artifact

namespace Setting

section Document

variable (s : Setting Nat) (serve : Text → Option Artifact) (c : Text) (shows : Nat → Option Text)

/-- How often a value is asked for in a template, where `room` levels are left, itself included. -/
def occurrencesIn : (room : Nat) → (path : Text) → Nat
  | 0, _ => 0
  | room + 1, path =>
    ((serve (s.config.templateId path)).map (·.occurrences c (occurrencesIn room))).getD 0

/-- A template as it is rendered from the count `n` on, where `room` levels are left. -/
def numberedIn (ctx : Context Nat) : (room : Nat) → (n : Nat) → (path : Text) → Option Text
  | 0, _, _ => none
  | room + 1, n, path =>
    (serve (s.config.templateId path)).map
      (·.numbered (ctx.nonce.or s.config.nonce) c (s.occurrencesIn serve c room)
        (ctx.textAt c shows) (numberedIn ctx room) n)

/-- How often a value is asked for in a render: in the page and all it includes, and then in the
layout and all that includes. -/
def occurrences (ctx : Context Nat) (path : Text) : Nat :=
  s.occurrencesIn serve c (maxDepth + 1) path +
    match serve (s.config.templateId path), s.config.layoutFor? ctx with
    | some _, some layout => s.occurrencesIn serve c (maxDepth + 1) layout
    | _, _ => 0

def numbered (ctx : Context Nat) (path : Text) (n : Nat) : Option Text :=
  let page := s.numberedIn serve c shows ctx (maxDepth + 1) n path
  match s.config.layoutFor? ctx with
  | none => page
  | some layout =>
    page.bind fun html =>
      s.numberedIn serve c shows (layoutContext ctx html) (maxDepth + 1)
        (n + s.occurrencesIn serve c (maxDepth + 1) path) layout

end Document

/-- Whether the count stands at a number in a session that serves some templates. -/
structure StandsAt (s : Setting Nat) (serve : Text → Option Artifact) (st : Session Nat) (n : Nat) :
    Prop where
  tally : st.tally = n
  serves : ∀ i, s.serves id i st = serve i

section Render

variable {s : Setting Nat} {serve : Text → Option Artifact} {c : Text} {shows : Nat → Option Text}
  {ctx : Context Nat} {st : Session Nat} {n : Nat}

theorem StandsAt.resolve (counts : ctx.Counts c shows) (h : s.StandsAt serve st n) (name : Text) :
    (Session.resolve ctx name st).1 = ctx.textAt c shows n name ∧
      s.StandsAt serve (Session.resolve ctx name st).2 (n + if name = c then 1 else 0) := by
  simp only [Session.resolve, counts.resolve, h.tally]
  exact ⟨trivial, rfl, h.serves⟩

variable (plain : s.config.hooks = {}) (counts : ctx.Counts c shows)

include plain

theorem StandsAt.compileId (h : s.StandsAt serve st n) (ctx : Context Nat) (i : Text) :
    (s.compileId ctx i st).1.toOption = serve i ∧
      s.StandsAt serve (s.compileId ctx i st).2 n := by
  have gives := gives_of_plain plain ctx
  refine ⟨(toOption_compileId gives).trans (h.serves i), (tally_compileId gives).trans h.tally, ?_⟩
  exact fun j => (serves_compileId gives j).trans (h.serves j)

/-- A template is filled from the count at which it begins, if those that it includes are. -/
theorem StandsAt.page {nested : Text → Session Nat → Option Text × Session Nat}
    {template : Nat → Text → Option Text} {included : Text → Nat}
    (related : Sources.Related (s.StandsAt serve) ⟨Session.resolve ctx, nested⟩
      (.adding (ctx.textAt c shows) template c included))
    (h : s.StandsAt serve st n) (i : Text) :
    (s.page nested ctx i st).1.toOption =
        (serve i).map (·.numbered (ctx.nonce.or s.config.nonce) c included (ctx.textAt c shows)
          template n) ∧
      s.StandsAt serve (s.page nested ctx i st).2
        (n + ((serve i).map (·.occurrences c included)).getD 0) := by
  obtain ⟨compiled, after⟩ := h.compileId plain ctx i
  unfold Setting.page
  generalize s.compileId ctx i st = r at compiled after
  obtain ⟨r, st'⟩ := r
  cases r with
  | error e =>
    have none : serve i = none := compiled.symm
    rw [none]
    exact ⟨rfl, after⟩
  | ok artifact =>
    have served : serve i = some artifact := compiled.symm
    obtain ⟨parts, filled⟩ := related.fillValues artifact.skeleton after
    have fill : s.fillArtifact nested ctx artifact st' =
        (reinsertTags artifact.tags (ctx.nonce.or s.config.nonce)
            (fillValues ⟨Session.resolve ctx, nested⟩ artifact.skeleton st').1,
          (fillValues ⟨Session.resolve ctx, nested⟩ artifact.skeleton st').2) := by
      simp [fillArtifact, Session.runHook, plain, SourceHook.apply, SourceHook.none]
    rw [served]
    dsimp only
    rw [fill, parts]
    have count : (fillValues (.adding (ctx.textAt c shows) template c included)
        artifact.skeleton n).2 = n + artifact.occurrences c included := fillPieces_adding_snd _ n
    refine ⟨?_, count ▸ filled⟩
    rw [fillValues, fillPieces_eq_place, answers_adding]
    rfl

include counts

/-- Included templates are numbered from where their placeholders stand, by induction on the levels
that are left. -/
theorem StandsAt.includePath (room : Nat) (path : Text) (h : s.StandsAt serve st n) :
    (s.includePath ctx room path st).1 = s.numberedIn serve c shows ctx room n path ∧
      s.StandsAt serve (s.includePath ctx room path st).2
        (n + s.occurrencesIn serve c room path) := by
  induction room generalizing path st n with
  | zero => exact ⟨rfl, h⟩
  | succ room ih =>
    have related : Sources.Related (s.StandsAt serve)
        ⟨Session.resolve ctx, s.includePath ctx room⟩
        (.adding (ctx.textAt c shows) (s.numberedIn serve c shows ctx room) c
          (s.occurrencesIn serve c room)) :=
      ⟨fun name st n h => h.resolve counts name, fun path st n h => ih path h⟩
    obtain ⟨page, after⟩ := h.page plain related (s.config.templateId path)
    simp only [Setting.includePath, finish_of_none (congrArg Hooks.afterRender plain)]
    exact ⟨page, after⟩

/-- A page is numbered as if it were included with all levels left. -/
theorem StandsAt.outerPage (path : Text) (h : s.StandsAt serve st n) :
    (s.outerPage ctx path st).1.toOption =
        s.numberedIn serve c shows ctx (maxDepth + 1) n path ∧
      s.StandsAt serve (s.outerPage ctx path st).2
        (n + s.occurrencesIn serve c (maxDepth + 1) path) := by
  have included := h.includePath plain counts (maxDepth + 1) path
  simp only [Setting.includePath, finish_of_none (congrArg Hooks.afterRender plain)] at included
  exact included

/-- The layout is numbered after the page. -/
theorem StandsAt.render (path : Text) (h : s.StandsAt serve st n) :
    (s.render ctx path st).1.toOption = s.numbered serve c shows ctx path n ∧
      s.StandsAt serve (s.render ctx path st).2 (n + s.occurrences serve c ctx path) := by
  have last : s.config.hooks.afterRender = .none := congrArg Hooks.afterRender plain
  obtain ⟨page, after⟩ := h.outerPage plain counts path
  cases applies : s.config.layoutFor? ctx with
  | none =>
    have alone : s.occurrences serve c ctx path =
        s.occurrencesIn serve c (maxDepth + 1) path := by
      unfold occurrences
      rw [applies]
      cases serve (s.config.templateId path) <;> rfl
    rw [render_of_bare applies, renderBare, finish_of_none last, alone]
    simp only [numbered, applies]
    exact ⟨page, after⟩
  | some layout =>
    unfold Setting.render numbered occurrences
    simp only [applies]
    rw [← page]
    have served : (s.outerPage ctx path st).1.toOption.isSome =
        (serve (s.config.templateId path)).isSome := by
      rw [page, numberedIn, Option.isSome_map]
    generalize s.outerPage ctx path st = r at after served
    obtain ⟨r, st'⟩ := r
    cases r with
    | error e =>
      have none : serve (s.config.templateId path) = none := by
        simpa [Except.toOption] using served
      rw [none]
      exact ⟨rfl, after⟩
    | ok html =>
      obtain ⟨artifact, some⟩ : ∃ artifact, serve (s.config.templateId path) = some artifact := by
        simpa [Except.toOption, Option.isSome_iff_exists] using served.symm
      obtain ⟨shown, counted⟩ := after.outerPage plain (counts.layoutContext html) layout
      rw [some]
      dsimp only
      rw [finish_of_none last, renderBare, finish_of_none last, ← Nat.add_assoc]
      exact ⟨shown, counted⟩

end Render

end Setting

/-- Whether the contexts in which a step renders count. -/
def EngineStep.Counts (c : Text) (shows : Nat → Option Text) : EngineStep Nat → Prop
  | .render ctx _ => ctx.Counts c shows
  | .get ctx _ _ => ctx.Counts c shows
  | _ => True

namespace Engine

open Setting

def serve (e : Engine Nat) (i : Text) : Option Artifact := e.setting.serves id i e.session

def occurrences (e : Engine Nat) (c : Text) : EngineStep Nat → Nat
  | .render ctx path => e.setting.occurrences e.serve c ctx path
  | .get ctx path false => e.setting.occurrences e.serve c ctx path
  | .get _ path true => e.setting.occurrencesIn e.serve c (maxDepth + 1) path
  | _ => 0

def occurrencesOver (c : Text) : Engine Nat → List (EngineStep Nat) → Nat
  | _, [] => 0
  | e, s :: steps => e.occurrences c s + occurrencesOver c (e.step s) steps

variable {e : Engine Nat} {c : Text} {shows : Nat → Option Text}

theorem standsAt (e : Engine Nat) : e.setting.StandsAt e.serve e.session e.tally :=
  ⟨rfl, fun _ => rfl⟩

/-- A step moves the count on by as often as it asks for the counting value. -/
theorem tally_step (plain : e.config.hooks = {}) (s : EngineStep Nat)
    (counting : s.Counts c shows) : (e.step s).tally = e.tally + e.occurrences c s := by
  have stands := e.standsAt
  cases s with
  | render ctx path => exact (stands.render plain counting path).2.tally
  | get ctx path skipLayout =>
    cases skipLayout with
    | false => exact (stands.render plain counting path).2.tally
    | true =>
      have bare : e.setting.renderBare ctx path e.session =
          e.setting.outerPage ctx path e.session :=
        finish_of_none (s := e.setting) (congrArg Hooks.afterRender plain) _
      exact (congrArg (·.2.tally) bare).trans (stands.outerPage plain counting path).2.tally
  | compile ctx path => exact (stands.compileId plain ctx (e.templateId path)).2.tally
  | handle event =>
    simp only [step, handle]
    split <;> rfl
  | _ => rfl

theorem config_run (e : Engine σ) (steps : List (EngineStep σ)) :
    (e.run steps).config = e.config := by
  induction steps generalizing e with
  | nil => rfl
  | cons s steps ih => exact (ih (e.step s)).trans (e.config_step s)

/-- A run moves the count on by what its steps ask for, by induction on the steps. -/
theorem tally_run (plain : e.config.hooks = {}) (steps : List (EngineStep Nat))
    (counting : ∀ s ∈ steps, s.Counts c shows) :
    (e.run steps).tally = e.tally + e.occurrencesOver c steps := by
  induction steps generalizing e with
  | nil => rfl
  | cons s steps ih =>
    obtain ⟨here, later⟩ := List.forall_mem_cons.mp counting
    have rest := @ih (e.step s) (by rw [config_step, plain]) later
    have first := tally_step plain s here
    rw [first, Nat.add_assoc] at rest
    exact rest

/-- Whatever an engine without hooks has done, a render asks for the counting value once for each
placeholder with its name: in the page and each time in every template that is included, in the
order of the text, and then in the layout.  What is rendered shows the counts in that order, and
they go on from those of the steps before without a gap. -/
theorem render_counting (e : Engine Nat) {c : Text} {shows : Nat → Option Text}
    (plain : e.config.hooks = {}) (steps : List (EngineStep Nat))
    (counting : ∀ s ∈ steps, s.Counts c shows) {ctx : Context Nat} (counts : ctx.Counts c shows)
    (path : Text) :
    let before := e.run steps
    let n := e.tally + e.occurrencesOver c steps
    before.tally = n ∧
      (before.render ctx path).1.toOption =
        before.setting.numbered before.serve c shows ctx path n ∧
      (before.render ctx path).2.tally =
        n + before.setting.occurrences before.serve c ctx path := by
  have tally := tally_run plain steps counting
  have config : (e.run steps).config.hooks = {} := by rw [config_run, plain]
  have rendered := (e.run steps).standsAt.render config counts path
  rw [tally] at rendered
  exact ⟨tally, rendered.1, rendered.2.tally⟩

/-- A page that shows a value in all the ways there are, with an include in an include, and a
layout. -/
def counted : Engine Nat :=
  create { layout := some "frame" }
    { templates :=
        [ ("page", "<i \x7b\x7ba = n\x7d\x7d>\x7b\x7b\x7b#part\x7d\x7d\x7d" ++
            "\x7b\x7b\x7bn\x7d\x7d\x7d</i>"),
          ("part", "<b>\x7b\x7bn\x7d\x7d\x7b\x7b\x7b#leaf\x7d\x7d\x7d</b>"),
          ("leaf", "<i>\x7b\x7bn\x7d\x7d</i>"),
          ("frame", "<b>\x7b\x7bn\x7d\x7d\x7b\x7b\x7bbody\x7d\x7d\x7d</b>") ] } 0

/-- A context with a counting value and one that does not count. -/
def counter : Context Nat :=
  { values :=
      [("n", .lazy fun _ k => (.coerced (Text.ofNat (k + 1)), k + 1)), ("a", .coerced "x")] }

theorem counts_counter : counter.Counts "n" fun k => coerce? (Text.ofNat k) where
  counter := ⟨_, rfl, fun _ _ => ⟨_, rfl, .coerced _, rfl⟩⟩
  others := fun key value known other => by
    change Keyed.get? [_, _] key = some value at known
    rw [Keyed.get?_cons, if_neg (Ne.symm other), Keyed.get?_cons] at known
    split at known
    · exact Option.some.inj known ▸ .coerced _
    · simp [Keyed.get?] at known

/-- The second render goes on where the first one ends. -/
theorem render_counting_counted :
    (counted.run [.render counter "page"]).tally = 5 ∧
      ((counted.run [.render counter "page"]).render counter "page").1 =
        .ok "<b>10<i a=\"6\"><b>7<i>8</i></b>9</i></b>" := by
  obtain ⟨tally, shown, -⟩ := render_counting counted rfl [.render counter "page"]
    (by simpa [EngineStep.Counts] using counts_counter) counts_counter "page"
  refine ⟨tally.trans (by decide +kernel), toOption_eq_some_iff.mp (shown.trans ?_)⟩
  decide +kernel

end Engine

end Stencil
