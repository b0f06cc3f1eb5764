import Stencil.Proofs.Engine.Transparency
import Stencil.Proofs.Engine.Visit

/-!
# A template is read once

While an engine uses its cache, its entries do not expire, and the entry of an id is not removed,
the source of that id is read at most once, whatever is rendered and whatever includes it
(`Engine.read_once`).  A source that could not be read is not read again, and whoever asks for the
template is told that there is none.

What a look-up of the id finds is followed along the visits of templates: a visit that finds
something reads nothing and leaves it as it is, and one that finds nothing leaves what it has
learned (`Tracks`).
-/

namespace Stencil

variable {σ α : Type}

namespace Cache

variable {c : Cache α}

/-- Without a time to live a sweep drops nothing. -/
theorem sweep_of_lasting (lasting : c.ttl = none) (now : Nat) : c.sweep now = c := by
  have kept : Keyed.keep c.entries (fun e => !e.isExpired c.ttl now) = c.entries := by
    simp [Keyed.keep, CacheEntry.isExpired, lasting]
  unfold sweep
  rw [kept]

/-- Without a time to live it makes no difference when an id is looked up. -/
theorem get_of_lasting (lasting : c.ttl = none) (id : Text) (t t' : Nat) :
    (c.get t id).1 = (c.get t' id).1 := by
  rw [get_fst, get_fst, alive?_eq, alive?_eq]
  simp [lasting, CacheHistory.Near]

end Cache

namespace Visit

def found (v : Visit σ) : Lookup Artifact := v.setting.found v.id v.session

def learn (v : Visit σ) : Except StorageError Artifact := v.setting.learn v.ctx v.id v.session

theorem reads_eq (v : Visit σ) : v.reads = if v.found.isMiss then [v.id] else [] := by
  unfold reads outcome found
  rw [Setting.reads_compileId, List.drop_left]

end Visit

/-- What a look-up of an id finds, followed along some visits. -/
inductive Tracks (id : Text) : Lookup Artifact → List (Visit σ) → Lookup Artifact → Prop where
  | done (found : Lookup Artifact) : Tracks id found [] found
  | other {v : Visit σ} {visits : List (Visit σ)} {found last : Lookup Artifact}
      (differs : v.id ≠ id) (rest : Tracks id found visits last) :
      Tracks id found (v :: visits) last
  | known {v : Visit σ} {visits : List (Visit σ)} {last : Lookup Artifact}
      (same : v.id = id) (hit : v.found ≠ .miss) (rest : Tracks id v.found visits last) :
      Tracks id v.found (v :: visits) last
  | learned {v : Visit σ} {visits : List (Visit σ)} {last : Lookup Artifact}
      (same : v.id = id) (miss : v.found = .miss) (rest : Tracks id (.ofRead v.learn) visits last) :
      Tracks id .miss (v :: visits) last

namespace Tracks

variable {id : Text} {visits more : List (Visit σ)} {found between last : Lookup Artifact}

theorem append (first : Tracks id found visits between) (second : Tracks id between more last) :
    Tracks id found (visits ++ more) last := by
  induction first with
  | done found => exact second
  | other differs rest ih => exact .other differs (ih second)
  | known same hit rest ih => exact .known same hit (ih second)
  | learned same miss rest ih => exact .learned same miss (ih second)

/-- Once a look-up finds something, every visit finds the same. -/
theorem found_eq (h : Tracks id found visits last) (known : found ≠ .miss) :
    ∀ v ∈ visits, v.id = id → v.found = found := by
  induction h with
  | done found => simp
  | other differs rest ih =>
    exact List.forall_mem_cons.mpr ⟨fun same => absurd same differs, ih known⟩
  | known same hit rest ih => exact List.forall_mem_cons.mpr ⟨fun _ => rfl, ih known⟩
  | learned same miss rest ih => exact absurd rfl known

theorem reads_eq_nil (h : Tracks id found visits last) (known : found ≠ .miss) :
    ∀ v ∈ visits, v.id = id → v.reads = [] := by
  intro v member same
  have hit : v.found ≠ .miss := h.found_eq known v member same ▸ known
  rw [v.reads_eq]
  cases eq : v.found with
  | miss => exact absurd eq hit
  | hit artifact => rfl
  | absent => rfl

theorem ofRead_ne_miss {ε : Type} (r : Except ε α) : Lookup.ofRead r ≠ .miss := by
  cases r <;> simp [Lookup.ofRead]

/-- Among the visits, at most the first one of the id reads its source. -/
theorem count_reads_le (h : Tracks id found visits last) :
    (visits.flatMap Visit.reads).count id ≤ 1 := by
  have none_of_known {found last : Lookup Artifact} {visits : List (Visit σ)}
      (h : Tracks id found visits last) (known : found ≠ .miss) :
      (visits.flatMap Visit.reads).count id = 0 := by
    refine List.count_eq_zero.mpr fun member => ?_
    obtain ⟨v, inside, read⟩ := List.mem_flatMap.mp member
    have same : v.id = id := by
      rw [v.reads_eq] at read
      split at read
      · exact (List.mem_singleton.mp read).symm
      · simp at read
    rw [h.reads_eq_nil known v inside same] at read
    simp at read
  induction h with
  | done found => simp
  | @other v visits found last differs rest ih =>
    have here : (v.reads).count id = 0 := by
      rw [v.reads_eq]
      split
      · exact List.count_eq_zero.mpr fun member => differs (List.mem_singleton.mp member).symm
      · rfl
    simpa [List.count_append, here] using ih
  | known same hit rest ih =>
    have whole := none_of_known (.known same hit rest) hit
    omega
  | @learned v visits last same miss rest ih =>
    have later := none_of_known rest (ofRead_ne_miss v.learn)
    have here : v.reads = [id] := by simp [v.reads_eq, miss, Lookup.isMiss, same]
    simp [here, later]

/-- A visit of the id that reads leaves what it has learned to those after it. -/
theorem learned_of_reads {v : Visit σ} (h : Tracks id found (visits ++ v :: more) last)
    (same : v.id = id) (reads : v.reads ≠ []) : Tracks id (.ofRead v.learn) more last := by
  generalize whole : visits ++ v :: more = all at h
  induction h generalizing visits with
  | done found => simp at whole
  | other differs rest ih =>
    cases visits with
    | nil =>
      obtain ⟨rfl, rfl⟩ := List.cons.inj whole
      exact absurd same differs
    | cons u visits =>
      obtain ⟨rfl, rfl⟩ := List.cons.inj whole
      exact ih rfl
  | known same' hit rest ih =>
    cases visits with
    | nil =>
      obtain ⟨rfl, rfl⟩ := List.cons.inj whole
      exact absurd ((Tracks.known same hit rest).reads_eq_nil hit v List.mem_cons_self same) reads
    | cons u visits =>
      obtain ⟨rfl, rfl⟩ := List.cons.inj whole
      exact ih rfl
  | learned same' miss rest ih =>
    cases visits with
    | nil =>
      obtain ⟨rfl, rfl⟩ := List.cons.inj whole
      exact rest
    | cons u visits =>
      obtain ⟨rfl, rfl⟩ := List.cons.inj whole
      exact ih rfl

end Tracks

namespace Course

variable {s : Setting σ} {st st' : Session σ} {visits : List (Visit σ)}

/-- Visits leave the cache in use or out of use, and its time to live as it is. -/
theorem frame (course : Course s st visits st') :
    st'.cache.enabled = st.cache.enabled ∧ st'.cache.ttl = st.cache.ttl := by
  induction course with
  | done st => exact ⟨rfl, rfl⟩
  | touch t rest ih => exact ih
  | visit setting rest ih => simpa [Visit.outcome] using ih

/-- The ids that are read are those that the visits read. -/
theorem reads_eq (course : Course s st visits st') :
    st'.reads = st.reads ++ visits.flatMap Visit.reads := by
  induction course with
  | done st => simp
  | touch t rest ih => exact ih
  | @visit v st' visits setting rest ih =>
    have here : v.outcome.2.reads = v.session.reads ++ v.reads := by
      rw [v.reads_eq]
      exact v.setting.reads_compileId v.ctx v.id v.session
    rw [ih, here, List.flatMap_cons, List.append_assoc]

/-- With the cache in use, the visits of a course track what look-ups of an id find. -/
theorem tracks (course : Course s st visits st') (enabled : st.cache.enabled = true) (id : Text) :
    Tracks id (s.found id st) visits (s.found id st') := by
  induction course with
  | done st => exact .done _
  | touch t rest ih => exact ih enabled
  | @visit v st' visits setting rest ih =>
    subst setting
    have later := ih (by simpa [Visit.outcome] using enabled)
    rw [show v.outcome.2 = (v.setting.compileId v.ctx v.id v.session).2 from rfl,
      v.setting.found_compileId] at later
    by_cases learns : v.id = id ∧ v.found = .miss
    · obtain ⟨rfl, miss⟩ := learns
      rw [if_pos ⟨enabled, rfl, Lookup.isMiss_iff.mpr miss⟩] at later
      rw [show v.setting.found v.id v.session = .miss from miss]
      exact .learned rfl miss later
    · rw [if_neg fun h => learns ⟨h.2.1.symm, Lookup.isMiss_iff.mp h.2.2⟩] at later
      by_cases same : v.id = id
      · subst same
        exact .known rfl (fun miss => learns ⟨rfl, miss⟩) later
      · exact .other same later

end Course

namespace Engine

def run (e : Engine σ) (steps : List (EngineStep σ)) : Engine σ := steps.foldl step e

def visitsOf (e : Engine σ) : EngineStep σ → List (Visit σ)
  | .render ctx path => (e.setting.renderLogged ctx path ⟨e.session, []⟩).2.log
  | .get ctx path true => (e.setting.bareLogged .page ctx path ⟨e.session, []⟩).2.log
  | .get ctx path false => (e.setting.renderLogged ctx path ⟨e.session, []⟩).2.log
  | .compile ctx path => [⟨e.setting, .compiled, 0, ctx, e.templateId path, e.session⟩]
  | _ => []

/-- The session at the end of a step, if the step compiles templates. -/
def sessionAfter (e : Engine σ) : EngineStep σ → Session σ
  | .render ctx path => (e.setting.render ctx path e.session).2
  | .get ctx path true => (e.setting.renderBare ctx path e.session).2
  | .get ctx path false => (e.setting.render ctx path e.session).2
  | .compile ctx path => (e.setting.compileId ctx (e.templateId path) e.session).2
  | _ => e.session

def visitsIn : Engine σ → List (EngineStep σ) → List (Visit σ)
  | _, [] => []
  | e, s :: steps => e.visitsOf s ++ visitsIn (e.step s) steps

def readsIn : Engine σ → List (EngineStep σ) → List Text
  | _, [] => []
  | e, s :: steps => (e.sessionAfter s).reads ++ readsIn (e.step s) steps

/-- Whether a step takes away the entry of an id, if there is one. -/
def Removes (e : Engine σ) (id : Text) (s : EngineStep σ) : Prop :=
  Keyed.contains e.timed.cache.entries id = true ∧
    match s with
    | .invalidate path => e.templateId path = id
    | .resetCache => True
    | .handle event => e.watching = true ∧ event.id = id
    | _ => False

/-- Whether no step on the way takes away the entry of an id. -/
def Retains (id : Text) : Engine σ → List (EngineStep σ) → Prop
  | _, [] => True
  | e, s :: steps => ¬e.Removes id s ∧ Retains id (e.step s) steps

def finds (e : Engine σ) (id : Text) : Lookup Artifact := e.setting.found id e.session

variable {e : Engine σ} {s : EngineStep σ} {steps : List (EngineStep σ)} {id : Text}

theorem step_eq_after (compiles : s.compiles = true) : e.step s = e.after (e.sessionAfter s) := by
  cases s with
  | get ctx path skipLayout => cases skipLayout <;> rfl
  | render ctx path => rfl
  | compile ctx path => rfl
  | _ => simp [EngineStep.compiles] at compiles

/-- The visits of a step lead from the session before it to the one after. -/
theorem course_step (e : Engine σ) (s : EngineStep σ) :
    Course e.setting e.session (e.visitsOf s) (e.sessionAfter s) := by
  have rendered (ctx : Context σ) (path : Text) : Course e.setting e.session
      (e.setting.renderLogged ctx path ⟨e.session, []⟩).2.log
      (e.setting.render ctx path e.session).2 := by
    obtain ⟨page, rest, adds, -⟩ := e.setting.adds_renderLogged ctx path ⟨e.session, []⟩
    rw [adds.log, ← e.setting.erase_renderLogged ctx path ⟨e.session, []⟩]
    exact adds.course
  cases s with
  | render ctx path => exact rendered ctx path
  | get ctx path skipLayout =>
    cases skipLayout with
    | false => exact rendered ctx path
    | true =>
      obtain ⟨visits, adds, -⟩ := e.setting.adds_bareLogged .page ctx path ⟨e.session, []⟩
      simp only [visitsOf, sessionAfter]
      rw [adds.log, ← e.setting.erase_bareLogged .page ctx path ⟨e.session, []⟩]
      exact adds.course
  | compile ctx path =>
    exact .visit (v := ⟨e.setting, .compiled, 0, ctx, _, e.session⟩) rfl (.done _)
  | _ => exact .done e.session

/-- All that is read is read by visits. -/
theorem readsIn_eq (e : Engine σ) (steps : List (EngineStep σ)) :
    e.readsIn steps = (e.visitsIn steps).flatMap Visit.reads := by
  induction steps generalizing e with
  | nil => rfl
  | cons s steps ih =>
    rw [readsIn, visitsIn, List.flatMap_append, (e.course_step s).reads_eq, ih]
    rfl

/-- The storage counts what the session of a step reads. -/
theorem reads_step (e : Engine σ) (s : EngineStep σ) :
    (e.step s).reads = e.reads + (e.sessionAfter s).reads.length := by
  by_cases compiles : s.compiles = true
  · rw [step_eq_after compiles]
    rfl
  · cases s with
    | handle event =>
      simp only [step, handle]
      split <;> rfl
    | render ctx path => exact absurd rfl compiles
    | get ctx path skipLayout => exact absurd rfl compiles
    | compile ctx path => exact absurd rfl compiles
    | _ => rfl

/-- The storage counts what is read. -/
theorem reads_run (e : Engine σ) (steps : List (EngineStep σ)) :
    (e.run steps).reads = e.reads + (e.readsIn steps).length := by
  induction steps generalizing e with
  | nil => rfl
  | cons s steps ih =>
    rw [readsIn, List.length_append, ← Nat.add_assoc, ← e.reads_step s]
    exact ih (e.step s)

/-- An engine uses its cache, in which entries do not expire. -/
structure Lasting (e : Engine σ) : Prop where
  enabled : e.timed.cache.enabled = true
  ttl : e.timed.cache.ttl = none

theorem cache_wait (lasting : e.timed.cache.ttl = none) (ms : Nat) :
    (e.timed.wait ms).cache = e.timed.cache := by
  unfold TimedCache.wait
  cases e.timed.sweeper with
  | none => rfl
  | some sweeper =>
    dsimp only
    split
    · exact Cache.sweep_of_lasting lasting _
    · rfl

theorem cache_awaitEmpty (lasting : e.timed.cache.ttl = none) :
    e.timed.awaitEmpty.2.cache = e.timed.cache := by
  unfold TimedCache.awaitEmpty
  split
  · rfl
  · exact cache_wait lasting _

/-- The same entry is found again in other entries, and at another time. -/
theorem finds_eq_of_entries {e' : Engine σ} {entries : Keyed (CacheEntry Artifact)}
    (lasting : e.timed.cache.ttl = none)
    (frame : e'.timed.cache = { e.timed.cache with entries := entries })
    (same : Keyed.get? entries id = Keyed.get? e.timed.cache.entries id) :
    e'.finds id = e.finds id := by
  have moved : e'.finds id = (e'.timed.cache.get e.timed.now id).1 :=
    Cache.get_of_lasting ((congrArg Cache.ttl frame).trans lasting) id _ _
  have found : e.finds id = (e.timed.cache.get e.timed.now id).1 := rfl
  rw [moved, found, frame, Cache.get_fst, Cache.get_fst, Cache.alive?_eq, Cache.alive?_eq]
  dsimp only
  rw [same]

theorem get?_erase_of_retained {entries : Keyed (CacheEntry Artifact)} {i : Text}
    (kept : ¬(Keyed.contains entries id = true ∧ i = id)) :
    Keyed.get? (Keyed.erase entries i) id = Keyed.get? entries id := by
  rw [Keyed.get?_erase]
  split
  · next same =>
    have absent : Keyed.get? entries id = none :=
      Option.not_isSome_iff_eq_none.mp fun there => kept ⟨there, same.symm⟩
    rw [absent]
  · rfl

/-- A step that compiles nothing keeps the cache in use, and what is found for an id whose entry it
does not take away. -/
theorem Lasting.quiet (h : e.Lasting) (quiet : ¬s.compiles = true)
    (on : s ≠ .setDevelopment true) :
    (e.step s).Lasting ∧ ∀ id, ¬e.Removes id s → (e.step s).finds id = e.finds id := by
  -- Everything but a look-up changes nothing of the cache except for the entries.
  have of_entries {entries : Keyed (CacheEntry Artifact)}
      (frame : (e.step s).timed.cache = { e.timed.cache with entries := entries })
      (kept : ∀ id, ¬e.Removes id s →
        Keyed.get? entries id = Keyed.get? e.timed.cache.entries id) :
      (e.step s).Lasting ∧ ∀ id, ¬e.Removes id s → (e.step s).finds id = e.finds id :=
    ⟨⟨by rw [frame, h.enabled], by rw [frame, h.ttl]⟩,
      fun id retained => finds_eq_of_entries h.ttl frame (kept id retained)⟩
  cases s with
  | render ctx path => exact absurd rfl quiet
  | get ctx path skipLayout => exact absurd rfl quiet
  | compile ctx path => exact absurd rfl quiet
  | lookup i =>
    refine ⟨⟨?_, ?_⟩, fun id _ => Cache.get_get e.timed.cache e.timed.now i id⟩
    · exact (Cache.enabled_get e.timed.cache e.timed.now i).trans h.enabled
    · exact (Cache.ttl_get e.timed.cache e.timed.now i).trans h.ttl
  | invalidate path => exact of_entries rfl fun id retained => get?_erase_of_retained retained
  | resetCache =>
    refine of_entries rfl fun id retained => ?_
    have absent : Keyed.get? e.timed.cache.entries id = none :=
      Option.not_isSome_iff_eq_none.mp fun there => retained ⟨there, trivial⟩
    rw [absent]
    rfl
  | handle event =>
    by_cases heard : e.watching = true
    · refine of_entries (by simp only [Engine.step, Engine.handle, heard]; rfl)
        fun id retained => ?_
      exact get?_erase_of_retained fun removed => retained ⟨removed.1, heard, removed.2⟩
    · exact of_entries (by simp [Engine.step, Engine.handle, heard]) fun _ _ => rfl
  | sweep => exact of_entries (Cache.sweep_of_lasting h.ttl _) fun _ _ => rfl
  | wait ms => exact of_entries (cache_wait h.ttl ms) fun _ _ => rfl
  | awaitEmpty => exact of_entries (cache_awaitEmpty h.ttl) fun _ _ => rfl
  | setDevelopment development =>
    cases development with
    | true => exact absurd rfl on
    | false =>
      have same : e.timed.cache.setEnabled true = e.timed.cache := by
        rw [← h.enabled]
        rfl
      exact of_entries same fun _ _ => rfl
  | setWatching on => exact of_entries rfl fun _ _ => rfl
  | insertTemplate id source => exact of_entries rfl fun _ _ => rfl
  | removeTemplate id => exact of_entries rfl fun _ _ => rfl

/-- A step keeps the cache in use, and its visits track what look-ups find for an id whose entry it
does not take away. -/
theorem Lasting.step (h : e.Lasting) (on : s ≠ .setDevelopment true) :
    (e.step s).Lasting ∧
      ∀ id, ¬e.Removes id s → Tracks id (e.finds id) (e.visitsOf s) ((e.step s).finds id) := by
  by_cases compiles : s.compiles = true
  · rw [step_eq_after compiles]
    have course := e.course_step s
    obtain ⟨enabled, ttl⟩ := course.frame
    exact ⟨⟨enabled.trans h.enabled, ttl.trans h.ttl⟩, fun id _ => course.tracks h.enabled id⟩
  · obtain ⟨lasting, kept⟩ := h.quiet compiles on
    refine ⟨lasting, fun id retained => ?_⟩
    have none : e.visitsOf s = [] := by
      cases s <;> first | rfl | exact absurd rfl compiles
    rw [none, kept id retained]
    exact .done _

theorem Lasting.run (h : e.Lasting) (on : .setDevelopment true ∉ steps) :
    (e.run steps).Lasting := by
  induction steps generalizing e with
  | nil => exact h
  | cons s steps ih =>
    have here := List.ne_of_not_mem_cons on
    exact ih (h.step here.symm).1 (List.not_mem_of_not_mem_cons on)

/-- The visits of a run track what look-ups find for an id that it retains. -/
theorem Lasting.tracks (h : e.Lasting) (on : .setDevelopment true ∉ steps)
    (retains : Retains id e steps) :
    Tracks id (e.finds id) (e.visitsIn steps) ((e.run steps).finds id) := by
  induction steps generalizing e with
  | nil => exact .done _
  | cons s steps ih =>
    obtain ⟨lasting, kept⟩ := h.step (List.ne_of_not_mem_cons on).symm
    exact (kept id retains.1).append
      (ih lasting (List.not_mem_of_not_mem_cons on) retains.2)

theorem lasting_create (config : EngineConfig σ) (storage : MemoryStorage) (tally : σ)
    (ttl : config.ttl = none) (enabled : config.cacheEnabled = true) :
    (create config storage tally).Lasting := by
  unfold create
  rw [ttl]
  exact ⟨enabled, rfl⟩

/-- In a stretch of a run in which the entry of an id is not removed, the source of the id is at
most once among those that the storage is asked for.  If it cannot be read, all who ask for the
template later on are told that there is none, and nothing is read for them. -/
theorem read_once (config : EngineConfig σ) (storage : MemoryStorage) (tally : σ)
    (before stretch : List (EngineStep σ)) (id : Text) (ttl : config.ttl = none)
    (enabled : config.cacheEnabled = true) (on : .setDevelopment true ∉ before ++ stretch)
    (retains : Retains id ((create config storage tally).run before) stretch) :
    (((create config storage tally).run before).run stretch).reads =
        ((create config storage tally).run before).reads +
          (((create config storage tally).run before).readsIn stretch).length ∧
      (((create config storage tally).run before).readsIn stretch).count id ≤ 1 ∧
      ∀ early v late,
        ((create config storage tally).run before).visitsIn stretch = early ++ v :: late →
        v.id = id → v.reads ≠ [] → (v.setting.source id).isOk = false →
        ∀ w ∈ late, w.id = id → w.outcome.1 = .error (.notFound id) ∧ w.reads = [] := by
  obtain ⟨first, second⟩ := not_or.mp (mt List.mem_append.mpr on)
  have lasting := (lasting_create config storage tally ttl enabled).run first
  have tracks := lasting.tracks second retains
  refine ⟨reads_run _ stretch, ?_, ?_⟩
  · rw [readsIn_eq]
    exact tracks.count_reads_le
  · intro early v late split same reads failed w member again
    rw [split] at tracks
    have later := tracks.learned_of_reads same reads
    have absent : Lookup.ofRead v.learn = .absent := by
      subst same
      unfold Visit.learn Setting.learn
      cases source : v.setting.source v.id with
      | error cause => rfl
      | ok text => simp [source, Except.isOk, Except.toBool] at failed
    rw [absent] at later
    refine ⟨?_, later.reads_eq_nil (by simp) w member again⟩
    have found := later.found_eq (by simp) w member again
    subst again
    exact congrArg Prod.fst (Setting.compileId_of_absent found)

/-- An engine whose page includes a template that does not exist. -/
def partless : Engine Unit :=
  create { ttl := none }
    { templates := [("page", "\x7b\x7b\x7b#part\x7d\x7d\x7d\x7b\x7b\x7b#part\x7d\x7d\x7d")] } ()

/-- The page is rendered, and once more when the template exists. -/
def twice : List (EngineStep Unit) :=
  [.render {} "page", .insertTemplate "part" "<p>x</p>", .render {} "page"]

/-- The template is looked for once, and not found from then on. -/
theorem read_once_partless :
    partless.readsIn twice = ["page", "part"] ∧ (partless.readsIn twice).count "part".toList ≤ 1 ∧
      ((partless.visitsIn twice).drop 2).map Visit.id = ["part", "page", "part", "part"] ∧
      ∀ w ∈ (partless.visitsIn twice).drop 2, w.id = "part" →
        w.outcome.1 = .error (.notFound "part") ∧ w.reads = [] := by
  have retains : Retains "part" partless twice :=
    ⟨fun removed => removed.2, fun removed => removed.2, fun removed => removed.2, trivial⟩
  obtain ⟨-, once, failed⟩ := read_once { ttl := none } partless.storage () [] twice "part" rfl rfl
    (by simp [twice]) retains
  have long : 1 < (partless.visitsIn twice).length := by decide +kernel
  have split : partless.visitsIn twice = (partless.visitsIn twice).take 1 ++
      (partless.visitsIn twice)[1] :: (partless.visitsIn twice).drop 2 := by
    rw [← List.drop_eq_getElem_cons long, List.take_append_drop]
  have second : (partless.visitsIn twice)[1].id = "part".toList ∧
      (partless.visitsIn twice)[1].reads ≠ [] ∧
      ((partless.visitsIn twice)[1].setting.source "part").isOk = false := by
    clear split
    revert long
    decide +kernel
  refine ⟨by decide +kernel, once, by decide +kernel, ?_⟩
  exact failed _ _ _ split second.1 second.2.1 second.2.2

end Engine

end Stencil
