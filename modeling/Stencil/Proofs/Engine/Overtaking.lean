import Stencil.Proofs.Engine.Traffic

/-!
# Changes that overtake a call

While callers and changes go on side by side, an entry of the cache may outlive the source that it
was compiled from.  This happens in one way only.  The entry that the cache holds for an id was
stored last by some call, which missed the id, read its source and stored what that compiles to
(`StoredBy`).  A change that is handled before the read or after the store does no harm.  A change
that comes after the read and is handled before the store drops nothing: it overtakes the call
(`Overtakes`), whose store then puts the old template back.

`Traffic.holds_run` says so for every run: an entry without a change to be heard of is what its
source compiled to when it was read, and this is what the cache should hold if and only if it still
was so at the store; else a change overtook the call.  Such a change leaves a stale entry at rest
(`Traffic.stale_at_rest`).
-/

namespace Stencil

variable {σ : Type}

namespace Traffic

/-- Whether no step on the way stores under an id or handles a change of it. -/
def Keeps (id : Text) : Traffic σ → List (TrafficStep σ) → Prop
  | _, [] => True
  | t, s :: steps => (¬t.Handles id s ∧ ¬t.Stores id s) ∧ Keeps id (t.step s) steps

/-- Whether a change of an id comes on the way, and a change of the id is handled after that. -/
def Overtakes (id : Text) (t : Traffic σ) (steps : List (TrafficStep σ)) : Prop :=
  ∃ first change middle handle last, steps = first ++ change :: (middle ++ handle :: last) ∧
    Changes id change ∧ (t.run (first ++ change :: middle)).Handles id handle

/-- A caller reads the source of an id that it missed, stores after more steps what that compiles
to, and the entry stays. -/
structure StoredBy (t : Traffic σ) (id : Text) (caller : Nat)
    (before between after : List (TrafficStep σ)) : Prop where
  missed : ∃ ctx, (t.run before).calls caller = some (.missed ctx id)
  fetched : ∃ ctx, (t.run (before ++ .advance caller :: between)).calls caller =
    some (.fetched ctx id ((t.run before).engine.storage.read id))
  kept : Keeps id ((t.run (before ++ .advance caller :: between)).step (.advance caller)) after

/-- No call is on the way and no change is to be heard of. -/
structure AtRest (t : Traffic σ) : Prop where
  calls : ∀ caller, t.calls caller = none
  pending : t.pending = []

variable {t : Traffic σ} {steps : List (TrafficStep σ)} {id : Text} {payload : Option Artifact}

theorem keeps_concat {s : TrafficStep σ} :
    Keeps id t (steps ++ [s]) ↔
      Keeps id t steps ∧ ¬(t.run steps).Handles id s ∧ ¬(t.run steps).Stores id s := by
  induction steps generalizing t with
  | nil => simp [Keeps]
  | cons first steps ih => simp [Keeps, ih, and_assoc]

/-- The call of a caller is its own affair. -/
theorem calls_run {caller : Nat} (others : ∀ s ∈ steps, s.caller? ≠ some caller) :
    (t.run steps).calls caller = t.calls caller := by
  induction steps generalizing t with
  | nil => rfl
  | cons s steps ih =>
    rw [run_cons, ih fun s member => others s (List.mem_cons_of_mem _ member)]
    exact calls_step (others s List.mem_cons_self)

/-- If an id awaits no change at the end and no change of it is handled on the way, the template
does not change. -/
theorem truth_run_of_keeps (kept : Keeps id t steps) (heard : ¬(t.run steps).Awaits id) :
    ¬t.Awaits id ∧ (t.run steps).truth id = t.truth id := by
  induction steps generalizing t with
  | nil => exact ⟨heard, rfl⟩
  | cons s steps ih =>
    obtain ⟨⟨unhandled, _⟩, kept⟩ := kept
    obtain ⟨settled, same⟩ := ih kept heard
    have unchanged : ¬Changes id s := fun changes => settled (awaits_of_changes changes)
    exact ⟨fun waits => settled (awaits_step waits unhandled), same.trans (truth_step unchanged)⟩

theorem exists_changes_of_truth_ne (differs : (t.run steps).truth id ≠ t.truth id) :
    ∃ first change last, steps = first ++ change :: last ∧ Changes id change := by
  induction steps generalizing t with
  | nil => exact absurd rfl differs
  | cons s steps ih =>
    by_cases changes : Changes id s
    · exact ⟨[], s, steps, rfl, changes⟩
    · rw [run_cons, ← truth_step (t := t) changes] at differs
      obtain ⟨first, change, last, rfl, changes⟩ := ih differs
      exact ⟨s :: first, change, last, rfl, changes⟩

theorem exists_handles_of_awaits (waits : t.Awaits id) (heard : ¬(t.run steps).Awaits id) :
    ∃ middle handle last, steps = middle ++ handle :: last ∧
      (t.run middle).Handles id handle := by
  induction steps generalizing t with
  | nil => exact absurd waits heard
  | cons s steps ih =>
    by_cases handles : t.Handles id s
    · exact ⟨[], s, steps, rfl, handles⟩
    · obtain ⟨middle, handle, last, rfl, handles⟩ := ih (awaits_step waits handles) heard
      exact ⟨s :: middle, handle, last, rfl, handles⟩

/-- A template that is another after some steps, with no change of it left to be heard of, was
changed on the way, and a change was handled after that. -/
theorem overtakes_of_truth_ne (differs : (t.run steps).truth id ≠ t.truth id)
    (heard : ¬(t.run steps).Awaits id) : Overtakes id t steps := by
  obtain ⟨first, change, rest, rfl, changes⟩ := exists_changes_of_truth_ne differs
  have waits : ((t.run first).step change).Awaits id := awaits_of_changes changes
  rw [run_append, run_cons] at heard
  obtain ⟨middle, handle, last, rfl, handles⟩ := exists_handles_of_awaits waits heard
  refine ⟨first, change, middle, handle, last, rfl, changes, ?_⟩
  rwa [run_append, run_cons]

/-- A call that has a source in hand has missed the id and has read the source since. -/
theorem exists_missed_of_fetched (idle : ∀ caller, t.calls caller = none) {caller : Nat}
    {ctx : Context σ} {source : Except StorageError Text}
    (h : (t.run steps).calls caller = some (.fetched ctx id source)) :
    ∃ before between, steps = before ++ .advance caller :: between ∧
      (t.run before).calls caller = some (.missed ctx id) ∧
      source = (t.run before).engine.storage.read id := by
  induction steps using List.reverseRecOn with
  | nil => simp [idle] at h
  | append_singleton steps s ih =>
    rw [run_concat] at h
    rcases fetched_step h with earlier | ⟨missed, read, rfl⟩
    · obtain ⟨before, between, rfl, missed, read⟩ := ih earlier
      exact ⟨before, between ++ [s], by simp, missed, read⟩
    · exact ⟨steps, [], rfl, missed, read⟩

theorem truth_eq_of_read (t : Traffic σ) (id : Text) :
    t.truth id = (t.engine.storage.read id).toOption.map
      (Stencil.compile t.engine.config.compile) :=
  rfl

/-- Every entry was stored by some call, and is what its source compiled to when it was read. -/
theorem exists_storedBy (use : t.InUse) (idle : ∀ caller, t.calls caller = none)
    (empty : ∀ payload, ¬t.Holds id payload) (held : (t.run steps).Holds id payload) :
    ∃ caller before between after,
      steps = before ++ .advance caller :: between ++ .advance caller :: after ∧
        StoredBy t id caller before between after ∧ payload = (t.run before).truth id := by
  induction steps using List.reverseRecOn with
  | nil => exact absurd held (empty payload)
  | append_singleton steps s ih =>
    rw [run_concat] at held
    rcases holds_step (use.run steps) held with
      ⟨old, unhandled, unstored⟩ | ⟨caller, ctx, source, fetched, rfl, stored⟩
    · obtain ⟨caller, before, between, after, rfl, ⟨missed, fetched, kept⟩, paid⟩ := ih old
      refine ⟨caller, before, between, after ++ [s], by simp, ⟨missed, fetched, ?_⟩, paid⟩
      rw [run_append, run_cons] at unhandled unstored
      exact keeps_concat.mpr ⟨kept, unhandled, unstored⟩
    · obtain ⟨before, between, rfl, missed, rfl⟩ := exists_missed_of_fetched idle fetched
      refine ⟨caller, before, between, [], rfl, ⟨⟨ctx, missed⟩, ⟨ctx, fetched⟩, trivial⟩, ?_⟩
      rw [stored, config_run, truth_eq_of_read, config_run]

theorem not_holds_start (config : EngineConfig σ) (storage : MemoryStorage) (tally : σ)
    (id : Text) (payload : Option Artifact) : ¬(start config storage tally).Holds id payload := by
  rintro ⟨entry, member, _⟩
  have empty : (start config storage tally).engine.timed.cache.entries = [] :=
    Engine.entries_create config storage tally
  simp [empty] at member

/-- After the last store for an id that awaits no change at the end, the template stays what it is;
the id awaits no change at the store either. -/
theorem StoredBy.truth_eq {caller : Nat} {before between after : List (TrafficStep σ)}
    (storing : StoredBy t id caller before between after)
    (heard : ¬(t.run (before ++ .advance caller :: between ++ .advance caller :: after)).Awaits
      id) :
    ¬(t.run (before ++ .advance caller :: between)).Awaits id ∧
      (t.run (before ++ .advance caller :: between ++ .advance caller :: after)).truth id =
        (t.run (before ++ .advance caller :: between)).truth id := by
  have kept := storing.kept
  generalize before ++ .advance caller :: between = toStore at kept heard ⊢
  rw [run_append, run_cons] at heard
  obtain ⟨settled, same⟩ := truth_run_of_keeps kept heard
  refine ⟨fun waits => settled (awaits_step waits (by simp [Handles])), ?_⟩
  rw [run_append, run_cons, same]
  exact truth_step (by simp [Changes])

/-- In every run of an engine that hears of changes, an entry for an id without a change to be
heard of was stored by a call and is what the source compiled to when this call read it.  It is
what the cache should hold if and only if that was the same when the call stored it; otherwise a
change came after the read, and a change was handled between it and the store. -/
theorem holds_run (config : EngineConfig σ) (plain : config.hooks.beforeCompile = .none)
    (enabled : config.cacheEnabled = true) (storage : MemoryStorage) (tally : σ)
    (t : Traffic σ) (begun : t = start config storage tally) (steps : List (TrafficStep σ))
    (id : Text) (payload : Option Artifact) (held : (t.run steps).Holds id payload)
    (heard : ¬(t.run steps).Awaits id) :
    ∃ caller before between after,
      steps = before ++ .advance caller :: between ++ .advance caller :: after ∧
        StoredBy t id caller before between after ∧
        payload = (t.run before).truth id ∧
        (payload = (t.run steps).truth id ↔
          (t.run before).truth id = (t.run (before ++ .advance caller :: between)).truth id) ∧
        (payload ≠ (t.run steps).truth id →
          Overtakes id ((t.run before).step (.advance caller)) between) := by
  have use : t.InUse := begun ▸ inUse_start plain enabled storage tally
  have idle : ∀ caller, t.calls caller = none := by
    subst begun
    exact fun _ => rfl
  have empty : ∀ payload, ¬t.Holds id payload :=
    begun ▸ not_holds_start config storage tally id
  obtain ⟨caller, before, between, after, rfl, storing, paid⟩ :=
    exists_storedBy use idle empty held
  obtain ⟨settled, same⟩ := storing.truth_eq heard
  refine ⟨caller, before, between, after, rfl, storing, paid, by rw [paid, same], ?_⟩
  intro stale
  have read : ((t.run before).step (.advance caller)).truth id = (t.run before).truth id :=
    truth_step (by simp [Changes])
  rw [same, paid, ← read] at stale
  rw [run_append, run_cons] at settled stale
  exact overtakes_of_truth_ne stale.symm settled

def onePage : Traffic Unit := start {} { templates := [("page", "old")] } ()

/-- The page is missed, read, changed and heard of as changed before it is stored. -/
def overtakenPage : List (TrafficStep Unit) :=
  [.call 0 {} "page", .advance 0, .advance 0, .change ⟨"page", .modified⟩ (some "new"),
    .handle ⟨"page", .modified⟩, .advance 0]

theorem holds_overtakenPage :
    (onePage.run overtakenPage).Holds "page" (some (Stencil.compile {} "old")) := by
  refine ⟨("page", ⟨some (Stencil.compile {} "old"), 0⟩), ?_, rfl, rfl⟩
  decide +kernel

theorem pending_overtakenPage : (onePage.run overtakenPage).pending = [] := by
  decide +kernel

/-- The call of the page was overtaken. -/
theorem holds_run_overtakenPage :
    (onePage.run overtakenPage).Holds "page" (some (Stencil.compile {} "old")) ∧
      ¬(onePage.run overtakenPage).Awaits "page" ∧
      ∃ caller before between after,
        overtakenPage = before ++ .advance caller :: between ++ .advance caller :: after ∧
          Overtakes "page" ((onePage.run before).step (.advance caller)) between := by
  have heard : ¬(onePage.run overtakenPage).Awaits "page" := by
    simp [Awaits, pending_overtakenPage]
  obtain ⟨caller, before, between, after, split, -, -, -, overtaken⟩ :=
    holds_run {} rfl rfl { templates := [("page", "old")] } () onePage rfl overtakenPage "page" _
      holds_overtakenPage heard
  have stale : some (Stencil.compile {} "old") ≠ (onePage.run overtakenPage).truth "page" := by
    decide +kernel
  exact ⟨holds_overtakenPage, heard, caller, before, between, after, split, overtaken stale⟩

/-- Only caller 0 does anything, and its call has ended. -/
theorem atRest_overtakenPage : (onePage.run overtakenPage).AtRest where
  calls caller := by
    by_cases same : caller = 0
    · subst same
      rw [← Option.not_isSome_iff_eq_none]
      decide +kernel
    · rw [calls_run fun s member => ?_]
      · rfl
      · simp only [overtakenPage, List.mem_cons, List.not_mem_nil, or_false] at member
        rcases member with rfl | rfl | rfl | rfl | rfl | rfl <;>
          simp [TrafficStep.caller?, Ne.symm same]
  pending := pending_overtakenPage

/-- At rest the cache may hold a page that is no longer there. -/
theorem stale_at_rest :
    ¬∀ steps : List (TrafficStep Unit), (onePage.run steps).AtRest →
      ∀ id payload, (onePage.run steps).Holds id payload →
        payload = (onePage.run steps).truth id := by
  intro current
  have fresh := current overtakenPage atRest_overtakenPage "page" _ holds_overtakenPage
  exact absurd fresh (by decide +kernel)

end Traffic

end Stencil
