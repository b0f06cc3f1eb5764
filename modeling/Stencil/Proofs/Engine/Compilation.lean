import Stencil.Engine.Render
import Stencil.Proofs.Cache.History

/-!
# What compiling a template does to the cache

Compiling a template is the only thing in a render that looks at the cache or changes it.  What it
gives and what it leaves behind is told here by what a look-up finds before it: one equation for a
hit, a known absence and a miss each, and from them the look-ups after it
(`Setting.found_compileId`) and the reads (`Setting.reads_compileId`).  At one moment no look-up
changes another, so that only a miss teaches the cache anything.

Where the hook before compilation keeps nothing, a template is served alike from the cache and from
its source, and compiling one changes for no other what is served (`Setting.serves_compileId`).
-/

namespace Stencil

variable {σ α : Type}

def Lookup.isMiss : Lookup α → Bool
  | .miss => true
  | _ => false

theorem Lookup.isMiss_iff {found : Lookup α} : found.isMiss = true ↔ found = .miss := by
  cases found <;> simp [isMiss]

/-- What a look-up finds once a read is known of. -/
def Lookup.ofRead {ε : Type} : Except ε α → Lookup α
  | .ok value => .hit value
  | .error _ => .absent

namespace Cache

open CacheHistory

variable {c : Cache α}

theorem near_self (ttl : Option Nat) (t : Nat) : Near ttl t t := by
  intro limit _
  simp

@[simp] theorem enabled_get (c : Cache α) (now : Nat) (id : Text) :
    (c.get now id).2.enabled = c.enabled := by
  obtain ⟨entries, after, _⟩ := c.get_frame now id
  rw [after]

@[simp] theorem ttl_get (c : Cache α) (now : Nat) (id : Text) :
    (c.get now id).2.ttl = c.ttl := by
  obtain ⟨entries, after, _⟩ := c.get_frame now id
  rw [after]

@[simp] theorem enabled_store (c : Cache α) (now : Nat) (id : Text) (payload : Option α) :
    (c.store now id payload).enabled = c.enabled := by
  obtain ⟨entries, after, _⟩ := c.store_frame now id payload
  rw [after]

@[simp] theorem ttl_store (c : Cache α) (now : Nat) (id : Text) (payload : Option α) :
    (c.store now id payload).ttl = c.ttl := by
  obtain ⟨entries, after, _⟩ := c.store_frame now id payload
  rw [after]

/-- Look-ups at one moment do not disturb each other. -/
@[simp] theorem get_get (c : Cache α) (now : Nat) (id i : Text) :
    ((c.get now id).2.get now i).1 = (c.get now i).1 := by
  rw [get_fst, get_fst, alive?_get, enabled_get]
  by_cases same : c.enabled = true ∧ i = id
  · obtain ⟨on, rfl⟩ := same
    simp [on, near_self]
  · rw [if_neg same]

/-- What is stored is found at the same moment, unless the cache is bypassed. -/
theorem get_store (c : Cache α) (now : Nat) (id i : Text) (payload : Option α) :
    ((c.store now id payload).get now i).1 =
      if c.enabled ∧ i = id then (match payload with | some value => .hit value | none => .absent)
      else (c.get now i).1 := by
  rw [get_fst, get_fst, alive?_store, enabled_store]
  by_cases same : c.enabled = true ∧ i = id
  · obtain ⟨on, rfl⟩ := same
    cases payload <;> simp [on, near_self]
  · rw [if_neg same, if_neg same]

end Cache

/-- In a context, a hook makes of each text what `f` does, and leaves the state alone. -/
def SourceHook.Gives (hook : SourceHook σ) (f : Text → Text) (ctx : Context σ) : Prop :=
  ∀ text t, hook.apply text ctx t = (f text, t)

namespace Setting

variable {s : Setting σ} {ctx : Context σ} {id : Text} {st : Session σ}

def found (s : Setting σ) (id : Text) (st : Session σ) : Lookup Artifact :=
  (st.cache.get s.now id).1

def learn (s : Setting σ) (ctx : Context σ) (id : Text) (st : Session σ) :
    Except StorageError Artifact :=
  (s.source id).map fun source =>
    Stencil.compile s.config.compile (s.config.hooks.beforeCompile.apply source ctx st.tally).1

/-- The state of lazy values once a template has been compiled from its source. -/
def tallyAfter (s : Setting σ) (ctx : Context σ) (id : Text) (st : Session σ) : σ :=
  match s.source id with
  | .ok source => (s.config.hooks.beforeCompile.apply source ctx st.tally).2
  | .error _ => st.tally

def lookedUp (s : Setting σ) (id : Text) (st : Session σ) : Session σ :=
  { st with cache := (st.cache.get s.now id).2 }

def learned (s : Setting σ) (ctx : Context σ) (id : Text) (st : Session σ) : Session σ where
  cache := (st.cache.get s.now id).2.store s.now id (s.learn ctx id st).toOption
  reads := st.reads ++ [id]
  tally := s.tallyAfter ctx id st

theorem compileId_of_hit {artifact : Artifact} (h : s.found id st = .hit artifact) :
    s.compileId ctx id st = (.ok artifact, s.lookedUp id st) := by
  unfold compileId Session.lookup
  dsimp only
  rw [show (st.cache.get s.now id).1 = .hit artifact from h]
  rfl

theorem compileId_of_absent (h : s.found id st = .absent) :
    s.compileId ctx id st = (.error (.notFound id), s.lookedUp id st) := by
  unfold compileId Session.lookup
  dsimp only
  rw [show (st.cache.get s.now id).1 = .absent from h]
  rfl

theorem compileId_of_miss (h : s.found id st = .miss) :
    s.compileId ctx id st =
      ((s.learn ctx id st).mapError (RenderError.ofStorage id), s.learned ctx id st) := by
  unfold compileId Session.lookup
  dsimp only
  rw [show (st.cache.get s.now id).1 = .miss from h]
  unfold read store learned learn tallyAfter
  cases s.source id with
  | error cause => rfl
  | ok source => rfl

/-- A miss teaches the cache what was read, if it is in use; no other look-up changes what is
found. -/
theorem found_compileId (s : Setting σ) (ctx : Context σ) (id i : Text) (st : Session σ) :
    s.found i (s.compileId ctx id st).2 =
      if st.cache.enabled ∧ i = id ∧ (s.found id st).isMiss then .ofRead (s.learn ctx id st)
      else s.found i st := by
  cases h : s.found id st with
  | hit artifact =>
    rw [compileId_of_hit h]
    simp [found, lookedUp, Lookup.isMiss]
  | absent =>
    rw [compileId_of_absent h]
    simp [found, lookedUp, Lookup.isMiss]
  | miss =>
    rw [compileId_of_miss h]
    simp only [found, learned, Cache.get_store, Cache.enabled_get, Cache.get_get, Lookup.isMiss,
      and_true]
    congr 1
    cases s.learn ctx id st with
    | error cause => rfl
    | ok artifact => rfl

theorem reads_compileId (s : Setting σ) (ctx : Context σ) (id : Text) (st : Session σ) :
    (s.compileId ctx id st).2.reads = st.reads ++ if (s.found id st).isMiss then [id] else [] := by
  cases h : s.found id st with
  | hit artifact => simp [compileId_of_hit h, lookedUp, Lookup.isMiss]
  | absent => simp [compileId_of_absent h, lookedUp, Lookup.isMiss]
  | miss => simp [compileId_of_miss h, learned, Lookup.isMiss]

@[simp] theorem enabled_compileId (s : Setting σ) (ctx : Context σ) (id : Text) (st : Session σ) :
    (s.compileId ctx id st).2.cache.enabled = st.cache.enabled := by
  cases h : s.found id st with
  | hit artifact => simp [compileId_of_hit h, lookedUp]
  | absent => simp [compileId_of_absent h, lookedUp]
  | miss => simp [compileId_of_miss h, learned]

@[simp] theorem ttl_compileId (s : Setting σ) (ctx : Context σ) (id : Text) (st : Session σ) :
    (s.compileId ctx id st).2.cache.ttl = st.cache.ttl := by
  cases h : s.found id st with
  | hit artifact => simp [compileId_of_hit h, lookedUp]
  | absent => simp [compileId_of_absent h, lookedUp]
  | miss => simp [compileId_of_miss h, learned]

variable {f : Text → Text}

/-- The compiled template that is served for an id, where sources are changed by `f` before they are
compiled. -/
def serves (s : Setting σ) (f : Text → Text) (id : Text) (st : Session σ) : Option Artifact :=
  match s.found id st with
  | .hit artifact => some artifact
  | .absent => none
  | .miss => (s.source id).toOption.map fun source => Stencil.compile s.config.compile (f source)

theorem toOption_learn (gives : s.config.hooks.beforeCompile.Gives f ctx) :
    (s.learn ctx id st).toOption =
      (s.source id).toOption.map fun source =>
        Stencil.compile s.config.compile (f source) := by
  unfold learn
  cases s.source id with
  | error cause => rfl
  | ok source => simp [Except.map, Except.toOption, gives source st.tally]

/-- Compiling a template gives what is served for its id, and fails where nothing is. -/
theorem toOption_compileId (gives : s.config.hooks.beforeCompile.Gives f ctx) :
    (s.compileId ctx id st).1.toOption = s.serves f id st := by
  unfold serves
  cases h : s.found id st with
  | hit artifact => simp [compileId_of_hit h, Except.toOption]
  | absent => simp [compileId_of_absent h, Except.toOption]
  | miss =>
    have learns : (s.learn ctx id st).toOption = _ := toOption_learn gives
    rw [compileId_of_miss h, ← learns]
    cases s.learn ctx id st with
    | error cause => rfl
    | ok artifact => rfl

/-- Compiling a template does not touch the lazy values if the hook does not. -/
theorem tally_compileId (gives : s.config.hooks.beforeCompile.Gives f ctx) :
    (s.compileId ctx id st).2.tally = st.tally := by
  cases h : s.found id st with
  | hit artifact => simp [compileId_of_hit h, lookedUp]
  | absent => simp [compileId_of_absent h, lookedUp]
  | miss =>
    rw [compileId_of_miss h]
    simp only [learned, tallyAfter]
    cases s.source id with
    | error cause => rfl
    | ok source => simp [gives source st.tally]

/-- Compiling a template changes for no template what is served. -/
theorem serves_compileId (gives : s.config.hooks.beforeCompile.Gives f ctx) (i : Text) :
    s.serves f i (s.compileId ctx id st).2 = s.serves f i st := by
  unfold serves
  rw [found_compileId]
  by_cases learns : st.cache.enabled = true ∧ i = id ∧ (s.found id st).isMiss = true
  · rw [if_pos learns]
    obtain ⟨-, rfl, missed⟩ := learns
    have learns : (s.learn ctx i st).toOption = _ := toOption_learn gives
    rw [Lookup.isMiss_iff.mp missed, ← learns]
    cases s.learn ctx i st with
    | error cause => rfl
    | ok artifact => rfl
  · rw [if_neg learns]

end Setting

end Stencil
