import Mathlib.Data.List.Chain
import Stencil.Cache.Basic
import Stencil.Proofs.Keyed

/-!
# A cache answers by its history

What a look-up finds can be told from what was done with the cache before, without any entries:
`Remembers` looks for the store that counts, and asks that nothing has dropped it and that no two
uses since are too far apart.  The look-up in the cache agrees (`run_follows_history`), whatever
sweeps there were and whatever was done while the cache was bypassed.

The invariant is about the entries that are alive: each operation changes them as one more event
changes what is remembered.
-/

namespace Stencil

variable {α : Type}

/-- Something that is done with a cache. -/
inductive CacheStep (α : Type) where
  | insert (id : Text) (value : α)
  | insertAbsent (id : Text)
  | get (id : Text)
  | invalidate (id : Text)
  | sweep
  | reset
  | setEnabled (on : Bool)
  deriving DecidableEq

structure CacheEvent (α : Type) where
  time : Nat
  step : CacheStep α
  deriving DecidableEq

namespace CacheStep

/-- The id and the payload that a step stores, if the cache is enabled. -/
def stored? : CacheStep α → Option (Text × Option α)
  | .insert id value => some (id, some value)
  | .insertAbsent id => some (id, none)
  | _ => none

def Stores (id : Text) (s : CacheStep α) : Prop := ∃ payload, s.stored? = some (id, payload)

/-- Whether a step drops the entry of an id, however long it still has. -/
def Drops (id : Text) : CacheStep α → Prop
  | .invalidate i => i = id
  | .reset => True
  | _ => False

def isGet (id : Text) : CacheStep α → Bool
  | .get i => i = id
  | _ => false

def enabledAfter (on : Bool) : CacheStep α → Bool
  | .setEnabled on => on
  | _ => on

/-- Whether a step is a sweep, or a store, a look-up or another bypass in a bypassed cache. -/
def isIdle (on : Bool) : CacheStep α → Bool
  | .sweep => true
  | .insert .. | .insertAbsent _ | .get _ => !on
  | .setEnabled next => !on && !next
  | .invalidate _ | .reset => false

end CacheStep

/-- What is done with a cache, the oldest event first. -/
abbrev CacheHistory (α : Type) := List (CacheEvent α)

namespace CacheHistory

def enabled (h : CacheHistory α) : Bool := h.foldl (fun on e => e.step.enabledAfter on) true

/-- The events of a history, each with whether the cache is enabled when it happens. -/
def witnessed (on : Bool) : CacheHistory α → List (CacheEvent α × Bool)
  | [] => []
  | e :: h => (e, on) :: witnessed (e.step.enabledAfter on) h

/-- The moments at which an id is looked up in the enabled cache. -/
def uses (id : Text) (events : List (CacheEvent α × Bool)) : List Nat :=
  events.filterMap fun (e, on) => if on && e.step.isGet id then some e.time else none

/-- Whether no more than the time to live passes between two moments. -/
def Near (ttl : Option Nat) (s t : Nat) : Prop := ∀ limit, ttl = some limit → t - s ≤ limit

instance (ttl : Option Nat) (s t : Nat) : Decidable (Near ttl s t) :=
  decidable_of_iff (ttl.all fun limit => t - s ≤ limit) (by cases ttl <;> simp [Near])

/-- What a history says about an id at a moment.  There is a last store for the id among those made
while the cache was enabled, and it is of this payload; nothing drops the id after it; and from it
over the look-ups to the moment there is no step longer than the time to live. -/
def Remembers (ttl : Option Nat) (h : CacheHistory α) (id : Text) (payload : Option α)
    (t : Nat) : Prop :=
  ∃ before store after, witnessed true h = before ++ (store, true) :: after ∧
    store.step.stored? = some (id, payload) ∧
    (∀ e on, (e, on) ∈ after → ¬e.step.Drops id ∧ (on = true → ¬e.step.Stores id)) ∧
    (store.time :: (uses id after ++ [t])).IsChain (Near ttl)

/-- Whether the moments of a history do not go back and none is after `t`. -/
def Until (t : Nat) (h : CacheHistory α) : Prop := (h.map CacheEvent.time ++ [t]).IsChain (· ≤ ·)

instance (t : Nat) (h : CacheHistory α) : Decidable (h.Until t) :=
  inferInstanceAs (Decidable (List.IsChain _ _))

/-- The events that can make a difference. -/
def essential (h : CacheHistory α) : CacheHistory α :=
  (witnessed true h).filterMap fun (e, on) => if e.step.isIdle on then none else some e

variable {ttl : Option Nat} {h : CacheHistory α} {id : Text} {payload : Option α} {t : Nat}

theorem enabled_append (h : CacheHistory α) (e : CacheEvent α) :
    enabled (h ++ [e]) = e.step.enabledAfter h.enabled := by
  simp [enabled]

theorem witnessed_append (h : CacheHistory α) (e : CacheEvent α) :
    witnessed true (h ++ [e]) = witnessed true h ++ [(e, h.enabled)] := by
  have general (on : Bool) : witnessed on (h ++ [e]) =
      witnessed on h ++ [(e, h.foldl (fun on e => e.step.enabledAfter on) on)] := by
    induction h generalizing on with
    | nil => rfl
    | cons d h ih => simp [witnessed, ih]
  exact general true

theorem uses_append (events : List (CacheEvent α × Bool)) (e : CacheEvent α) (on : Bool) :
    uses id (events ++ [(e, on)]) =
      uses id events ++ if on && e.step.isGet id then [e.time] else [] := by
  cases on <;> cases used : e.step.isGet id <;> simp [uses, used]

theorem until_append {e : CacheEvent α} :
    Until t (h ++ [e]) ↔ Until e.time h ∧ e.time ≤ t := by
  simp [Until, List.isChain_append, and_left_comm, and_comm]

theorem essential_append (h : CacheHistory α) (e : CacheEvent α) :
    essential (h ++ [e]) = essential h ++ if e.step.isIdle h.enabled then [] else [e] := by
  rw [essential, witnessed_append, List.filterMap_append]
  cases idle : e.step.isIdle h.enabled <;> simp [essential, idle]

theorem not_remembers_nil : ¬Remembers ttl ([] : CacheHistory α) id payload t := by
  rintro ⟨before, store, after, split, _⟩
  simp [witnessed] at split

theorem isChain_append_near {s : Nat} {between : List Nat} {u : Nat} :
    (s :: (between ++ [u] ++ [t])).IsChain (Near ttl) ↔
      (s :: (between ++ [u])).IsChain (Near ttl) ∧ Near ttl u t := by
  have split : s :: (between ++ [u] ++ [t]) = (s :: (between ++ [u])) ++ [t] := by simp
  rw [split, List.isChain_append]
  simp [List.getLast?_cons]

/-- What is remembered is still remembered after an event that does not disturb it, either until
the event, if that uses the id, or as long as before. -/
theorem Remembers.append {e : CacheEvent α} {u : Nat} (remembered : Remembers ttl h id payload u)
    (kept : ¬e.step.Drops id) (unstored : h.enabled = true → ¬e.step.Stores id)
    (near : (h.enabled && e.step.isGet id) = true → u = e.time ∧ Near ttl u t)
    (still : (h.enabled && e.step.isGet id) = false → u = t) :
    Remembers ttl (h ++ [e]) id payload t := by
  obtain ⟨before, store, after, split, stored, undisturbed, close⟩ := remembered
  refine ⟨before, store, after ++ [(e, h.enabled)], by simp [witnessed_append, split], stored, ?_,
    ?_⟩
  · intro d on member
    rcases List.mem_append.mp member with earlier | last
    · exact undisturbed d on earlier
    · obtain ⟨rfl, rfl⟩ := Prod.mk.inj (List.mem_singleton.mp last)
      exact ⟨kept, unstored⟩
  · rw [uses_append]
    cases used : h.enabled && e.step.isGet id with
    | true =>
      obtain ⟨rfl, near⟩ := near used
      exact isChain_append_near.mpr ⟨close, near⟩
    | false =>
      obtain rfl := still used
      simpa using close

/-- What one more event adds to what a history says. -/
theorem remembers_append {e : CacheEvent α} :
    Remembers ttl (h ++ [e]) id payload t ↔
      (h.enabled = true ∧ e.step.stored? = some (id, payload) ∧ Near ttl e.time t) ∨
      (¬e.step.Drops id ∧ (h.enabled = true → ¬e.step.Stores id) ∧
        if h.enabled && e.step.isGet id then
          Remembers ttl h id payload e.time ∧ Near ttl e.time t
        else Remembers ttl h id payload t) := by
  constructor
  · rintro ⟨before, store, after, split, stored, undisturbed, close⟩
    rw [witnessed_append] at split
    rcases List.eq_nil_or_concat after with rfl | ⟨after, last, rfl⟩
    · -- The event is itself the store that counts.
      obtain ⟨_, same⟩ := List.append_inj' split rfl
      obtain ⟨rfl, on⟩ := Prod.mk.inj (List.singleton_inj.mp same)
      exact .inl ⟨on, stored, by simpa [uses] using close⟩
    · rw [List.concat_eq_append] at split undisturbed close
      rw [← List.cons_append, ← List.append_assoc] at split
      obtain ⟨earlier, same⟩ := List.append_inj' split rfl
      obtain rfl := List.singleton_inj.mp same
      obtain ⟨kept, unstored⟩ := undisturbed e h.enabled (by simp)
      refine .inr ⟨kept, unstored, ?_⟩
      have remaining (d : CacheEvent α) (on : Bool) (member : (d, on) ∈ after) :=
        undisturbed d on (List.mem_append_left _ member)
      rw [uses_append] at close
      split at close <;> rename_i used
      · rw [if_pos used]
        obtain ⟨chain, near⟩ := isChain_append_near.mp close
        exact ⟨⟨before, store, after, earlier, stored, remaining, chain⟩, near⟩
      · rw [if_neg used]
        rw [List.append_nil] at close
        exact ⟨before, store, after, earlier, stored, remaining, close⟩
  · rintro (⟨on, stored, near⟩ | ⟨kept, unstored, rest⟩)
    · exact ⟨witnessed true h, e, [], by rw [witnessed_append, on], stored, by simp,
        by simpa [uses] using near⟩
    · split at rest <;> rename_i used
      · exact rest.1.append kept unstored (fun _ => ⟨rfl, rest.2⟩) (by simp [used])
      · exact rest.append kept unstored (by simp [used]) fun _ => rfl

theorem until_mono {u : Nat} (h : Until t h') (later : t ≤ u) : Until u h' := by
  rcases List.eq_nil_or_concat h' with rfl | ⟨earlier, e, rfl⟩
  · simp [Until]
  · rw [List.concat_eq_append] at h ⊢
    obtain ⟨ordered, before⟩ := until_append.mp h
    exact until_append.mpr ⟨ordered, before.trans later⟩

-- From here on every step is looked at on its own.
attribute [simp] CacheStep.stored? CacheStep.Stores CacheStep.Drops CacheStep.isGet
  CacheStep.enabledAfter CacheStep.isIdle

theorem enabled_essential (h : CacheHistory α) : enabled (essential h) = h.enabled := by
  induction h using List.reverseRecOn with
  | nil => rfl
  | append_singleton h e ih =>
    rw [essential_append, enabled_append]
    split <;> rename_i idle
    · rw [List.append_nil, ih]
      obtain ⟨time, step⟩ := e
      cases step <;> simp_all
    · rw [enabled_append, ih]

/-- What makes no difference is not remembered either. -/
theorem remembers_append_idle {e : CacheEvent α} (idle : e.step.isIdle h.enabled = true) :
    Remembers ttl (h ++ [e]) id payload t ↔ Remembers ttl h id payload t := by
  rw [remembers_append]
  obtain ⟨time, step⟩ := e
  cases step <;> simp_all

theorem remembers_essential (h : CacheHistory α) (t : Nat) :
    Remembers ttl (essential h) id payload t ↔ Remembers ttl h id payload t := by
  induction h using List.reverseRecOn generalizing t with
  | nil => rfl
  | append_singleton h e ih =>
    rw [essential_append]
    split <;> rename_i idle
    · rw [List.append_nil, ih, remembers_append_idle idle]
    · rw [remembers_append, remembers_append, enabled_essential, ih, ih]

end CacheHistory

namespace Cache

open CacheHistory

def step (c : Cache α) (e : CacheEvent α) : Cache α :=
  match e.step with
  | .insert id value => c.insert e.time id value
  | .insertAbsent id => c.insertAbsent e.time id
  | .get id => (c.get e.time id).2
  | .invalidate id => (c.invalidate id).2
  | .sweep => c.sweep e.time
  | .reset => c.reset
  | .setEnabled on => c.setEnabled on

def run (ttl : Option Nat) (h : CacheHistory α) : Cache α := h.foldl step { ttl := ttl }

/-- The payload of the entry of an id, if there is one that is not expired. -/
def alive? (c : Cache α) (id : Text) (t : Nat) : Option (Option α) :=
  ((Keyed.get? c.entries id).filter fun e => !e.isExpired c.ttl t).map CacheEntry.payload

variable {ttl : Option Nat} {c : Cache α} {now t : Nat} {id i : Text}

theorem isExpired_eq {e : CacheEntry α} : e.isExpired ttl t = !decide (Near ttl e.touched t) := by
  cases ttl with
  | none => simp [CacheEntry.isExpired, Near]
  | some limit =>
    have turned : limit < t - e.touched ↔ ¬t - e.touched ≤ limit := by omega
    simp only [CacheEntry.isExpired, Near, Option.any_some, turned, Option.some.injEq,
      forall_eq', decide_not]

theorem alive?_eq (c : Cache α) (id : Text) (t : Nat) :
    c.alive? id t = (Keyed.get? c.entries id).bind fun e =>
      if Near c.ttl e.touched t then some e.payload else none := by
  unfold alive?
  cases Keyed.get? c.entries id with
  | none => rfl
  | some e => by_cases near : Near c.ttl e.touched t <;> simp [isExpired_eq, near, Option.filter]

/-- A look-up in an enabled cache finds the entry that is alive. -/
theorem get_fst (c : Cache α) (t : Nat) (id : Text) :
    (c.get t id).1 =
      if c.enabled then
        match c.alive? id t with
        | some (some value) => .hit value
        | some none => .absent
        | none => .miss
      else .miss := by
  rw [get, alive?_eq]
  cases c.enabled with
  | false => rfl
  | true =>
    cases Keyed.get? c.entries id with
    | none => rfl
    | some e =>
      by_cases near : Near c.ttl e.touched t
      · cases stored : e.payload <;> simp [isExpired_eq, near, stored, CacheEntry.lookup]
      · simp [isExpired_eq, near]

theorem alive?_insert (c : Cache α) (id i : Text) (e : CacheEntry α) (on : Bool) (t : Nat) :
    alive? ⟨Keyed.insert c.entries id e, c.ttl, on⟩ i t =
      if i = id then (if Near c.ttl e.touched t then some e.payload else none)
      else c.alive? i t := by
  rw [alive?_eq, alive?_eq, Keyed.get?_insert]
  split <;> simp

theorem alive?_erase (c : Cache α) (id i : Text) (on : Bool) (t : Nat) :
    alive? ⟨Keyed.erase c.entries id, c.ttl, on⟩ i t = if i = id then none else c.alive? i t := by
  rw [alive?_eq, alive?_eq, Keyed.get?_erase]
  split <;> simp

theorem alive?_store (c : Cache α) (now : Nat) (id i : Text) (payload : Option α) (t : Nat) :
    (c.store now id payload).alive? i t =
      if c.enabled ∧ i = id then (if Near c.ttl now t then some payload else none)
      else c.alive? i t := by
  unfold store
  cases c.enabled with
  | false => simp
  | true => simp only [if_true, alive?_insert, true_and]

/-- After a store an id has the payload stored under it, for as long as it lives, and every other id
has what it had. -/
theorem alive?_store_eq_some {c : Cache α} {payload p : Option α} :
    (c.store now i p).alive? id t = some payload ↔
      (c.enabled ∧ i = id ∧ p = payload ∧ Near c.ttl now t) ∨
      ((c.enabled → ¬i = id) ∧ c.alive? id t = some payload) := by
  rw [alive?_store]
  by_cases hit : c.enabled = true ∧ id = i
  · obtain ⟨on, rfl⟩ := hit
    simp [on, and_comm]
  · have missed : c.enabled = true → ¬i = id := fun on same => hit ⟨on, same.symm⟩
    rw [if_neg hit]
    constructor
    · exact fun found => .inr ⟨missed, found⟩
    · rintro (⟨on, same, _⟩ | ⟨_, found⟩)
      · exact absurd same (missed on)
      · exact found

/-- An entry that is alive when it is looked up counts from then on, and one that is not is gone. -/
theorem alive?_get (c : Cache α) (id i : Text) (now t : Nat) :
    (c.get now id).2.alive? i t =
      if c.enabled ∧ i = id then (if Near c.ttl now t then c.alive? id now else none)
      else c.alive? i t := by
  have before : c.alive? id now = _ := alive?_eq c id now
  have after : c.alive? id t = _ := alive?_eq c id t
  unfold get
  cases c.enabled with
  | false => simp
  | true =>
    cases found : Keyed.get? c.entries id with
    | none =>
      rw [found, Option.bind_none] at before after
      by_cases same : i = id <;> simp [same, before, after]
    | some e =>
      rw [found, Option.bind_some] at before
      by_cases near : Near c.ttl e.touched now
      · simp [-Bool.not_eq_true, isExpired_eq, near, before, alive?_insert c]
      · simp [isExpired_eq, near, before, alive?_erase c]

/-- A sweep does not change what is alive then or later. -/
theorem alive?_sweep (distinct : c.entries.Distinct) (i : Text) (later : now ≤ t) :
    (c.sweep now).alive? i t = c.alive? i t := by
  rw [alive?_eq, alive?_eq, sweep]
  dsimp only
  rw [Keyed.get?_keep distinct]
  cases Keyed.get? c.entries i with
  | none => rfl
  | some e =>
    -- What the sweep drops is still expired later.
    by_cases near : Near c.ttl e.touched now
    · simp [isExpired_eq, near, Option.filter]
    · have late : ¬Near c.ttl e.touched t := fun h => near fun limit eq =>
        (Nat.sub_le_sub_right later _).trans (h limit eq)
      simp [isExpired_eq, near, late, Option.filter]

/-- A store writes entries only, and no key twice. -/
theorem store_frame (c : Cache α) (now : Nat) (id : Text) (payload : Option α) :
    ∃ entries, c.store now id payload = { c with entries := entries } ∧
      (c.entries.Distinct → entries.Distinct) := by
  unfold store
  split
  · exact ⟨_, rfl, fun distinct => distinct.insert _ _⟩
  · exact ⟨_, rfl, fun distinct => distinct⟩

/-- A look-up changes nothing but entries, and makes no id occur twice. -/
theorem get_frame (c : Cache α) (now : Nat) (id : Text) :
    ∃ entries, (c.get now id).2 = { c with entries := entries } ∧
      (c.entries.Distinct → entries.Distinct) := by
  unfold get
  split
  · exact ⟨_, rfl, fun distinct => distinct⟩
  · split
    · exact ⟨_, rfl, fun distinct => distinct⟩
    · split
      · exact ⟨_, rfl, fun distinct => distinct.filter _⟩
      · exact ⟨_, rfl, fun distinct => distinct.insert _ _⟩

/-- What a step does beside the entries is to enable or to bypass. -/
theorem step_frame (c : Cache α) (e : CacheEvent α) :
    ∃ entries, c.step e = ⟨entries, c.ttl, e.step.enabledAfter c.enabled⟩ ∧
      (c.entries.Distinct → entries.Distinct) := by
  obtain ⟨time, step⟩ := e
  cases step with
  | insert id value => exact c.store_frame time id (some value)
  | insertAbsent id => exact c.store_frame time id none
  | get id => exact c.get_frame time id
  | invalidate id => exact ⟨_, rfl, fun distinct => distinct.filter _⟩
  | sweep => exact ⟨_, rfl, fun distinct => distinct.filter _⟩
  | reset => exact ⟨_, rfl, fun _ => List.nodup_nil⟩
  | setEnabled on => exact ⟨_, rfl, fun distinct => distinct⟩

/-- The rules that tie a cache to what was done with it. -/
structure Follows (limit : Option Nat) (h : CacheHistory α) (c : Cache α) : Prop where
  ttl : c.ttl = limit
  enabled : c.enabled = h.enabled
  distinct : c.entries.Distinct
  alive : ∀ id payload t, h.Until t →
    (c.alive? id t = some payload ↔ h.Remembers limit id payload t)

theorem follows_new (ttl : Option Nat) : Follows ttl [] ({ ttl := ttl } : Cache α) where
  ttl := rfl
  enabled := rfl
  distinct := List.nodup_nil
  alive := fun id payload t _ => by simp [alive?_eq, Keyed.get?, not_remembers_nil]

/-- One more event changes what is alive as it changes what is remembered. -/
theorem Follows.step {h : CacheHistory α} (follows : Follows ttl h c) {e : CacheEvent α}
    (ordered : h.Until e.time) : Follows ttl (h ++ [e]) (c.step e) where
  ttl := by
    obtain ⟨entries, after, _⟩ := c.step_frame e
    rw [after, follows.ttl]
  enabled := by
    obtain ⟨entries, after, _⟩ := c.step_frame e
    rw [after, enabled_append, follows.enabled]
  distinct := by
    obtain ⟨entries, after, distinct⟩ := c.step_frame e
    rw [after]
    exact distinct follows.distinct
  alive := by
    intro id payload t untilNow
    have later : e.time ≤ t := (until_append.mp untilNow).2
    have before := follows.alive id payload t (until_mono ordered later)
    have now := follows.alive id payload e.time ordered
    rw [remembers_append, ← follows.enabled]
    obtain ⟨time, step⟩ := e
    cases step with
    | insert i value =>
      change (c.store time i (some value)).alive? id t = _ ↔ _
      rw [alive?_store_eq_some, follows.ttl, before]
      simp [and_assoc]
    | insertAbsent i =>
      change (c.store time i none).alive? id t = _ ↔ _
      rw [alive?_store_eq_some, follows.ttl, before]
      simp [and_assoc]
    | get i =>
      change (c.get time i).2.alive? id t = _ ↔ _
      rw [alive?_get, follows.ttl]
      by_cases used : c.enabled = true ∧ id = i
      · obtain ⟨on, rfl⟩ := used
        simp [on, now, and_comm]
      · have unused : ¬(c.enabled = true ∧ i = id) := fun h => used ⟨h.1, h.2.symm⟩
        simp [used, unused, before]
    | invalidate i =>
      change (c.invalidate i).2.alive? id t = _ ↔ _
      rw [invalidate, alive?_erase]
      by_cases same : id = i
      · simp [same]
      · have other : ¬i = id := fun h => same h.symm
        change (if id = i then none else c.alive? id t) = _ ↔ _
        simp [same, other, before]
    | sweep =>
      change (c.sweep time).alive? id t = _ ↔ _
      rw [alive?_sweep follows.distinct id later, before]
      simp
    | reset =>
      change c.reset.alive? id t = _ ↔ _
      simp [alive?_eq, reset, Keyed.get?]
    | setEnabled on =>
      change c.alive? id t = _ ↔ _
      simp [before, CacheStep.stored?, CacheStep.Stores, CacheStep.Drops, CacheStep.isGet]

theorem run_append (ttl : Option Nat) (h : CacheHistory α) (e : CacheEvent α) :
    run ttl (h ++ [e]) = (run ttl h).step e := by
  simp [run]

theorem follows_run {h : CacheHistory α} (ordered : h.Until t) : Follows ttl h (run ttl h) := by
  induction h using List.reverseRecOn generalizing t with
  | nil => exact follows_new ttl
  | append_singleton h e ih =>
    have before : CacheHistory.Until e.time h := (until_append.mp ordered).1
    rw [run_append]
    exact (ih before).step before

/-- A look-up after a history finds what the history says about the id. -/
theorem get_run {h : CacheHistory α} (ordered : h.Until t) (id : Text) :
    (∀ value, ((run ttl h).get t id).1 = .hit value ↔
      h.enabled = true ∧ h.Remembers ttl id (some value) t) ∧
    (((run ttl h).get t id).1 = .absent ↔ h.enabled = true ∧ h.Remembers ttl id none t) ∧
    (((run ttl h).get t id).1 = .miss ↔
      ¬(h.enabled = true ∧ ∃ payload, h.Remembers ttl id payload t)) := by
  have follows : Follows ttl h (run ttl h) := follows_run ordered
  have found (payload : Option α) := follows.alive id payload t ordered
  simp only [← found, get_fst, follows.enabled]
  cases h.enabled with
  | false => simp
  | true => rcases (run ttl h).alive? id t with _ | _ | value <;> simp

theorem lookup_eq_of_iff {a b : Lookup α} (hit : ∀ value, a = .hit value ↔ b = .hit value)
    (absent : a = .absent ↔ b = .absent) : a = b := by
  cases b with
  | hit value => exact (hit value).mpr rfl
  | absent => exact absent.mpr rfl
  | miss =>
    cases a with
    | hit value => exact ((hit value).mp rfl).symm
    | absent => exact (absent.mp rfl).symm
    | miss => rfl

/-- A look-up in a cache follows the history of the cache.  It hits, or knows the template to be
absent, exactly if the cache is enabled and the history remembers that; in every other case it
misses.  Leaving out sweeps, and what is done while the cache is bypassed, changes no look-up. -/
theorem run_follows_history (ttl : Option Nat) (h : CacheHistory α) (t : Nat)
    (ordered : h.Until t) (id : Text) :
    (∀ value, ((run ttl h).get t id).1 = .hit value ↔
      h.enabled = true ∧ h.Remembers ttl id (some value) t) ∧
    (((run ttl h).get t id).1 = .absent ↔ h.enabled = true ∧ h.Remembers ttl id none t) ∧
    (((run ttl h).get t id).1 = .miss ↔
      ¬(h.enabled = true ∧ ∃ payload, h.Remembers ttl id payload t)) ∧
    ∀ h' : CacheHistory α, h'.Until t → h'.essential = h.essential →
      ((run ttl h').get t id).1 = ((run ttl h).get t id).1 := by
  obtain ⟨hit, absent, miss⟩ := get_run ordered id
  refine ⟨hit, absent, miss, fun h' ordered' same => ?_⟩
  obtain ⟨hit', absent', _⟩ := get_run ordered' id
  have enabled : h'.enabled = h.enabled := by
    rw [← enabled_essential h', same, enabled_essential]
  have remembers (payload : Option α) :
      h'.Remembers ttl id payload t ↔ h.Remembers ttl id payload t := by
    rw [← remembers_essential h', same, remembers_essential]
  refine lookup_eq_of_iff (fun value => ?_) ?_
  · rw [hit, hit', enabled, remembers]
  · rw [absent, absent', enabled, remembers]

/-- A template that is used in time, with a sweep and a bypass between its uses. -/
def usedInTime : CacheHistory Nat :=
  [⟨0, .insert "a".toList 1⟩, ⟨40, .get "a".toList⟩, ⟨60, .sweep⟩, ⟨70, .setEnabled false⟩,
    ⟨75, .insert "a".toList 2⟩, ⟨80, .setEnabled true⟩]

theorem run_follows_history_usedInTime :
    usedInTime.Until 90 ∧ usedInTime.Remembers (some 50) "a".toList (some 1) 90 ∧
      ¬∃ payload, usedInTime.Remembers (some 50) "a".toList payload 91 := by
  have atNinety := run_follows_history (some 50) usedInTime 90 (by decide) "a".toList
  have atNinetyOne := run_follows_history (some 50) usedInTime 91 (by decide) "a".toList
  have missed := atNinetyOne.2.2.1.mp (by decide)
  exact ⟨by decide, ((atNinety.1 1).mp (by decide)).2, fun h => missed ⟨by decide, h⟩⟩

end Cache

end Stencil
