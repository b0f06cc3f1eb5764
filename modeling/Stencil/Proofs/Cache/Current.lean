import Stencil.Cache.Clock
import Stencil.Proofs.Keyed

/-!
# Caches that agree with what they cache

`truth` says for every id what an entry for it should hold: a value, or nothing where the template
cannot be read.  A cache is current for some stale ids if every entry of another id holds just that.
Time plays no part: an entry that expires is dropped and an entry that is used is only touched, so
every operation of the cache keeps it current whatever the clock says.
-/

namespace Stencil

variable {α : Type}

def dropId (id : Text) (ids : List Text) : List Text := ids.filter (· ≠ id)

@[simp] theorem mem_dropId {id i : Text} {ids : List Text} :
    i ∈ dropId id ids ↔ i ∈ ids ∧ i ≠ id := by
  simp [dropId]

namespace Cache

/-- Every entry of an id that is not stale holds what it should. -/
def Current (truth : Text → Option α) (stale : List Text) (c : Cache α) : Prop :=
  ∀ entry ∈ c.entries, entry.1 ∉ stale → entry.2.payload = truth entry.1

variable {truth : Text → Option α} {stale : List Text} {c : Cache α}

theorem current_of_empty (h : c.entries = []) : c.Current truth stale := by
  simp [Current, h]

theorem Current.of_subset {d : Cache α} {more : List Text} (h : c.Current truth stale)
    (entries : ∀ entry ∈ d.entries, entry.1 ∉ more → entry ∈ c.entries ∧ entry.1 ∉ stale) :
    d.Current truth more := by
  intro entry member fresh
  obtain ⟨old, known⟩ := entries entry member fresh
  exact h entry old known

theorem Current.erase (h : c.Current truth stale) (id : Text) :
    Current truth (dropId id stale) { c with entries := Keyed.erase c.entries id } := by
  apply h.of_subset
  intro entry member fresh
  obtain ⟨old, other⟩ := Keyed.mem_erase.mp member
  exact ⟨old, fun stale => fresh (mem_dropId.mpr ⟨stale, other⟩)⟩

theorem Current.insert (h : c.Current truth stale) (id : Text) (e : CacheEntry α)
    (agrees : id ∉ stale → e.payload = truth id) :
    Current truth stale { c with entries := Keyed.insert c.entries id e } := by
  intro entry member fresh
  rcases Keyed.mem_insert.mp member with rfl | ⟨old, -⟩
  · exact agrees fresh
  · exact h entry old fresh

theorem Current.invalidate (h : c.Current truth stale) (id : Text) :
    (c.invalidate id).2.Current truth (dropId id stale) :=
  h.erase id

theorem Current.sweep (h : c.Current truth stale) (now : Nat) :
    (c.sweep now).Current truth stale := by
  apply h.of_subset
  intro entry member fresh
  have kept : entry ∈ Keyed.keep c.entries fun e => !e.isExpired c.ttl now := member
  exact ⟨(Keyed.mem_keep.mp kept).1, fresh⟩

theorem current_reset (c : Cache α) : c.reset.Current truth stale :=
  current_of_empty rfl

theorem Current.setEnabled (h : c.Current truth stale) (on : Bool) :
    (c.setEnabled on).Current truth stale :=
  h

theorem Current.store (h : c.Current truth stale) (now : Nat) (id : Text) (payload : Option α)
    (agrees : id ∉ stale → payload = truth id) : (c.store now id payload).Current truth stale := by
  unfold Cache.store
  split
  · exact h.insert id _ agrees
  · exact h

/-- A look-up keeps a cache current, also when it drops or touches the entry that it finds. -/
theorem Current.get (h : c.Current truth stale) (now : Nat) (id : Text) :
    (c.get now id).2.Current truth stale := by
  unfold Cache.get
  split
  · exact h
  · split
    · exact h
    · next e found =>
      have member := Keyed.mem_of_get? found
      split
      -- An expired entry is dropped, but its id stays stale if it was.
      · exact (h.erase id).of_subset fun entry kept fresh =>
          ⟨kept, fun stale => fresh (mem_dropId.mp stale).1⟩
      · exact h.insert id _ (h (id, e) member)

/-- A look-up of an id that is not stale finds the truth or misses. -/
theorem Current.get_result (h : c.Current truth stale) (now : Nat) {id : Text}
    (fresh : id ∉ stale) :
    (c.get now id).1 = .miss ∨
      (∃ value, truth id = some value ∧ (c.get now id).1 = .hit value) ∨
      (truth id = none ∧ (c.get now id).1 = .absent) := by
  unfold Cache.get
  split
  · exact Or.inl rfl
  · split
    · exact Or.inl rfl
    · next e found =>
      have agrees : e.payload = truth id := h (id, e) (Keyed.mem_of_get? found) fresh
      split
      · exact Or.inl rfl
      · rw [← agrees]
        unfold CacheEntry.lookup
        cases e.payload with
        | none => exact Or.inr (Or.inr ⟨rfl, rfl⟩)
        | some value => exact Or.inr (Or.inl ⟨value, rfl, rfl⟩)

/-- Where the truth changes, the ids that it changes for become stale. -/
theorem Current.of_truth_changed {later : Text → Option α} {more : List Text}
    (h : c.Current truth stale) (grows : ∀ id ∈ stale, id ∈ more)
    (same : ∀ id ∉ more, later id = truth id) : c.Current later more := by
  intro entry member fresh
  rw [same entry.1 fresh]
  exact h entry member fun stale => fresh (grows entry.1 stale)

end Cache

namespace TimedCache

variable {truth : Text → Option α} {stale : List Text} {t : TimedCache α}

theorem current_wait (h : t.cache.Current truth stale) (ms : Nat) :
    (t.wait ms).cache.Current truth stale := by
  unfold TimedCache.wait
  cases t.sweeper with
  | none => exact h
  | some sweeper =>
    dsimp only
    split
    · exact h.sweep _
    · exact h

theorem current_awaitEmpty (h : t.cache.Current truth stale) :
    t.awaitEmpty.2.cache.Current truth stale := by
  unfold TimedCache.awaitEmpty
  split
  · exact h
  · exact current_wait h patience

end TimedCache

end Stencil
