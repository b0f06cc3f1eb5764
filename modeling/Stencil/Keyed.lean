import Stencil.Text.Basic

/-!
# Values under keys

A finite map from texts to values, as a list of pairs in which no key occurs twice.  Its view is
the look-up: `get?_insert` and `get?_erase` say what the two changes do to it.
-/

namespace Stencil

abbrev Keyed (α : Type) := List (Text × α)

namespace Keyed

variable {α : Type}

def get? (m : Keyed α) (key : Text) : Option α :=
  (m.find? fun entry => entry.1 = key).map Prod.snd

def contains (m : Keyed α) (key : Text) : Bool := (get? m key).isSome

def erase (m : Keyed α) (key : Text) : Keyed α := m.filter fun entry => entry.1 ≠ key

/-- Puts a value under a key, in place of the one there may be. -/
def insert (m : Keyed α) (key : Text) (value : α) : Keyed α := (key, value) :: erase m key

/-- The pairs whose value passes a test. -/
def keep (m : Keyed α) (p : α → Bool) : Keyed α := m.filter fun entry => p entry.2

/-- The values under the keys of some pairs, of which the last one counts. -/
def ofList (pairs : List (Text × α)) : Keyed α :=
  pairs.foldl (fun m (key, value) => insert m key value) []

theorem get?_erase (m : Keyed α) (key k : Text) :
    get? (erase m key) k = if k = key then none else get? m k := by
  unfold get? erase
  induction m with
  | nil => simp
  | cons entry m ih =>
    by_cases hj : entry.1 = key
    · by_cases hk : k = key
      · simp_all
      · have : ¬ key = k := fun h => hk h.symm
        simp_all
    · by_cases hk : entry.1 = k
      · have : ¬ k = key := fun h => hj (hk.trans h)
        simp_all
      · simp_all

theorem get?_insert (m : Keyed α) (key k : Text) (value : α) :
    get? (insert m key value) k = if k = key then some value else get? m k := by
  by_cases hk : k = key
  · simp [get?, insert, hk]
  · have h : ¬ key = k := fun h => hk h.symm
    have := get?_erase m key k
    simp_all [get?, insert]

end Keyed

end Stencil
