import Mathlib.Data.List.Nodup
import Stencil.Keyed

/-!
# Members and look-ups

What the changes of a finite map do to its pairs, and what keeping some of its pairs does to its
look-ups where no key occurs twice.
-/

namespace Stencil.Keyed

variable {α : Type}

theorem mem_of_get? {m : Keyed α} {key : Text} {value : α} (h : get? m key = some value) :
    (key, value) ∈ m := by
  obtain ⟨entry, found, rfl⟩ := Option.map_eq_some_iff.mp h
  have same : entry.1 = key := by simpa using List.find?_some found
  rw [← same]
  exact List.mem_of_find?_eq_some found

theorem mem_erase {m : Keyed α} {key : Text} {entry : Text × α} :
    entry ∈ erase m key ↔ entry ∈ m ∧ entry.1 ≠ key := by
  simp [erase]

theorem mem_insert {m : Keyed α} {key : Text} {value : α} {entry : Text × α} :
    entry ∈ insert m key value ↔ entry = (key, value) ∨ entry ∈ m ∧ entry.1 ≠ key := by
  simp [insert, mem_erase]

theorem mem_keep {m : Keyed α} {p : α → Bool} {entry : Text × α} :
    entry ∈ keep m p ↔ entry ∈ m ∧ p entry.2 := by
  simp [keep]

def Distinct (m : Keyed α) : Prop := (m.map Prod.fst).Nodup

theorem Distinct.filter {m : Keyed α} (h : m.Distinct) (p : Text × α → Bool) :
    Distinct (m.filter p) :=
  h.sublist (List.filter_sublist.map Prod.fst)

theorem Distinct.insert {m : Keyed α} (h : m.Distinct) (key : Text) (value : α) :
    Distinct (insert m key value) := by
  refine List.nodup_cons.mpr ⟨?_, h.filter _⟩
  simp [erase]

theorem get?_cons (entry : Text × α) (m : Keyed α) (key : Text) :
    get? (entry :: m) key = if entry.1 = key then some entry.2 else get? m key := by
  by_cases same : entry.1 = key <;> simp [get?, same]

theorem get?_eq_none {m : Keyed α} {key : Text} (h : key ∉ m.map Prod.fst) :
    get? m key = none := by
  simp only [get?, Option.map_eq_none_iff, List.find?_eq_none, decide_eq_true_eq]
  exact fun entry member same => h (same ▸ List.mem_map_of_mem member)

/-- Where no key occurs twice, keeping some pairs is the same under every key. -/
theorem get?_keep {m : Keyed α} (h : m.Distinct) (p : α → Bool) (key : Text) :
    get? (keep m p) key = (get? m key).filter p := by
  induction m with
  | nil => rfl
  | cons entry m ih =>
    obtain ⟨unique, rest⟩ := List.nodup_cons.mp h
    have ih := ih rest
    have step : keep (entry :: m) p = if p entry.2 then entry :: keep m p else keep m p :=
      List.filter_cons
    rw [step, get?_cons]
    by_cases same : entry.1 = key
    · rw [same] at unique
      rw [get?_eq_none unique] at ih
      cases passes : p entry.2 <;> simp [passes, same, ih, get?_cons, Option.filter]
    · cases p entry.2 <;> simp [same, ih, get?_cons]

/-- Where no key occurs twice, a pair is found by its key. -/
theorem Distinct.get?_eq_some_iff {m : Keyed α} (h : m.Distinct) {key : Text} {value : α} :
    get? m key = some value ↔ (key, value) ∈ m := by
  refine ⟨mem_of_get?, fun member => ?_⟩
  induction m with
  | nil => simp at member
  | cons entry m ih =>
    obtain ⟨unique, rest⟩ := List.nodup_cons.mp h
    rw [get?_cons]
    rcases List.mem_cons.mp member with rfl | later
    · exact if_pos rfl
    · have other : entry.1 ≠ key := fun same => unique (same.symm ▸ List.mem_map_of_mem later)
      rw [if_neg other]
      exact ih rest later

end Stencil.Keyed
