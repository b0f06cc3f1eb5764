import Stencil.Proofs.Text.Weave
import Stencil.Tag.Extract

/-!
# The numbers of the elements in a table

Extraction pushes one element after the other and leaves the number of each behind.  No element
moves afterwards, so a number is a look-up in the final table, and no two elements share one.
-/

namespace Stencil

variable {hooks : TagHooks} {table : TagTable} {tags : List Captured}

namespace TagTable

/-- A table with some captured elements after its own. -/
def pushAll (hooks : TagHooks) (table : TagTable) (tags : List Captured) : TagTable :=
  tags.foldl (fun table tag => table.push tag.kind (tag.element hooks)) table

@[simp] theorem pushAll_cons (tag : Captured) :
    table.pushAll hooks (tag :: tags) =
      (table.push tag.kind (tag.element hooks)).pushAll hooks tags :=
  rfl

/-- Adding an element does not change the number of another one. -/
theorem get?_push {k j : TagKind} {n : Nat} {element other : Text}
    (h : table.get? k n = some element) : (table.push j other).get? k n = some element := by
  cases n with
  | zero => simp [get?] at h
  | succ n =>
    have inside : n < (table.entries k).length := by
      obtain ⟨inside, _⟩ := List.getElem?_eq_some_iff.mp h
      exact inside
    rw [get?, entries_push]
    split
    · rw [List.getElem?_append_left inside]
      exact h
    · exact h

theorem get?_pushAll {k : TagKind} {n : Nat} {element : Text}
    (h : table.get? k n = some element) : (table.pushAll hooks tags).get? k n = some element := by
  induction tags generalizing table with
  | nil => exact h
  | cons tag tags ih => exact ih (get?_push h)

end TagTable

namespace Captured

/-- The kinds and numbers that elements get in a table, one after the other. -/
def numbers (hooks : TagHooks) : TagTable → List Captured → List (TagKind × Nat)
  | _, [] => []
  | table, tag :: tags =>
    let table := table.push tag.kind (tag.element hooks)
    (tag.kind, table.count tag.kind) :: numbers hooks table tags

@[simp] theorem length_numbers (table : TagTable) (tags : List Captured) :
    (numbers hooks table tags).length = tags.length := by
  induction tags generalizing table with
  | nil => rfl
  | cons tag tags ih => simp [numbers, ih]

/-- The skeleton has placeholders in the place of the finds, and the table has their elements. -/
theorem collect_eq_weave (table : TagTable) (pieces : List (Piece Captured)) :
    collect hooks table pieces =
      (Text.weave (Text.around pieces)
          ((numbers hooks table (Text.foundValues pieces)).map fun (k, n) => k.placeholder n),
        table.pushAll hooks (Text.foundValues pieces)) := by
  induction pieces generalizing table with
  | nil => rfl
  | cons piece pieces ih =>
    cases piece with
    | plain c => simp [collect, ih]
    | found source tag => simp [collect, numbers, ih]

/-- The numbers of a kind go on from those that the table has. -/
theorem mem_numbers {k : TagKind} {n : Nat} (h : (k, n) ∈ numbers hooks table tags) :
    table.count k < n ∧ n ≤ table.count k + tags.length := by
  induction tags generalizing table with
  | nil => simp [numbers] at h
  | cons tag tags ih =>
    rw [numbers] at h
    rcases List.mem_cons.mp h with here | later
    · obtain ⟨rfl, rfl⟩ := Prod.mk.inj here
      rw [TagTable.count_push, if_pos rfl, List.length_cons]
      omega
    · obtain ⟨low, high⟩ := ih later
      rw [TagTable.count_push] at low high
      rw [List.length_cons]
      by_cases same : k = tag.kind
      · rw [if_pos same] at low high
        omega
      · rw [if_neg same] at low high
        omega

/-- Every number up to the count of a kind in the final table is given to an element. -/
theorem mem_numbers_of_le {k : TagKind} {n : Nat} (low : table.count k < n)
    (high : n ≤ (table.pushAll hooks tags).count k) : (k, n) ∈ numbers hooks table tags := by
  induction tags generalizing table with
  | nil => exact absurd high (Nat.not_le.mpr low)
  | cons tag tags ih =>
    have pushed := TagTable.count_push table tag.kind k (tag.element hooks)
    rw [TagTable.pushAll_cons] at high
    rw [numbers]
    by_cases here : (table.push tag.kind (tag.element hooks)).count k < n
    · exact List.mem_cons_of_mem _ (ih here high)
    · -- The element just pushed is the only one that raises the count to `n`.
      by_cases same : k = tag.kind
      · subst same
        rw [if_pos rfl] at pushed
        have number : n = (table.push tag.kind (tag.element hooks)).count tag.kind := by omega
        rw [number]
        exact List.mem_cons_self
      · rw [if_neg same] at pushed
        omega

theorem nodup_numbers (table : TagTable) (tags : List Captured) :
    (numbers hooks table tags).Nodup := by
  induction tags generalizing table with
  | nil => exact List.nodup_nil
  | cons tag tags ih =>
    refine List.nodup_cons.mpr ⟨fun again => ?_, ih _⟩
    exact Nat.lt_irrefl _ (mem_numbers again).1

theorem get?_numbers (table : TagTable) (tags : List Captured) :
    ((numbers hooks table tags).map fun (k, n) => (table.pushAll hooks tags).get? k n) =
      tags.map fun tag => some (tag.element hooks) := by
  induction tags generalizing table with
  | nil => rfl
  | cons tag tags ih =>
    have here := @TagTable.get?_pushAll hooks _ tags _ _ _
      (table.get?_push_self tag.kind (tag.element hooks))
    simp only [numbers, TagTable.pushAll_cons, List.map_cons, here, ih]

end Captured

end Stencil
