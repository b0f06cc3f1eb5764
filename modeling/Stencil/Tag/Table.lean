import Stencil.Tag.Kind

/-!
# Tag tables

A tag table holds the elements that were taken out of a template, kind by kind and in the order of
the source.  Elements of a kind are numbered from one.
-/

namespace Stencil

/-- The extracted elements of each kind, in source order. -/
structure TagTable where
  script : List Text := []
  style : List Text := []
  link : List Text := []
  metadata : List Text := []
  deriving DecidableEq, Repr

namespace TagTable

def empty : TagTable := {}

def entries (t : TagTable) : TagKind → List Text
  | .script => t.script
  | .style => t.style
  | .link => t.link
  | .metadata => t.metadata

def count (t : TagTable) (k : TagKind) : Nat := (t.entries k).length

def total (t : TagTable) : Nat := TagKind.all.foldr (fun k n => t.count k + n) 0

/-- Element `n` of a kind; there is no element zero. -/
def get? (t : TagTable) (k : TagKind) : Nat → Option Text
  | 0 => none
  | n + 1 => (t.entries k)[n]?

/-- Adds an element after those of its kind; its number is then the count of the kind. -/
def push (t : TagTable) (k : TagKind) (element : Text) : TagTable :=
  match k with
  | .script => { t with script := t.script ++ [element] }
  | .style => { t with style := t.style ++ [element] }
  | .link => { t with link := t.link ++ [element] }
  | .metadata => { t with metadata := t.metadata ++ [element] }

@[simp] theorem entries_empty (k : TagKind) : empty.entries k = [] := by cases k <;> rfl

@[simp] theorem entries_push (t : TagTable) (k j : TagKind) (element : Text) :
    (t.push k element).entries j =
      if j = k then t.entries j ++ [element] else t.entries j := by
  cases k <;> cases j <;> rfl

theorem count_push (t : TagTable) (k j : TagKind) (element : Text) :
    (t.push k element).count j = if j = k then t.count j + 1 else t.count j := by
  unfold count
  rw [entries_push]
  split <;> simp

/-- The element just added has the count of its kind as its number. -/
theorem get?_push_self (t : TagTable) (k : TagKind) (element : Text) :
    (t.push k element).get? k ((t.push k element).count k) = some element := by
  rw [count_push]
  simp [get?, count]

end TagTable

end Stencil
