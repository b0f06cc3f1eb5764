import Stencil.Proofs.Text.Lines
import Stencil.Proofs.Text.Rise

/-!
# Tags and how they are nested

A tag stands between an opening bracket and the next closing one.  So a text has its tags, in order,
and what is left of it without them.  `follow` keeps the elements that are open after each tag: an
element may only be opened where it is allowed to stand, and a closing tag closes the innermost one.
A text whose tags can be followed from no open element back to none is nested (`IsNested`).

Texts that fit into each other are nested: plain texts, texts that follow each other, and an
element around a text that may stand in it (`Fits.of_not_mem`, `Fits.append`, `Fits.enclose`).
-/

namespace Stencil.Html

/-- Reads a tag and answers with what stands between its brackets. -/
def readTag : Reader Text := fun _ s =>
  match s with
  | '<' :: s => Text.splitFirst? '>' s
  | _ => none

def tags (s : Text) : List Text := Text.finds readTag s

def untagged (s : Text) : Text := Text.substitute readTag (fun _ _ => []) s

/-- The name of the element that a tag opens. -/
def nameOf (tag : Text) : Text := tag.takeWhile fun c => !isTagSpace c

/-- A text between the tag that opens an element and the tag that closes it. -/
def enclose (tag s : Text) : Text :=
  '<' :: tag ++ ['>'] ++ s ++ ('<' :: '/' :: nameOf tag ++ ['>'])

/-- Which elements may stand in which, or in none at all. -/
abbrev ContentModel := List (Option Text × Text)

/-- The elements that are open after a tag, innermost first, if it stands where it may. -/
def follow (model : ContentModel) (stack : List Text) (tag : Text) : Option (List Text) :=
  match tag, stack with
  | '/' :: _, [] => none
  | '/' :: name, innermost :: stack => if innermost = name then some stack else none
  | tag, stack =>
    if (stack.head?, nameOf tag) ∈ model then some (nameOf tag :: stack) else none

/-- Whether every closing tag of a text closes the element opened last, no element is left open, and
each element stands directly in one that it may stand in. -/
def IsNested (model : ContentModel) (s : Text) : Prop :=
  (tags s).foldlM (follow model) [] = some []
  deriving Decidable

variable {s t tag name : Text}

/-! ## Cutting a text at its tags -/

theorem scanFrom_readTag (before : Option Char) (skip : Nat) (s : Text) :
    Text.scanFrom readTag before skip s = Text.scanFrom readTag none skip s :=
  Text.scanFrom_before (fun _ _ _ => rfl) before none skip s

/-- Text without an opening bracket is passed over on the way to the first tag. -/
theorem scan_append_of_not_mem (absent : '<' ∉ s) (t : Text) :
    Text.scan readTag (s ++ t) = s.map .plain ++ Text.scan readTag t := by
  have opens (d : Char) (other : d ≠ '<') (before : Option Char) (s : Text) :
      readTag before (d :: s) = none := by
    unfold readTag
    split
    · next same => exact absurd (List.cons.inj same).1 other
    · rfl
  obtain ⟨before, passed⟩ := Text.scanFrom_pass_of_notMem opens absent t none
  rw [Text.scan, passed, scanFrom_readTag before]
  rfl

theorem scan_tag (clear : '>' ∉ tag) (t : Text) :
    Text.scan readTag ('<' :: tag ++ '>' :: t) =
      .found ('<' :: tag ++ ['>']) tag :: Text.scan readTag t := by
  have found : readTag none ('<' :: tag ++ ['>'] ++ t) = some (tag, t) :=
    Text.splitFirst?_eq_some_iff.mpr ⟨by simp, clear⟩
  obtain ⟨before, scanned⟩ := Text.scanFrom_found readTag (by simp) found
  rw [scanFrom_readTag before] at scanned
  simpa [Text.scan] using scanned

/-- Whether a text is cut at its tags in the same way whatever follows it. -/
def IsClosed (s : Text) : Prop :=
  ∀ t, Text.scan readTag (s ++ t) = Text.scan readTag s ++ Text.scan readTag t

namespace IsClosed

theorem of_not_mem (absent : '<' ∉ s) : IsClosed s := fun t => by
  have alone := scan_append_of_not_mem absent []
  rw [List.append_nil] at alone
  rw [scan_append_of_not_mem absent, alone]
  simp [Text.scan, Text.scanFrom]

theorem of_tag (clear : '>' ∉ tag) : IsClosed ('<' :: tag ++ ['>']) := fun t => by
  rw [scan_tag clear [], List.append_assoc]
  simpa [Text.scan, Text.scanFrom] using scan_tag clear t

theorem append (h : IsClosed s) (h' : IsClosed t) : IsClosed (s ++ t) := fun u => by
  rw [List.append_assoc, h, h', h, List.append_assoc]

theorem tags_append (h : IsClosed s) (t : Text) : tags (s ++ t) = tags s ++ tags t := by
  rw [tags, tags, tags, Text.finds, h, List.filterMap_append]
  rfl

theorem untagged_append (h : IsClosed s) (t : Text) :
    untagged (s ++ t) = untagged s ++ untagged t := by
  rw [untagged, untagged, untagged, Text.substitute, h, Text.ofPieces, List.flatMap_append]
  rfl

end IsClosed

theorem tags_of_not_mem (absent : '<' ∉ s) : tags s = [] := by
  have alone := scan_append_of_not_mem absent []
  rw [List.append_nil] at alone
  rw [tags, Text.finds, alone]
  simp [Text.scan, Text.scanFrom]

theorem untagged_of_not_mem (absent : '<' ∉ s) : untagged s = s := by
  have alone := scan_append_of_not_mem absent []
  rw [List.append_nil] at alone
  rw [untagged, Text.substitute, alone]
  simp [Text.scan, Text.scanFrom, Text.ofPieces, List.flatMap_map]

theorem tags_tag (clear : '>' ∉ tag) : tags ('<' :: tag ++ ['>']) = [tag] := by
  rw [tags, Text.finds, scan_tag clear]
  rfl

theorem untagged_tag (clear : '>' ∉ tag) : untagged ('<' :: tag ++ ['>']) = [] := by
  rw [untagged, Text.substitute, scan_tag clear]
  rfl

section Enclose

variable (clear : '>' ∉ tag)

include clear

theorem not_mem_closing : '>' ∉ '/' :: nameOf tag := by
  rw [List.mem_cons, not_or]
  exact ⟨by decide, fun member => clear ((List.takeWhile_prefix _).subset member)⟩

variable (inner : IsClosed s)

include inner

theorem IsClosed.enclose : IsClosed (enclose tag s) :=
  ((of_tag clear).append inner).append (.of_tag (not_mem_closing clear))

theorem tags_enclose : tags (Html.enclose tag s) = tag :: tags s ++ ['/' :: nameOf tag] := by
  rw [Html.enclose, List.append_assoc, (IsClosed.of_tag clear).tags_append, inner.tags_append,
    tags_tag clear, tags_tag (not_mem_closing clear)]
  rfl

theorem untagged_enclose : untagged (Html.enclose tag s) = untagged s := by
  rw [Html.enclose, List.append_assoc, (IsClosed.of_tag clear).untagged_append,
    inner.untagged_append, untagged_tag clear, untagged_tag (not_mem_closing clear),
    List.append_nil, List.nil_append]

end Enclose

/-! ## Texts that fit -/

/-- Whether a text is nested by itself wherever one of some elements is the innermost open one. -/
structure Fits (model : ContentModel) (parents : List (Option Text)) (s : Text) : Prop where
  closed : IsClosed s
  nested : ∀ stack, stack.head? ∈ parents → (tags s).foldlM (follow model) stack = some stack

namespace Fits

variable {model : ContentModel} {parents parents' : List (Option Text)}

theorem isNested (h : Fits model parents s) (top : none ∈ parents) : IsNested model s :=
  h.nested [] top

theorem mono (h : Fits model parents s) (fewer : parents' ⊆ parents) : Fits model parents' s :=
  ⟨h.closed, fun stack inside => h.nested stack (fewer inside)⟩

theorem of_not_mem (absent : '<' ∉ s) : Fits model parents s where
  closed := .of_not_mem absent
  nested stack _ := by rw [tags_of_not_mem absent]; rfl

theorem nil : Fits model parents [] := of_not_mem List.not_mem_nil

theorem append (h : Fits model parents s) (h' : Fits model parents t) :
    Fits model parents (s ++ t) where
  closed := h.closed.append h'.closed
  nested stack inside := by
    rw [h.closed.tags_append, List.foldlM_append, h.nested stack inside]
    exact h'.nested stack inside

theorem flatten {parts : List Text} (h : ∀ part ∈ parts, Fits model parents part) :
    Fits model parents parts.flatten := by
  induction parts with
  | nil => exact nil
  | cons part parts ih =>
    obtain ⟨here, later⟩ := List.forall_mem_cons.mp h
    exact here.append (ih later)

theorem flatMap {α : Type} {items : List α} {html : α → Text}
    (h : ∀ item ∈ items, Fits model parents (html item)) :
    Fits model parents (items.flatMap html) := by
  rw [List.flatMap_def]
  exact flatten (List.forall_mem_map.mpr h)

/-- An element fits where it may stand, if what stands in it fits there. -/
theorem enclose (clear : '>' ∉ tag) (opens : tag.head? ≠ some '/')
    (allowed : ∀ parent ∈ parents, (parent, nameOf tag) ∈ model)
    (inner : Fits model [some (nameOf tag)] s) : Fits model parents (enclose tag s) := by
  refine ⟨inner.closed.enclose clear, fun stack inside => ?_⟩
  have first : follow model stack tag = some (nameOf tag :: stack) := by
    unfold follow
    split
    · exact absurd rfl opens
    · exact absurd rfl opens
    · exact if_pos (allowed _ inside)
  have last : follow model (nameOf tag :: stack) ('/' :: nameOf tag) = some stack := if_pos rfl
  rw [tags_enclose clear inner.closed, List.cons_append, List.foldlM_cons, first,
    Option.bind_eq_bind, Option.bind_some, List.foldlM_append, inner.nested _ (by simp)]
  simp [last]

end Fits

end Stencil.Html
