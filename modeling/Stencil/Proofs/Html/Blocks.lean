import Stencil.Proofs.Html.Nesting
import Stencil.Proofs.Text.Severable

/-!
# Texts made of blocks

A text is made of blocks if an opening bracket stands in it only as part of one (`Built`).  A
character that no block has cuts such a text between blocks (`Built.cut`), so a stage that finds
parts around such characters takes the text apart and puts it together again block by block
(`Built.parts`).  What is nested, closed or known of each block is so of the text (`Built.closed`,
`Built.fits`), and its tags are those of the parts, in their order (`IsClosed.tags_ofPieces`).
-/

namespace Stencil.Html

/-- Whether a text is made of blocks and, around them, of characters that begin no tag. -/
inductive Built (block : Text → Prop) : Text → Prop where
  | nil : Built block []
  | plain {c : Char} {s : Text} (other : c ≠ '<') (rest : Built block s) : Built block (c :: s)
  | block {w s : Text} (known : block w) (rest : Built block s) : Built block (w ++ s)

variable {block block' : Text → Prop} {s t u x : Text} {c : Char}

namespace Built

theorem of_block (known : block s) : Built block s := by
  simpa using Built.block known .nil

theorem append (h : Built block s) (h' : Built block t) : Built block (s ++ t) := by
  induction h with
  | nil => exact h'
  | plain other _ ih => exact .plain other ih
  | block known _ ih =>
    rw [List.append_assoc]
    exact .block known ih

theorem of_not_mem (absent : '<' ∉ s) : Built block s := by
  induction s with
  | nil => exact .nil
  | cons c s ih =>
    rw [List.mem_cons, not_or] at absent
    exact .plain (Ne.symm absent.1) (ih absent.2)

theorem flatMap {α : Type} {items : List α} {html : α → Text}
    (h : ∀ item ∈ items, Built block (html item)) : Built block (items.flatMap html) := by
  induction items with
  | nil => exact .nil
  | cons item items ih =>
    obtain ⟨here, later⟩ := List.forall_mem_cons.mp h
    exact here.append (ih later)

/-- What is closed under putting texts together holds of a text if it does of each block. -/
theorem forall_of_append {p : Text → Prop} (plain : ∀ s, '<' ∉ s → p s)
    (appends : ∀ s t, p s → p t → p (s ++ t)) (known : ∀ w, block w → p w)
    (h : Built block s) : p s := by
  induction h with
  | nil => exact plain [] List.not_mem_nil
  | @plain c s other _ ih => exact appends [c] s (plain [c] (by simpa using other.symm)) ih
  | block here _ ih => exact appends _ _ (known _ here) ih

theorem closed (known : ∀ w, block w → IsClosed w) (h : Built block s) : IsClosed s :=
  h.forall_of_append (fun _ => .of_not_mem) (fun _ _ => .append) known

theorem fits {model : ContentModel} {parents : List (Option Text)}
    (known : ∀ w, block w → Fits model parents w) (h : Built block s) : Fits model parents s :=
  h.forall_of_append (fun _ => .of_not_mem) (fun _ _ => .append) known

/-- A character that no block has cuts a text between blocks. -/
theorem cut (apart : ∀ w, block w → c ∉ w) (h : Built block (u ++ c :: x)) :
    Built block u ∧ Built block x := by
  generalize whole : u ++ c :: x = t at h
  induction h generalizing u with
  | nil => simp at whole
  | @plain d s other rest ih =>
    cases u with
    | nil =>
      obtain ⟨rfl, rfl⟩ := List.cons.inj whole
      exact ⟨.nil, rest⟩
    | cons e u =>
      obtain ⟨rfl, behind⟩ := List.cons.inj whole
      exact (ih behind).imp_left (.plain other)
  | @block w s known rest ih =>
    obtain ⟨v, rfl, behind⟩ := Text.exists_of_append_cons (apart w known) whole
    exact (ih behind).imp_left (.block known)

variable {α : Type} {pieces : List (Piece α)}

/-- Where each find can be cut out, the texts around the finds are made of blocks, and so is what
stands in the finds. -/
theorem parts (run : Text) (inner : α → Text)
    (cuts : ∀ source value, .found source value ∈ pieces → ∀ u x,
      Built block (u ++ (source ++ x)) → Built block u ∧ Built block (inner value) ∧ Built block x)
    (h : Built block (run ++ pieces.flatMap Piece.source)) :
    Built block (run ++ (Text.parts pieces).1) ∧
      ∀ part ∈ (Text.parts pieces).2, Built block (inner part.1.2) ∧ Built block part.2 := by
  induction pieces generalizing run with
  | nil => exact ⟨h, by simp [Text.parts]⟩
  | cons piece pieces ih =>
    have later (source : Text) (value : α) (member : .found source value ∈ pieces) :=
      cuts source value (List.mem_cons_of_mem _ member)
    cases piece with
    | plain c =>
      have moved := ih (run ++ [c]) later (by simpa [Piece.source] using h)
      simpa [Text.parts] using moved
    | found source value =>
      obtain ⟨before, inside, behind⟩ := cuts source value List.mem_cons_self run _ h
      obtain ⟨next, rest⟩ := ih [] later behind
      exact ⟨by simpa [Text.parts] using before, List.forall_mem_cons.mpr ⟨⟨inside, next⟩, rest⟩⟩

end Built

/-! ## The tags of texts that are put together -/

theorem IsClosed.tags_flatMap {α : Type} {items : List α} {html : α → Text}
    (closed : ∀ item ∈ items, IsClosed (html item)) :
    tags (items.flatMap html) = items.flatMap fun item => tags (html item) := by
  induction items with
  | nil => rfl
  | cons item items ih =>
    obtain ⟨here, later⟩ := List.forall_mem_cons.mp closed
    rw [List.flatMap_cons, here.tags_append, ih later, List.flatMap_cons]

/-- The tags of a text whose finds are replaced, if the texts between them are closed. -/
theorem IsClosed.tags_ofPieces {α : Type} {pieces : List (Piece α)} (write : Text → α → Text)
    (first : IsClosed (Text.parts pieces).1)
    (others : ∀ part ∈ (Text.parts pieces).2,
      IsClosed (write part.1.1 part.1.2) ∧ IsClosed part.2) :
    tags (Text.ofPieces write pieces) = tags (Text.parts pieces).1 ++
      (Text.parts pieces).2.flatMap fun part => tags (write part.1.1 part.1.2) ++ tags part.2 := by
  have whole := IsClosed.tags_flatMap fun part member =>
    (others part member).1.append (others part member).2
  rw [Text.ofPieces_eq_parts, first.tags_append, whole]
  exact congrArg _ (List.flatMap_congr fun part member => (others part member).1.tags_append _)

end Stencil.Html
