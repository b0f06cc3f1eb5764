import Stencil.Proofs.Block.Rise
import Stencil.Proofs.Text.Lines
import Stencil.Template.Transform

/-!
# Texts of one line

What the stages that read whole lines make of a text of one line depends on how it begins.
Headings, quotations, rules, items and rows begin with blanks or with marks of their own
(`beginsBlock`); a line that begins otherwise stays as it is before embeds (`wholeLines_eq_self`),
and is a paragraph after them, if it begins like a text (`paragraphs_eq`).
-/

namespace Stencil

/-- Whether a line that begins with a character may be something else than text. -/
def beginsBlock (c : Char) : Bool :=
  isBlankOr (· == '#') c || isBlankOr (· == '>') c || isBlankOr (['-', '*', '_'].contains ·) c ||
    isBlankOr (fun c => ItemList.isBullet c || isDigit c) c

variable {c : Char} {t : Text}

/-- What only lines with certain first characters lack, a single line with another has. -/
theorem forall_mem_lines_of_first {p : Text → Prop} {first : Char → Bool}
    (firsts : ∀ line, ¬p line → ∃ d t, line = d :: t ∧ first d = true)
    (oneLine : '\n' ∉ c :: t) (other : first c = false) : ∀ line ∈ Text.lines (c :: t), p line := by
  rw [Text.lines_of_not_mem oneLine]
  intro line member
  obtain rfl := List.mem_singleton.mp member
  by_contra lacks
  obtain ⟨d, t, split, holds⟩ := firsts _ lacks
  obtain ⟨rfl, _⟩ := List.cons.inj split
  simp [other] at holds

section

variable (oneLine : '\n' ∉ c :: t) (plain : beginsBlock c = false)

include oneLine plain

/-- A line of text is no heading, no quotation and no rule. -/
theorem wholeLines_eq_self :
    Line.rules (Line.quotations (Line.headings (c :: t))) = c :: t := by
  simp only [beginsBlock, Bool.or_eq_false_iff] at plain
  obtain ⟨⟨⟨heading, quotation⟩, rule⟩, _⟩ := plain
  have headings := (Line.liftsAt_headings (c :: t)).eq_self
    (forall_mem_lines_of_first (fun line some => by
      obtain ⟨heading, found⟩ := Option.ne_none_iff_exists'.mp some
      exact Line.first_of_heading found) oneLine heading)
  have quotations := (Line.liftsAt_quotations (c :: t)).eq_self
    (forall_mem_lines_of_first (fun line some => by
      obtain ⟨content, found⟩ := Option.ne_none_iff_exists'.mp some
      exact Line.first_of_quotation found) oneLine quotation)
  have rules := (Line.liftsAt_rules (c :: t)).eq_self
    (forall_mem_lines_of_first (fun line rule => Line.first_of_rule (by simpa using rule)) oneLine
      rule)
  rw [headings, quotations, rules]

/-- A line of text is neither a list nor a table, but a paragraph. -/
theorem paragraphs_eq (starts : Paragraph.startsText (c :: t) = true) :
    paragraphs (tables (itemLists (c :: t))) = "<p>" ++ (c :: t) ++ "</p>" := by
  simp only [beginsBlock, Bool.or_eq_false_iff] at plain
  have listed := (liftsAt_itemLists (c :: t)).eq_self
    (forall_mem_lines_of_first (fun line some => by
      obtain ⟨item, found⟩ := Option.ne_none_iff_exists'.mp some
      exact ItemList.first_of_item found) oneLine plain.2)
  have lines := Text.lines_of_not_mem oneLine
  have tabled := (liftsAt_tables (c :: t)).eq_self (by
    rw [lines]
    exact List.isChain_singleton _)
  have split : Paragraph.splitAt? 0 [c :: t] = some ([c :: t], []) := by
    simp [Paragraph.splitAt?, Paragraph.split?, starts]
  rw [listed, tabled, paragraphs, lines, Paragraph.compileLines, split]
  simp [Paragraph.compileLines, Paragraph.html, Text.ofLines, Text.join]

end

end Stencil
