import Stencil.Proofs.Block.Layout
import Stencil.Proofs.Block.Rise
import Stencil.Proofs.Block.TableRows

/-!
# What becomes of tables

The tables of a text without brackets leave every other line as it stands, and each is one line with
one table in it (`tables_layout`).  Which lines make up a table is said by a layout of the lines.
What the table holds is read off its tags: row by row the cells, each with the text behind its tag
(`Reading`), and that is the grid of the cells that the lines have between bars.

A second run finds no two rows that follow each other: tables begin with a bracket, and the lines
between them are as they were.
-/

namespace Stencil

namespace Table

open Html

variable {line cell s t : Text} {lines rows : List Text} {row : List Text}

/-! ## Where the tables are -/

/-- Rows make a table if there are two of them. -/
def rule : BlockRule := ⟨isRow, false, attributeLine?⟩

def written : Passage → Text
  | .single line => line
  | .block above rows => html (rule.attributesOf above) rows

/-- The compiled lines are the passages of the rule, each as it is written. -/
theorem exists_cuts (lines : List Text) :
    ∃ passages, rule.Cuts lines passages ∧ compileLines lines = passages.map written := by
  fun_induction compileLines lines with
  | case1 => exact ⟨[], .nil, rfl⟩
  | case2 line rest rows after found ih =>
    obtain ⟨passages, cuts, compiled⟩ := ih
    exact ⟨_, .block found cuts, by rw [compiled]; rfl⟩
  | case3 line rest none attributes rows after found above ih =>
    obtain ⟨passages, cuts, compiled⟩ := ih
    refine ⟨_, .headed none (Option.isSome_of_eq_some above) found cuts, ?_⟩
    rw [compiled, List.map_cons, written, BlockRule.attributesOf_some above]
  | case4 line rest none other ih =>
    obtain ⟨passages, cuts, compiled⟩ := ih
    refine ⟨_, .single none ?_ cuts, by rw [compiled]; rfl⟩
    -- The line stays if it gives no attributes, or if there is no table for them.
    cases above : attributeLine? line with
    | none => exact .inl above
    | some attributes =>
      cases found : split? rest with
      | none => exact .inr found
      | some split => exact (other attributes split.1 split.2 above found).elim

/-- A row gives no attributes. -/
theorem disjoint_rule : rule.Disjoint := by
  intro line row
  obtain ⟨rest, begins⟩ := exists_trim_eq_cons row
  show attributeLine? line = none
  rw [attributeLine?, begins]
  rfl

/-- The tag of a table ends at the first closing bracket, be it one of its attributes. -/
theorem exists_html_eq_enclose (above : Option Text) (line : Text) (lines : List Text) :
    ∃ tag back, '>' ∉ tag ∧ nameOf tag = "table" ∧
      (∀ c ∈ back, c ∈ rule.attributesOf above ∨ c = '>') ∧
      html (rule.attributesOf above) (line :: lines) =
        enclose tag (back ++ rowsHtml (cells line) (body (lines.map cells))) := by
  obtain ⟨front, back, split, clear⟩ :=
    List.eq_append_cons_of_mem (show '>' ∈ rule.attributesOf above ++ ['>'] by simp)
  have named : nameOf ("table" ++ front) = "table" := by
    cases front with
    | nil => rfl
    | cons c front =>
      obtain none | ⟨-, -, attributes, -, some⟩ := rule.eq_nil_or_exists_attributesOf above
      · rw [none] at split
        simp at split
      · rw [some] at split
        obtain rfl : ' ' = c := (List.cons.inj split).1
        rfl
  refine ⟨"table" ++ front, back, ?_, named, fun c member => ?_, ?_⟩
  · rw [List.mem_append, not_or]
    exact ⟨by decide, clear⟩
  · have inside : c ∈ rule.attributesOf above ++ ['>'] := by rw [split]; simp [member]
    simpa using inside
  · rw [html_cons, enclose, named]
    rw [List.cons_append, List.append_assoc ("table" : Text), split]
    simp

section Html

variable {above : Option Text} (plainAbove : ∀ line ∈ above, '<' ∉ line)
  (plain : ∀ line ∈ lines, '<' ∉ line)

include plainAbove plain

/-- A table is nested, and what is read in it are its rows. -/
theorem reading_html (filled : lines ≠ []) :
    IsNested tableModel (html (rule.attributesOf above) lines) ∧
      Reading.of (html (rule.attributesOf above) lines) = ⟨[], [], [], [grid lines]⟩ := by
  obtain ⟨line, lines, rfl⟩ := List.exists_cons_of_ne_nil filled
  obtain ⟨tag, back, clear, named, source, written⟩ := exists_html_eq_enclose above line lines
  obtain ⟨plainHeader, plainRows⟩ := List.forall_mem_cons.mp plain
  have header : ∀ cell ∈ cells line, '<' ∉ cell := fun cell there member =>
    plainHeader ((infix_of_mem_cells there).subset member)
  have rows : ∀ row ∈ body (lines.map cells), ∀ cell ∈ row, '<' ∉ cell := by
    intro row there cell inside member
    obtain ⟨line, below, rfl⟩ := List.mem_map.mp (mem_of_mem_body there)
    exact plainRows line below ((infix_of_mem_cells inside).subset member)
  have behind : '<' ∉ back := by
    intro member
    rcases source _ member with inside | same
    · exact BlockRule.not_mem_attributesOf (by decide) (fun _ _ => id) plainAbove inside
    · exact absurd same (by decide)
  have opens : tag.head? ≠ some '/' := by
    intro slash
    obtain ⟨name, rfl⟩ := List.head?_eq_some_iff.mp slash
    exact absurd (List.cons.inj named).1 (by decide)
  have other : tag ∉ cellTags := by
    intro cell
    have names : ∀ tag ∈ cellTags, nameOf tag ≠ "table" := by decide
    exact names tag cell named
  have inner := (Fits.of_not_mem behind).append (rows_fit rows header)
  rw [written]
  constructor
  · refine Fits.isNested (.enclose clear opens ?_ (named ▸ inner)) (List.mem_singleton_self none)
    rw [named]
    decide
  · rw [Reading.of, Reading.before_enclose clear inner.closed,
      Reading.before_append (.of_not_mem behind), before_rowsHtml rows header,
      Reading.before_of_not_mem behind, Reading.tagged_table named other]
    rfl

end Html

/-! ## Tables are single lines -/

theorem not_mem_enclose {tag : Text} {c : Char} (sign : c ∉ ("</>" : Text)) (clear : c ∉ tag)
    (inner : c ∉ s) : c ∉ enclose tag s := by
  have name : c ∉ nameOf tag := fun member => clear ((List.takeWhile_prefix _).subset member)
  have signs : c ≠ '<' ∧ c ≠ '/' ∧ c ≠ '>' := by simpa using sign
  simp [enclose, signs, clear, inner, name]

theorem newline_not_mem_rowOf {tag cellTag : Text} (clear : '\n' ∉ tag) (clear' : '\n' ∉ cellTag)
    (plain : ∀ cell ∈ row, '\n' ∉ cell) : '\n' ∉ rowOf tag cellTag row := by
  refine not_mem_enclose (by decide) clear fun member => ?_
  obtain ⟨cell, there, inside⟩ := List.mem_flatMap.mp member
  exact not_mem_enclose (by decide) clear' (plain cell there) inside

/-- A table is written on one line. -/
theorem newline_not_mem_html {above : Option Text} (plainAbove : ∀ line ∈ above, '\n' ∉ line)
    (plain : ∀ line ∈ lines, '\n' ∉ line) : '\n' ∉ html (rule.attributesOf above) lines := by
  cases lines with
  | nil => exact List.not_mem_nil
  | cons line lines =>
    obtain ⟨plainHeader, plainRows⟩ := List.forall_mem_cons.mp plain
    have header : '\n' ∉ rowOf "tr" "th" (cells line) :=
      newline_not_mem_rowOf (by decide) (by decide) fun cell there member =>
        plainHeader ((infix_of_mem_cells there).subset member)
    have rows (columns : Nat) : '\n' ∉ bodyHtml columns (body (lines.map cells)) := by
      intro member
      obtain ⟨row, there, inside⟩ := List.mem_flatMap.mp member
      obtain ⟨line, below, rfl⟩ := List.mem_map.mp (mem_of_mem_body there)
      rw [rowHtml_eq] at inside
      refine newline_not_mem_rowOf ?_ (by decide) (fun cell there member =>
        plainRows line below ((infix_of_mem_cells there).subset member)) inside
      unfold rowTag
      split_ifs <;> decide
    have attributes : '\n' ∉ rule.attributesOf above :=
      BlockRule.not_mem_attributesOf (by decide) (fun _ _ => id) plainAbove
    have thead : '\n' ∉ enclose "thead" (rowOf "tr" "th" (cells line)) :=
      not_mem_enclose (by decide) (by decide) header
    have tbody := not_mem_enclose (by decide) (by decide : '\n' ∉ ("tbody" : Text))
      (rows (cells line).length)
    rw [html_cons, rowsHtml]
    simp only [List.mem_append, List.mem_cons, not_or]
    exact ⟨⟨⟨⟨by decide, by decide, attributes⟩, by decide⟩, thead, tbody⟩, by decide⟩

/-- A passage as a line of the compiled text: single lines stand as they are, and a table shows its
rows. -/
def Shows : Passage → Text → Prop
  | .single line, shown => shown = line
  | .block above rows, shown =>
    ("<table" ++ rule.attributesOf above ++ ">" : Text) <+: shown ∧ IsNested tableModel shown ∧
      Reading.of shown = ⟨[], [], [], [grid rows]⟩

instance : (passage : Passage) → (shown : Text) → Decidable (Shows passage shown)
  | .single _, _ => inferInstanceAs (Decidable (_ = _))
  | .block _ _, _ => inferInstanceAs (Decidable (_ ∧ _ ∧ _))

/-- What is written for a passage shows it. -/
theorem shows_written {passage : Passage} (sound : rule.IsSound passage)
    (plain : ∀ line ∈ passage.source, '<' ∉ line) : Shows passage (written passage) := by
  cases passage with
  | single line => rfl
  | block above rows =>
    obtain ⟨plainAbove, plainRows⟩ := List.forall_mem_append.mp plain
    have filled : rows ≠ [] := List.ne_nil_of_length_pos (rule.least_pos.trans_le sound.1)
    have plainAbove : ∀ line ∈ above, '<' ∉ line := fun line there =>
      plainAbove line (by simpa using there)
    refine ⟨?_, reading_html plainAbove plainRows filled⟩
    obtain ⟨line, rows, rfl⟩ := List.exists_cons_of_ne_nil filled
    rw [written, html_cons]
    exact (List.prefix_append ('<' :: ("table" ++ rule.attributesOf above) ++ ['>']) _).trans
      (List.prefix_append _ _)

/-- No two rows follow each other where tables are compiled. -/
theorem isQuiet_written {passages : List Passage}
    (sound : ∀ passage ∈ passages, rule.IsSound passage)
    (apart : passages.IsChain rule.Apart) : IsQuiet (passages.map written) := by
  have block (above : Option Text) {rows : List Text} (sound : rule.IsSound (.block above rows)) :
      isRow (written (.block above rows)) = false := by
    obtain ⟨y, begins⟩ := bracket_of_html (rule.attributesOf above)
      (List.ne_nil_of_length_pos (rule.least_pos.trans_le sound.1))
    rw [written, begins]
    rfl
  rw [IsQuiet, List.isChain_map]
  refine apart.imp_of_mem_imp fun passage next here there parted both => ?_
  cases passage with
  | block above rows => exact absurd both.1 (by simp [block above (sound _ here)])
  | single line =>
    cases next with
    | block above rows => exact absurd both.2 (by simp [block above (sound _ there)])
    | single line' => exact (parted line rfl).1 line' rfl both

theorem newline_not_mem_written {passage : Passage} (plain : ∀ line ∈ passage.source, '\n' ∉ line) :
    '\n' ∉ written passage := by
  cases passage with
  | single line => exact plain line List.mem_cons_self
  | block above rows =>
    obtain ⟨plainAbove, plainRows⟩ := List.forall_mem_append.mp plain
    exact newline_not_mem_html (fun line there => plainAbove line (by simpa using there)) plainRows

end Table

/-- The lines of a text without brackets outside its tables stay as they are, and each table becomes
one line that shows its rows, with the attributes of the line above it; compiling the tables a
second time changes nothing.  Which lines make up a table is told by the only layout of the
lines. -/
theorem tables_layout {s : Text} (plain : '<' ∉ s) :
    (∃ passages, Table.rule.IsLayout (Text.lines s) passages ∧
        (∀ other, Table.rule.IsLayout (Text.lines s) other → other = passages) ∧
        List.Forall₂ Table.Shows passages (Text.lines (tables s))) ∧
      tables (tables s) = tables s := by
  obtain ⟨passages, cuts, compiled⟩ := Table.exists_cuts (Text.lines s)
  have layout := cuts.isLayout
  have lines : Text.lines (tables s) = passages.map Table.written := by
    rw [tables, compiled]
    refine Text.lines_ofLines (List.forall_mem_map.mpr fun passage member => ?_) ?_
    · exact Table.newline_not_mem_written fun line inside =>
        Text.not_mem_of_mem_lines (layout.mem_lines member inside)
    · exact mt List.map_eq_nil_iff.mp (layout.ne_nil (Text.lines_ne_nil s))
  refine ⟨⟨passages, layout, fun other h => h.unique Table.disjoint_rule layout, ?_⟩, ?_⟩
  · rw [lines, List.forall₂_map_right_iff, List.forall₂_same]
    refine fun passage member => Table.shows_written (layout.sound passage member) ?_
    intro line inside bracket
    have there := Text.infix_of_mem_lines (layout.mem_lines member inside)
    exact plain (there.subset bracket)
  · rw [(liftsAt_tables (tables s)).eq_self_iff, lines]
    exact Table.isQuiet_written layout.sound layout.apart

/-- A table with attributes, a row that is short and one that stands alone. -/
theorem tables_layout_page :
    let s : Text := "intro\n\x7bclass=\"grid\"\x7d\n| a | b |\n|-|:-:|\n|1\n|\n\n|x"
    '<' ∉ s ∧ (∃ passages, Table.rule.IsLayout (Text.lines s) passages ∧
        (∀ other, Table.rule.IsLayout (Text.lines s) other → other = passages) ∧
        List.Forall₂ Table.Shows passages (Text.lines (tables s))) ∧
      tables (tables s) = tables s := by
  intro s
  have plain : '<' ∉ s := by decide
  exact ⟨plain, tables_layout plain⟩

end Stencil
