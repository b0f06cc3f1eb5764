import Stencil.Block.Table
import Stencil.Proofs.Html.Nesting
import Stencil.Proofs.Text.Local
import Stencil.Proofs.Text.Lines
import Stencil.Proofs.Text.Split

/-!
# The rows of tables

A row says its cells, which stand between bars, and a second row of separators only says that the
first one is the header.  So the lines of a table say a grid: row by row a tag, and in it the cells,
each with a tag and its content.

What a table holds is read off its tags from the last to the first: text belongs to the tag before
it, cells to the tag of the row before them, and rows to the tag of the table (`Reading`).  In the
rows that are written for some lines their grid is read (`before_rowsHtml`).
-/

namespace Stencil

namespace Table

open Html

variable {line cell s t : Text} {row : List Text}

/-! ## What rows say -/

theorem exists_trim_eq_cons (row : isRow line = true) : ∃ rest, Text.trim line = '|' :: rest := by
  obtain ⟨more, start⟩ := List.isPrefixOf_iff_prefix.mp row
  have bar : '|' ∈ Text.trimStart line := start ▸ List.mem_cons_self
  have kept : '|' ∈ Text.trim line :=
    Text.mem_trim ((List.dropWhile_suffix isSpace).subset bar) (by decide)
  obtain ⟨c, rest, split⟩ := List.exists_cons_of_ne_nil (List.ne_nil_of_mem kept)
  have part : Text.trim line <+: Text.trimStart line := Text.dropEndWhile_prefix isSpace _
  rw [split, ← start] at part
  exact ⟨rest, by rw [split, (List.cons_prefix_cons.mp part).1]⟩

/-- Every cell of a row stands in its line. -/
theorem infix_of_mem_cells (member : cell ∈ cells line) : cell <:+: line := by
  obtain ⟨part, inside, rfl⟩ := List.mem_map.mp member
  have begun : (Text.after? ['|'] (Text.trim line)).getD (Text.trim line) <:+: Text.trim line := by
    cases found : Text.after? ['|'] (Text.trim line) with
    | none => exact List.infix_refl _
    | some rest =>
      conv_rhs => rw [Text.after?_eq_some found]
      exact (List.suffix_append ['|'] rest).isInfix
  have ended (s : Text) : dropLastBar s <:+: s := by
    unfold dropLastBar
    split
    · exact (List.dropLast_prefix s).isInfix
    · exact List.infix_refl s
  have part_of : part <:+: Text.join ['|'] (Text.splitOn '|' _) := Text.infix_join inside
  rw [Text.join_splitOn] at part_of
  exact (Text.trim_infix part).trans
    (part_of.trans ((ended _).trans (begun.trans (Text.trim_infix line))))

def colons : List Text := [[], [':']]

/-- Whether a cell only sets off the header: dashes, perhaps with a colon on either side. -/
def IsSeparator (cell : Text) : Prop :=
  ∃ left ∈ colons, ∃ right ∈ colons, ∃ n, cell = left ++ List.replicate (n + 1) '-' ++ right

theorem exists_colon_before (cell : Text) :
    ∃ left ∈ colons, cell = left ++ (Text.after? [':'] cell).getD cell := by
  cases found : Text.after? [':'] cell with
  | none => exact ⟨[], by decide, rfl⟩
  | some rest => exact ⟨[':'], by decide, Text.after?_eq_some found⟩

theorem exists_colon_behind (s : Text) :
    ∃ right ∈ colons, s = (if s.getLast? = some ':' then s.dropLast else s) ++ right := by
  split
  · next ends => exact ⟨[':'], by decide, (List.dropLast_append_getLast? ':' ends).symm⟩
  · exact ⟨[], by decide, (List.append_nil s).symm⟩

/-- The test for dashes accepts exactly the separators. -/
theorem isDashes_iff : isDashes cell = true ↔ IsSeparator cell := by
  unfold isDashes
  constructor
  · intro dashes
    obtain ⟨left, before, split⟩ := exists_colon_before cell
    obtain ⟨right, behind, split'⟩ := exists_colon_behind ((Text.after? [':'] cell).getD cell)
    simp only [Bool.and_eq_true, Bool.not_eq_true', List.isEmpty_eq_false_iff, List.all_eq_true,
      beq_iff_eq] at dashes
    obtain ⟨some, all⟩ := dashes
    have run := List.eq_replicate_of_mem all
    obtain ⟨n, long⟩ := Nat.exists_eq_add_one.mpr (List.length_pos_of_ne_nil some)
    rw [long] at run
    refine ⟨left, before, right, behind, n, ?_⟩
    rw [List.append_assoc, ← run, ← split', ← split]
  · rintro ⟨left, before, right, behind, n, rfl⟩
    have front (t : Text) :
        (Text.after? [':'] (left ++ '-' :: t)).getD (left ++ '-' :: t) = '-' :: t := by
      rcases List.mem_pair.mp before with rfl | rfl <;> rfl
    have back : (if (List.replicate (n + 1) '-' ++ right).getLast? = some ':' then
        (List.replicate (n + 1) '-' ++ right).dropLast else List.replicate (n + 1) '-' ++ right) =
          List.replicate (n + 1) '-' := by
      rcases List.mem_pair.mp behind with rfl | rfl
      · simp [List.getLast?_replicate]
      · simp
    rw [List.append_assoc, List.replicate_succ, List.cons_append, front, ← List.cons_append,
      ← List.replicate_succ]
    dsimp only
    rw [back]
    simp

instance (cell : Text) : Decidable (IsSeparator cell) := decidable_of_iff _ isDashes_iff

/-- The tag of a body row below a header of some columns. -/
def rowTag (columns : Nat) (row : List Text) : Text :=
  if ∀ cell ∈ row, cell = [] then "tr class=\"blank\""
  else if row.length < columns then "tr class=\"small\""
  else if columns < row.length then "tr class=\"big\""
  else "tr"

def body : List (List Text) → List (List Text)
  | [] => []
  | second :: rows => if ∀ cell ∈ second, IsSeparator cell then rows else second :: rows

/-- A row as its tag and the cells in it, each as its tag and its content. -/
def gridRow (tag cellTag : Text) (row : List Text) : Text × List (Text × Text) :=
  (tag, row.map fun cell => (cellTag, cell))

def grid (lines : List Text) : List (Text × List (Text × Text)) :=
  match lines.map cells with
  | [] => []
  | header :: rows =>
    gridRow "tr" "th" header ::
      (body rows).map fun row => gridRow (rowTag header.length row) "td" row

/-! ## Reading tables -/

def cellTags : List Text := ["th", "td"]

/-- What is read from a place on: the text up to the next tag, the cells up to the next row, each as
its tag and its content, the rows up to the next table, each as its tag and its cells, and the
tables. -/
structure Reading where
  text : Text
  cells : List (Text × Text)
  rows : List (Text × List (Text × Text))
  tables : List (List (Text × List (Text × Text)))
  deriving DecidableEq

namespace Reading

/-- What is read if a tag stands before the place. -/
def tagged (tag : Text) : Reading → Reading
  | ⟨text, cells, rows, tables⟩ =>
    if tag ∈ cellTags then ⟨[], (tag, text) :: cells, rows, tables⟩
    else if nameOf tag = "tr" then ⟨[], [], (tag, cells) :: rows, tables⟩
    else if nameOf tag = "table" then ⟨[], cells, [], rows :: tables⟩
    else ⟨[], cells, rows, tables⟩

/-- What is read if one more piece stands before the place. -/
def extend : Piece Text → Reading → Reading
  | .plain c, ⟨text, cells, rows, tables⟩ => ⟨c :: text, cells, rows, tables⟩
  | .found _ tag, reading => tagged tag reading

def before (s : Text) (reading : Reading) : Reading :=
  (Text.scan readTag s).foldr extend reading

def of (s : Text) : Reading := before s ⟨[], [], [], []⟩

section

variable {text tag : Text} {cells : List (Text × Text)} {rows : List (Text × List (Text × Text))}
  {tables : List (List (Text × List (Text × Text)))}

theorem tagged_cell (cell : tag ∈ cellTags) :
    tagged tag ⟨text, cells, rows, tables⟩ = ⟨[], (tag, text) :: cells, rows, tables⟩ :=
  if_pos cell

theorem tagged_row (other : tag ∉ cellTags) (named : nameOf tag = "tr") :
    tagged tag ⟨text, cells, rows, tables⟩ = ⟨[], [], (tag, cells) :: rows, tables⟩ := by
  rw [tagged, if_neg other, if_pos named]

theorem tagged_table (named : nameOf tag = "table") (other : tag ∉ cellTags) :
    tagged tag ⟨text, cells, rows, tables⟩ = ⟨[], cells, [], rows :: tables⟩ := by
  rw [tagged, if_neg other, if_neg (by rw [named]; decide), if_pos named]

theorem tagged_other (cell : tag ∉ cellTags) (row : nameOf tag ≠ "tr")
    (table : nameOf tag ≠ "table") :
    tagged tag ⟨text, cells, rows, tables⟩ = ⟨[], cells, rows, tables⟩ := by
  rw [tagged, if_neg cell, if_neg row, if_neg table]

theorem tagged_closing (name : Text) :
    tagged ('/' :: name) ⟨text, cells, rows, tables⟩ = ⟨[], cells, rows, tables⟩ := by
  have named : nameOf ('/' :: name) = '/' :: nameOf name := List.takeWhile_cons_of_pos rfl
  refine tagged_other (by simp [cellTags]) ?_ ?_ <;>
  · rw [named]
    simp

theorem before_append (closed : IsClosed s) (t : Text) (reading : Reading) :
    before (s ++ t) reading = before s (before t reading) := by
  rw [before, closed, List.foldr_append]
  rfl

/-- Text without a tag only extends the text before the next one. -/
theorem before_of_not_mem (absent : '<' ∉ s) :
    before s ⟨text, cells, rows, tables⟩ = ⟨s ++ text, cells, rows, tables⟩ := by
  have plain := scan_append_of_not_mem absent []
  rw [List.append_nil] at plain
  rw [before, plain, List.foldr_append, List.foldr_map]
  clear absent plain
  induction s with
  | nil => rfl
  | cons c s ih =>
    rw [List.foldr_cons, ih]
    rfl

theorem before_tag (clear : '>' ∉ tag) (reading : Reading) :
    before ('<' :: tag ++ ['>']) reading = tagged tag reading := by
  rw [before, scan_tag clear]
  rfl

theorem before_enclose (clear : '>' ∉ tag) (inner : IsClosed s) :
    before (enclose tag s) ⟨text, cells, rows, tables⟩ =
      tagged tag (before s ⟨[], cells, rows, tables⟩) := by
  rw [enclose, List.append_assoc, before_append (.of_tag clear), before_append inner,
    before_tag clear, before_tag (not_mem_closing clear), tagged_closing]

end

end Reading

/-! ## What is written of a table -/

/-- How the elements of a table may stand in each other. -/
def tableModel : ContentModel :=
  [(none, "table"), (some "table", "thead"), (some "table", "tbody"), (some "thead", "tr"),
    (some "tbody", "tr"), (some "tr", "th"), (some "tr", "td")]

def cellsHtml (tag : Text) (row : List Text) : Text := row.flatMap (enclose tag)

def rowOf (tag cellTag : Text) (row : List Text) : Text := enclose tag (cellsHtml cellTag row)

section Row

variable {tag cellTag : Text} {readCells : List (Text × Text)}
  {readRows : List (Text × List (Text × Text))} (isCell : cellTag ∈ cellTags)
  (plain : ∀ cell ∈ row, '<' ∉ cell)

include isCell plain

theorem cells_fit : Fits tableModel [some "tr"] (cellsHtml cellTag row) := by
  have facts : ∀ tag ∈ cellTags, '>' ∉ tag ∧ tag.head? ≠ some '/' ∧
      ∀ parent ∈ [some ("tr" : Text)], (parent, nameOf tag) ∈ tableModel := by decide
  obtain ⟨clear, opens, allowed⟩ := facts cellTag isCell
  exact .flatMap fun cell member => .enclose clear opens allowed (.of_not_mem (plain cell member))

/-- Cells are read as they stand in a row. -/
theorem before_cells :
    Reading.before (cellsHtml cellTag row) ⟨[], readCells, readRows, []⟩ =
      ⟨[], row.map (fun cell => (cellTag, cell)) ++ readCells, readRows, []⟩ := by
  have facts : ∀ tag ∈ cellTags, '>' ∉ tag := by decide
  have clear := facts cellTag isCell
  -- The text behind a cell is read first, so the induction takes cells off the front.
  induction row with
  | nil => rfl
  | cons cell row ih =>
    obtain ⟨here, later⟩ := List.forall_mem_cons.mp plain
    have inner := IsClosed.of_not_mem here
    rw [cellsHtml, List.flatMap_cons, Reading.before_append (inner.enclose clear), ← cellsHtml,
      ih later, Reading.before_enclose clear inner, Reading.before_of_not_mem here,
      Reading.tagged_cell isCell, List.append_nil]
    rfl

theorem before_rowOf {text : Text} (clear : '>' ∉ tag) (named : nameOf tag = "tr")
    (other : tag ∉ cellTags) :
    Reading.before (rowOf tag cellTag row) ⟨text, [], readRows, []⟩ =
      ⟨[], [], gridRow tag cellTag row :: readRows, []⟩ := by
  rw [rowOf, Reading.before_enclose clear (cells_fit isCell plain).closed,
    before_cells isCell plain, Reading.tagged_row other named, List.append_nil]
  rfl

end Row

theorem rowTag_facts (columns : Nat) (row : List Text) :
    '>' ∉ rowTag columns row ∧ (rowTag columns row).head? ≠ some '/' ∧
      nameOf (rowTag columns row) = "tr" ∧ rowTag columns row ∉ cellTags := by
  unfold rowTag
  split_ifs <;> decide

theorem rowHtml_eq (columns : Nat) (row : List Text) :
    rowHtml columns row = rowOf (rowTag columns row) "td" row := by
  have empty : row.all List.isEmpty = true ↔ ∀ cell ∈ row, cell = [] := by simp
  unfold rowHtml rowClass? rowTag
  simp only [empty]
  split_ifs <;> rfl

def bodyHtml (columns : Nat) (rows : List (List Text)) : Text := rows.flatMap (rowHtml columns)

def rowsHtml (header : List Text) (rows : List (List Text)) : Text :=
  enclose "thead" (rowOf "tr" "th" header) ++ enclose "tbody" (bodyHtml header.length rows)

section Rows

variable {header : List Text} {rows : List (List Text)}
  (plain : ∀ row ∈ rows, ∀ cell ∈ row, '<' ∉ cell)

include plain

theorem body_fits (columns : Nat) : Fits tableModel [some "tbody"] (bodyHtml columns rows) := by
  refine .flatMap fun row member => ?_
  obtain ⟨clear, opens, named, -⟩ := rowTag_facts columns row
  rw [rowHtml_eq]
  refine .enclose clear opens (by rw [named]; decide) ?_
  rw [named]
  exact cells_fit (by decide) (plain row member)

/-- The rows of a body are read one after the other, each with the tag that its length asks for. -/
theorem before_body (columns : Nat) :
    Reading.before (bodyHtml columns rows) ⟨[], [], [], []⟩ =
      ⟨[], [], rows.map (fun row => gridRow (rowTag columns row) "td" row), []⟩ := by
  induction rows with
  | nil => rfl
  | cons row rows ih =>
    obtain ⟨here, later⟩ := List.forall_mem_cons.mp plain
    obtain ⟨clear, -, named, other⟩ := rowTag_facts columns row
    have first : IsClosed (rowHtml columns row) := by
      rw [rowHtml_eq]
      exact (cells_fit (by decide) here).closed.enclose clear
    rw [bodyHtml, List.flatMap_cons, Reading.before_append first, ← bodyHtml, ih later, rowHtml_eq]
    exact before_rowOf (by decide) here clear named other

variable (plain' : ∀ cell ∈ header, '<' ∉ cell)

include plain'

theorem rows_fit : Fits tableModel [some "table"] (rowsHtml header rows) := by
  have cells : Fits tableModel [some "tr"] (cellsHtml "th" header) := cells_fit (by decide) plain'
  have headRow : Fits tableModel [some "thead"] (rowOf "tr" "th" header) :=
    .enclose (by decide) (by decide) (by decide) cells
  exact (Fits.enclose (by decide) (by decide) (by decide) headRow).append
    (.enclose (by decide) (by decide) (by decide) (body_fits plain _))

theorem before_rowsHtml :
    Reading.before (rowsHtml header rows) ⟨[], [], [], []⟩ =
      ⟨[], [], gridRow "tr" "th" header ::
        rows.map (fun row => gridRow (rowTag header.length row) "td" row), []⟩ := by
  have headRow : IsClosed (rowOf "tr" "th" header) :=
    (cells_fit (by decide) plain').closed.enclose (by decide)
  rw [rowsHtml, Reading.before_append (headRow.enclose (by decide)),
    Reading.before_enclose (by decide) (body_fits plain _).closed, before_body plain,
    Reading.tagged_other (by decide) (by decide) (by decide),
    Reading.before_enclose (by decide) headRow,
    before_rowOf (by decide) plain' (by decide) rfl (by decide),
    Reading.tagged_other (by decide) (by decide) (by decide)]

end Rows

theorem dropSeparator_cons (header : List Text) (rows : List (List Text)) :
    dropSeparator (header :: rows) = header :: body rows := by
  cases rows with
  | nil => rfl
  | cons second rows =>
    have dashes : second.all isDashes = true ↔ ∀ cell ∈ second, IsSeparator cell := by
      simp only [List.all_eq_true, isDashes_iff]
    simp only [dropSeparator, body, dashes]
    split_ifs <;> rfl

theorem mem_of_mem_body {rows : List (List Text)} (member : row ∈ body rows) : row ∈ rows := by
  unfold body at member
  split at member
  · exact member
  · split at member
    · exact List.mem_cons_of_mem _ member
    · exact member

theorem html_cons (attributes line : Text) (lines : List Text) :
    html attributes (line :: lines) =
      '<' :: ("table" ++ attributes) ++ ['>'] ++
        rowsHtml (cells line) (body (lines.map cells)) ++ "</table>" := by
  have headerCell : headerCellHtml = enclose "th" := rfl
  rw [html, List.map_cons, dropSeparator_cons, rowsHtml, rowOf, cellsHtml, ← headerCell, bodyHtml]
  simp [enclose, nameOf, isTagSpace]

end Table

end Stencil
