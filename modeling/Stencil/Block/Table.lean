import Stencil.Block.AttributeLine

/-!
# Tables

Two or more lines in a row that begin with a bar are a table, with one row on each line and the
cells between bars.  The first row is the header, and a second row of dashes only sets it off.  An
attribute line directly above gives the attributes of the table.
-/

namespace Stencil

namespace Table

def isRow (line : Text) : Bool := Text.startsWith (Text.trimStart line) ['|']

def dropLastBar (s : Text) : Text := if s.getLast? = some '|' then s.dropLast else s

def cells (line : Text) : List Text :=
  let row := Text.trim line
  let row := dropLastBar ((Text.after? ['|'] row).getD row)
  (Text.splitOn '|' row).map Text.trim

/-- Whether a cell holds dashes, perhaps between colons. -/
def isDashes (cell : Text) : Bool :=
  let s := (Text.after? [':'] cell).getD cell
  let s := if s.getLast? = some ':' then s.dropLast else s
  !s.isEmpty && s.all (· == '-')

/-- Drops a second row of dashes. -/
def dropSeparator : List (List Text) → List (List Text)
  | header :: second :: rows =>
    if second.all isDashes then header :: rows else header :: second :: rows
  | rows => rows

/-- The class of a body row below a header of some columns. -/
def rowClass? (columns : Nat) (row : List Text) : Option Text :=
  if row.all List.isEmpty then some "blank"
  else if row.length < columns then some "small"
  else if columns < row.length then some "big"
  else none

def headerCellHtml (cell : Text) : Text := "<th>" ++ cell ++ "</th>"

def cellHtml (cell : Text) : Text := "<td>" ++ cell ++ "</td>"

def rowHtml (columns : Nat) (row : List Text) : Text :=
  let opening : Text :=
    match rowClass? columns row with
    | some c => "<tr class=\"" ++ c ++ "\">"
    | none => "<tr>"
  opening ++ row.flatMap cellHtml ++ "</tr>"

def html (attributes : Text) (lines : List Text) : Text :=
  match dropSeparator (lines.map cells) with
  | [] => []
  | header :: rows =>
    "<table" ++ attributes ++ "><thead><tr>" ++
      header.flatMap headerCellHtml ++ "</tr></thead><tbody>" ++
      rows.flatMap (rowHtml header.length) ++ "</tbody></table>"

/-- Splits off the rows that some lines begin with, if they make a table. -/
def split? (lines : List Text) : Option (List Text × List Text) :=
  let rows := lines.takeWhile isRow
  if rows.length < 2 then none else some (rows, lines.dropWhile isRow)

theorem length_split? {lines rows rest : List Text} (h : split? lines = some (rows, rest)) :
    rest.length + 2 ≤ lines.length := by
  simp only [split?] at h
  have hl := congrArg List.length (List.takeWhile_append_dropWhile (p := isRow) (l := lines))
  rw [List.length_append] at hl
  split at h
  · simp at h
  · simp only [Option.some.injEq, Prod.mk.injEq] at h
    rw [← h.2]
    omega

/-- Compiles the tables in some lines. -/
def compileLines (lines : List Text) : List Text :=
  match lines with
  | [] => []
  | line :: rest =>
    match _h : split? (line :: rest) with
    | some (rows, after) => html [] rows :: compileLines after
    | none =>
      match attributeLine? line, _h' : split? rest with
      | some attributes, some (rows, after) =>
        html (blockAttributes attributes) rows :: compileLines after
      | _, _ => line :: compileLines rest
termination_by lines.length
decreasing_by
  · have := length_split? _h
    simp only [List.length_cons] at *
    omega
  · have := length_split? _h'
    simp only [List.length_cons] at *
    omega
  · simp

end Table

def tables (s : Text) : Text := Text.ofLines (Table.compileLines (Text.lines s))

end Stencil
