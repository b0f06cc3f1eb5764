import Stencil.Block.Paragraph
import Stencil.Block.Table
import Stencil.Proofs.Block.Items
import Stencil.Proofs.Block.Tokens
import Stencil.Proofs.Text.Severable

/-!
# Whole lines keep stand-ins whole

Headings, quotations, rules, lists, tables and paragraphs turn intact texts into intact texts: they
cut lines at blanks and signs only, and what they write around the parts has no stand-in in it.
-/

namespace Stencil

variable {N : Numbering} {s line : Text} {lines : List Text}

theorem not_mem_standInChars_ofNat (n : Nat) : ∀ c ∈ Text.ofNat n, c ∉ standInChars :=
  fun _ member => not_mem_of_apart (by decide) (Text.isDigit_of_mem_ofNat member)

theorem Intact.attributeLine {attributes : Text} (h : Intact N line)
    (there : attributeLine? line = some attributes) : Intact N attributes := by
  obtain ⟨inner, shape, -, rfl⟩ := attributeLine?_eq_some_iff.mp there
  have trimmed := h.trim
  rw [shape, Intact.cons_iff (by decide), Intact.append_cons_iff (by decide)] at trimmed
  exact trimmed.1.trim

theorem Intact.blockAttributes {attributes : Text} (h : Intact N attributes) :
    Intact N (blockAttributes attributes) := by
  unfold Stencil.blockAttributes
  split
  · exact .nil
  · exact (Intact.cons_iff (by decide)).mpr h

namespace Line

theorem intact_mapLines {f : Text → Text} (keeps : ∀ line, Intact N line → Intact N (f line))
    (h : Intact N s) : Intact N (mapLines f s) := by
  refine .ofLines fun line member => ?_
  obtain ⟨before, inside, rfl⟩ := List.mem_map.mp member
  exact keeps before (h.lines before inside)

theorem intact_lastBlank {blanks content : Text} (blank : ∀ c ∈ blanks, isBlank c = true)
    (there : lastBlank? blanks = some content) : Intact N content := by
  obtain ⟨c, last, rfl⟩ := Option.map_eq_some_iff.mp there
  have apart : ∀ c ∈ tokenChars, isBlank c = false := by decide
  have outside := not_mem_of_apart apart (blank c (List.mem_of_getLast? last))
  exact (Intact.cons_iff outside).mpr .nil

/-- A line is intact behind its mark if no stand-in goes on behind the mark. -/
theorem intact_behind {mark behind : Text} (h : Intact N line)
    (shape : line.dropWhile isBlank = mark ++ behind)
    (ends : ∀ c ∈ mark.getLast?, c ∉ tokenChars) : Intact N behind := by
  have begun := h.dropWhile (p := isBlank) (by decide)
  rw [shape] at begun
  exact (begun.split (.of_last_apart ends)).2

theorem intact_heading {level : Nat} {content : Text} (h : Intact N line)
    (there : heading? line = some (level, content)) : Intact N content := by
  obtain ⟨-, -, behind, shape, -, read⟩ := heading?_eq_some there
  have unmarked := intact_behind h shape fun c last => by
    obtain rfl := List.eq_of_mem_replicate (List.mem_of_getLast? last)
    decide
  obtain ⟨-, rfl⟩ | ⟨-, -, last⟩ := read
  · exact (unmarked.dropWhile (by decide)).dropEndWhile (by decide)
  · exact intact_lastBlank (fun _ => List.mem_takeWhile_imp) last

theorem intact_headingHtml {level : Nat} {content : Text} (h : Intact N content) :
    Intact N (headingHtml level content) := by
  have number : Intact N (Text.ofNat level) := .of_plain (not_mem_standInChars_ofNat level)
  have opening : Intact N ("<h" ++ Text.ofNat level ++ ['>']) :=
    number.enclosed (by decide) (by decide)
  exact opening.append h
    |>.append (.of_plain (by decide)) |>.append number
    |>.append (.of_plain (by decide))

theorem intact_headings (h : Intact N s) : Intact N (headings s) := by
  refine intact_mapLines (fun line h => ?_) h
  cases found : heading? line with
  | none => exact h
  | some heading => exact intact_headingHtml (intact_heading h found)

theorem intact_quotation {content : Text} (h : Intact N line)
    (there : quotation? line = some content) : Intact N content := by
  obtain ⟨behind, shape, read⟩ := quotation?_eq_some_iff.mp there
  obtain ⟨-, rfl⟩ | ⟨-, last⟩ := read
  · exact (@intact_behind N line ['>'] behind h shape (by decide)).dropWhile (by decide)
  · exact intact_lastBlank (fun _ => List.mem_takeWhile_imp) last

theorem intact_quotations (h : Intact N s) : Intact N (quotations s) := by
  refine intact_mapLines (fun line h => ?_) h
  cases found : quotation? line with
  | none => exact h
  | some content => exact (intact_quotation h found).enclosed (by decide) (by decide)

theorem intact_rules (h : Intact N s) : Intact N (rules s) := by
  refine intact_mapLines (fun line h => ?_) h
  split
  · exact .of_plain (by decide)
  · exact h

end Line

namespace ItemList

theorem intact_content {afterMark content : Text} (h : Intact N afterMark)
    (there : content? afterMark = some content) : Intact N content := by
  have apart : ∀ c ∈ tokenChars, isBlank c = false := by decide
  obtain ⟨c, s, rfl, blank, rfl⟩ := content?_eq_some_iff.mp there
  exact ((Intact.cons_iff (not_mem_of_apart apart blank)).mp h).dropWhile apart

/-- A mark ends with a sign, or with the period after a number. -/
theorem IsMark.getLast_not_mem_tokenChars {family : Family} {number : Option Nat} {mark : Text}
    (isMark : IsMark family number mark) : ∀ c ∈ mark.getLast?, c ∉ tokenChars := by
  intro c last
  cases isMark with
  | sign bullet =>
    have apart : ∀ c ∈ tokenChars, isBullet c = false := by decide
    obtain rfl := List.mem_singleton.mp (List.mem_of_getLast? last)
    exact not_mem_of_apart apart bullet
  | number some all =>
    rw [List.getLast?_concat] at last
    obtain rfl := Option.some.inj last
    decide

theorem intact_item {item : Item} (h : Intact N line) (there : item? line = some item) :
    Intact N item.content := by
  obtain ⟨-, mark, behind, shape, isMark, content⟩ := item?_eq_some there
  exact intact_content (Line.intact_behind h shape isMark.getLast_not_mem_tokenChars) content

theorem intact_takeItems {indent : Nat} {family : Family} (h : ∀ line ∈ lines, Intact N line) :
    (∀ line ∈ (takeItems indent family lines).2, Intact N line) ∧
      ∀ entry ∈ (takeItems indent family lines).1,
        Intact N entry.1.content ∧ ∀ line ∈ entry.2, Intact N line := by
  obtain ⟨behind, entries⟩ := forall_takeItems indent family h
  refine ⟨behind, fun entry there => ?_⟩
  obtain ⟨⟨line, here, begins⟩, below⟩ := entries entry there
  exact ⟨intact_item here begins, below⟩

/-- Only blanks are dropped from lines with their common indentation. -/
theorem intact_drop {n : Nat} (h : Intact N line) (blanks : n ≤ indentOf line) :
    Intact N (line.drop n) := by
  have apart : ∀ c ∈ tokenChars, isBlank c = false := by decide
  rw [← List.take_append_drop n line] at h
  refine (h.split (.of_last_apart fun c last => not_mem_of_apart apart ?_)).2
  exact isBlank_of_mem_take blanks (List.mem_of_getLast? last)

theorem intact_dedent (h : ∀ line ∈ lines, Intact N line) :
    ∀ line ∈ dedent lines, Intact N line := by
  intro line member
  obtain ⟨before, inside, rfl⟩ := List.mem_map.mp member
  exact intact_drop (h before inside) (List.min?_getD_le_of_mem (List.mem_map_of_mem inside))

/-- An item as HTML is intact if its content and the lines below it are. -/
theorem intact_itemHtml {content : Text} {body : List Text} (h : Intact N content)
    (below : ∀ line ∈ body, Intact N line) : Intact N (itemHtml content body) := by
  unfold itemHtml
  split
  · exact h.enclosed (by decide) (by decide)
  · dsimp only
    refine .append (.append (.append (.append (.of_plain (by decide)) h) ?_) (.ofLines below))
      (.of_plain (by decide))
    split
    · exact .nil
    · exact .of_plain (by decide)

theorem intact_html {family : Family} {items : List Item} {compiled : List Text}
    (h : ∀ item ∈ compiled, Intact N item) : Intact N (html family items compiled) := by
  unfold html
  split
  · exact (Intact.flatten h).enclosed (by decide) (by decide)
  · refine (Intact.flatten h).enclosed ?_ (by decide)
    split <;> decide

theorem intact_compileLines {fuel : Nat} (h : ∀ line ∈ lines, Intact N line) :
    ∀ line ∈ compileLines fuel lines, Intact N line := by
  induction fuel generalizing lines with
  | zero => exact h
  | succ fuel ih =>
    cases lines with
    | nil => exact h
    | cons line rest =>
      rw [compileLines]
      split
      · obtain ⟨here, below⟩ := List.forall_mem_cons.mp h
        exact List.forall_mem_cons.mpr ⟨here, ih below⟩
      · rename_i first found
        obtain ⟨behind, entries⟩ := @intact_takeItems N _ first.indent first.family h
        refine List.forall_mem_cons.mpr ⟨intact_html fun item member => ?_, ih behind⟩
        obtain ⟨entry, inside, rfl⟩ := List.mem_map.mp member
        obtain ⟨content, body⟩ := entries entry inside
        exact intact_itemHtml content (ih (intact_dedent body))

end ItemList

theorem intact_itemLists (h : Intact N s) : Intact N (itemLists s) :=
  .ofLines (ItemList.intact_compileLines h.lines)

namespace Table

/-- Splitting a row at its bars breaks no stand-in, since none has a bar in it. -/
theorem intact_cells (h : Intact N line) : ∀ cell ∈ cells line, Intact N cell := by
  intro cell member
  obtain ⟨part, inside, rfl⟩ := List.mem_map.mp member
  have row :
      Intact N (dropLastBar ((Text.after? ['|'] (Text.trim line)).getD (Text.trim line))) := by
    have begun := h.trim.after (c := '|') (by decide)
    unfold dropLastBar
    split <;> rename_i ends
    · exact begun.dropLast ends (by decide)
    · exact begun
  exact (row.splitOn (by decide) part inside).trim

theorem mem_of_mem_dropSeparator {rows : List (List Text)} {row : List Text}
    (member : row ∈ dropSeparator rows) : row ∈ rows := by
  unfold dropSeparator at member
  split at member
  · split at member
    · rcases List.mem_cons.mp member with rfl | later
      · exact List.mem_cons_self
      · exact List.mem_cons_of_mem _ (List.mem_cons_of_mem _ later)
    · exact member
  · exact member

/-- The classes of rows are fixed words without characters of stand-ins. -/
theorem not_mem_standInChars_rowClass {columns : Nat} {row : List Text} {name : Text}
    (chosen : rowClass? columns row = some name) : ∀ c ∈ name, c ∉ standInChars := by
  have names : name ∈ (["blank".toList, "small".toList, "big".toList] : List Text) := by
    unfold rowClass? at chosen
    split at chosen
    · simp [← Option.some.inj chosen]
    · split at chosen
      · simp [← Option.some.inj chosen]
      · split at chosen
        · simp [← Option.some.inj chosen]
        · simp at chosen
  exact (show ∀ name ∈ (["blank".toList, "small".toList, "big".toList] : List Text),
    ∀ c ∈ name, c ∉ standInChars by decide) name names

theorem intact_rowHtml {columns : Nat} {row : List Text} (h : ∀ cell ∈ row, Intact N cell) :
    Intact N (rowHtml columns row) := by
  have cells : Intact N (row.flatMap cellHtml) :=
    .flatMap fun cell member => (h cell member).enclosed (by decide) (by decide)
  unfold rowHtml
  refine cells.enclosed ?_ (by decide)
  split <;> rename_i chosen
  · simp only [List.forall_mem_append]
    exact ⟨⟨by decide, not_mem_standInChars_rowClass chosen⟩, by decide⟩
  · decide

theorem intact_html {attributes : Text} (h : Intact N attributes)
    (rows : ∀ line ∈ lines, Intact N line) : Intact N (html attributes lines) := by
  have each : ∀ row ∈ dropSeparator (lines.map cells), ∀ cell ∈ row, Intact N cell := by
    intro row member
    obtain ⟨line, inside, rfl⟩ := List.mem_map.mp (mem_of_mem_dropSeparator member)
    exact intact_cells (rows line inside)
  unfold html
  split
  · exact .nil
  · rename_i header rest separated
    rw [separated] at each
    obtain ⟨first, others⟩ := List.forall_mem_cons.mp each
    have head : Intact N (header.flatMap headerCellHtml) :=
      .flatMap fun cell member => (first cell member).enclosed (by decide) (by decide)
    have body : Intact N (rest.flatMap (rowHtml header.length)) :=
      .flatMap fun row member => intact_rowHtml (others row member)
    exact h.enclosed (by decide) (by decide)
      |>.append head
      |>.append (.of_plain (by decide)) |>.append body
      |>.append (.of_plain (by decide))

theorem intact_compileLines (h : ∀ line ∈ lines, Intact N line) :
    ∀ line ∈ compileLines lines, Intact N line := by
  fun_induction compileLines lines with
  | case1 => exact h
  | case2 line rest rows after found ih =>
    rw [(split?_eq_some found).1, List.forall_mem_append] at h
    exact List.forall_mem_cons.mpr ⟨intact_html .nil h.1, ih h.2⟩
  | case3 line rest none attributes rows after below above ih =>
    obtain ⟨rfl, _⟩ := split?_eq_some below
    obtain ⟨here, under⟩ := List.forall_mem_cons.mp h
    rw [List.forall_mem_append] at under
    exact List.forall_mem_cons.mpr
      ⟨intact_html (here.attributeLine above).blockAttributes under.1, ih under.2⟩
  | case4 line rest none other ih =>
    obtain ⟨here, under⟩ := List.forall_mem_cons.mp h
    exact List.forall_mem_cons.mpr ⟨here, ih under⟩

end Table

theorem intact_tables (h : Intact N s) : Intact N (tables s) :=
  .ofLines (Table.intact_compileLines h.lines)

namespace Paragraph

theorem intact_html {attributes : Text} (h : Intact N attributes)
    (run : ∀ line ∈ lines, Intact N line) : Intact N (html attributes lines) :=
  ((h.enclosed (by decide) (by decide)).append (.ofLines run)).append (.of_plain (by decide))

theorem intact_compileLines {depth : Nat} (h : ∀ line ∈ lines, Intact N line) :
    ∀ line ∈ compileLines depth lines, Intact N line := by
  fun_induction compileLines depth lines with
  | case1 => exact h
  | case2 depth line rest run after found ih =>
    rw [splitAt?_eq_some found, List.forall_mem_append] at h
    exact List.forall_mem_cons.mpr ⟨intact_html .nil h.1, ih h.2⟩
  | case3 depth line rest none attributes run after below above ih =>
    obtain rfl := splitAt?_eq_some below
    have above : attributeLine? line = some attributes := (Option.filter_eq_some_iff.mp above).1
    obtain ⟨here, under⟩ := List.forall_mem_cons.mp h
    rw [List.forall_mem_append] at under
    exact List.forall_mem_cons.mpr
      ⟨intact_html (here.attributeLine above).blockAttributes under.1, ih under.2⟩
  | case4 depth line rest none other ih =>
    obtain ⟨here, under⟩ := List.forall_mem_cons.mp h
    exact List.forall_mem_cons.mpr ⟨here, ih under⟩

end Paragraph

theorem intact_paragraphs (h : Intact N s) : Intact N (paragraphs s) :=
  .ofLines (Paragraph.intact_compileLines h.lines)

end Stencil
