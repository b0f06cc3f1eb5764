import Stencil.Block.Paragraph
import Stencil.Block.Table
import Stencil.Proofs.Block.Marks
import Stencil.Proofs.Text.Token

/-!
# Tokens in lines

A token lies in one line, and every replacement of whole lines keeps it in some line: headings,
quotations, lists at any depth, tables and paragraphs.  What is dropped from lines is blanks and
marks, and a line that is dropped as a whole, such as a rule, has no token in it.
-/

namespace Stencil

variable {w s : Text}

/-- Whether a word is in one of some lines. -/
def OccursIn (w : Text) (lines : List Text) : Prop := ∃ line ∈ lines, w <:+: line

namespace OccursIn

variable {line : Text} {lines more : List Text}

theorem cons (line : Text) (h : OccursIn w lines) : OccursIn w (line :: lines) := by
  obtain ⟨found, member, inside⟩ := h
  exact ⟨found, List.mem_cons_of_mem _ member, inside⟩

theorem head (h : w <:+: line) : OccursIn w (line :: lines) := ⟨line, List.mem_cons_self, h⟩

theorem cons_iff : OccursIn w (line :: lines) ↔ w <:+: line ∨ OccursIn w lines := by
  simp [OccursIn]

theorem append_iff : OccursIn w (lines ++ more) ↔ OccursIn w lines ∨ OccursIn w more := by
  simp [OccursIn, or_and_right, exists_or]

theorem ofLines (h : OccursIn w lines) : w <:+: Text.ofLines lines := by
  obtain ⟨line, member, inside⟩ := h
  exact inside.trans (Text.infix_join member)

end OccursIn

namespace IsToken

theorem occursIn_lines (token : IsToken w) (h : w <:+: s) : OccursIn w (Text.lines s) := by
  have inLine : '\n' ∉ w := token.not_mem (by decide)
  exact Text.exists_infix_of_splitOn h token.ne_nil inLine

theorem infix_dropWhile {p : Char → Bool} (token : IsToken w) (h : w <:+: s)
    (kept : ∀ c ∈ openers, p c = false) : w <:+: s.dropWhile p :=
  Text.infix_dropWhile h fun c first => kept c (token.mem_openers_of_head c first)

theorem infix_dropEndWhile {p : Char → Bool} (token : IsToken w) (h : w <:+: s)
    (kept : ∀ c ∈ closers, p c = false) : w <:+: Text.dropEndWhile p s :=
  Text.infix_dropEndWhile h fun c last => kept c (token.mem_closers_of_getLast c last)

/-- A token does not begin among characters that no token begins with. -/
theorem infix_of_append {mark : Text} (token : IsToken w) (h : w <:+: mark ++ s)
    (others : ∀ c ∈ mark, c ∉ openers) : w <:+: s :=
  Text.infix_right h fun c first member => others c member (token.mem_openers_of_head c first)

theorem infix_of_cons {c : Char} (token : IsToken w) (other : c ∉ openers) (h : w <:+: c :: s) :
    w <:+: s :=
  @infix_of_append _ _ [c] token h (by simpa using other)

/-- A line has its tokens behind its mark. -/
theorem infix_behind {line mark behind : Text} (token : IsToken w) (h : w <:+: line)
    (shape : line.dropWhile isBlank = mark ++ behind) (others : ∀ c ∈ mark, c ∉ openers) :
    w <:+: behind :=
  token.infix_of_append (shape ▸ token.infix_dropWhile h (by decide)) others

theorem infix_dropLast {c : Char} (token : IsToken w) (h : w <:+: s) (ends : s.getLast? = some c)
    (other : c ∉ closers) : w <:+: s.dropLast := by
  rw [← List.dropLast_append_getLast? c ends] at h
  refine Text.infix_left h fun d last member => ?_
  obtain rfl := List.mem_singleton.mp member
  exact other (token.mem_closers_of_getLast d last)

/-- Dropping a character at the start keeps tokens. -/
theorem infix_after {c : Char} (token : IsToken w) (h : w <:+: s) (other : c ∉ openers) :
    w <:+: (Text.after? [c] s).getD s := by
  cases found : Text.after? [c] s with
  | none => exact h
  | some rest =>
    rw [Text.after?_eq_some found] at h
    exact token.infix_of_cons other h

theorem not_infix_nil (token : IsToken w) : ¬w <:+: [] := fun h =>
  token.ne_nil (List.eq_nil_of_infix_nil h)

end IsToken

namespace Line

theorem infix_mapLines {f : Text → Text} (token : IsToken w)
    (keeps : ∀ line, w <:+: line → w <:+: f line) (h : w <:+: s) : w <:+: mapLines f s := by
  obtain ⟨line, member, inside⟩ := token.occursIn_lines h
  exact OccursIn.ofLines ⟨f line, List.mem_map_of_mem member, keeps line inside⟩

theorem infix_heading {line content : Text} {level : Nat} (token : IsToken w) (h : w <:+: line)
    (there : heading? line = some (level, content)) : w <:+: content := by
  obtain ⟨-, -, behind, shape, -, read⟩ := heading?_eq_some there
  have unmarked := token.infix_behind h shape fun c sign => by
    obtain rfl := List.eq_of_mem_replicate sign
    decide
  have inside := token.infix_dropWhile (p := isBlank) unmarked (by decide)
  obtain ⟨-, rfl⟩ | ⟨none, -⟩ := read
  · exact token.infix_dropEndWhile inside (by decide)
  · exact absurd (none ▸ inside) token.not_infix_nil

theorem infix_headingHtml {level : Nat} {content : Text} (h : w <:+: content) :
    w <:+: headingHtml level content := by
  unfold headingHtml
  exact Text.infix_of_part h

theorem infix_headings (token : IsToken w) (h : w <:+: s) : w <:+: headings s := by
  refine infix_mapLines token (fun line h => ?_) h
  cases found : heading? line with
  | none => exact h
  | some heading => exact infix_headingHtml (infix_heading token h found)

theorem infix_quotation {line content : Text} (token : IsToken w) (h : w <:+: line)
    (there : quotation? line = some content) : w <:+: content := by
  obtain ⟨behind, shape, read⟩ := quotation?_eq_some_iff.mp there
  have unmarked := @IsToken.infix_behind w line ['>'] behind token h shape (by decide)
  have inside := token.infix_dropWhile (p := isBlank) unmarked (by decide)
  obtain ⟨-, rfl⟩ | ⟨none, -⟩ := read
  · exact inside
  · exact absurd (none ▸ inside) token.not_infix_nil

theorem infix_quotations (token : IsToken w) (h : w <:+: s) : w <:+: quotations s := by
  refine infix_mapLines token (fun line h => ?_) h
  cases found : quotation? line with
  | none => exact h
  | some content =>
    show w <:+: quotationHtml content
    unfold quotationHtml
    exact Text.infix_of_part (infix_quotation token h found)

/-- A rule has no token in it. -/
theorem isRule_eq_false {line : Text} (token : IsToken w) (h : w <:+: line) :
    isRule line = false := by
  have inside := token.infix_dropEndWhile (p := isBlank)
    (token.infix_dropWhile (p := isBlank) h (by decide)) (by decide)
  obtain ⟨c, tail, rfl⟩ := List.exists_cons_of_ne_nil token.ne_nil
  have opener := token.mem_openers_of_head c rfl
  refine Bool.eq_false_iff.mpr fun rule => ?_
  obtain ⟨sign, member, all⟩ := List.any_eq_true.mp (Bool.and_eq_true_iff.mp rule).2
  have same : c = sign := by
    simpa using List.all_eq_true.mp all c (inside.subset List.mem_cons_self)
  have noOpener : ∀ sign ∈ ['-', '*', '_'], sign ∉ IsToken.openers := by decide
  exact noOpener sign member (same ▸ opener)

theorem infix_rules (token : IsToken w) (h : w <:+: s) : w <:+: rules s := by
  refine infix_mapLines token (fun line h => ?_) h
  simpa [isRule_eq_false token h] using h

end Line

namespace ItemList

theorem infix_content {afterMark content : Text} (token : IsToken w) (h : w <:+: afterMark)
    (there : content? afterMark = some content) : w <:+: content := by
  obtain ⟨c, s, rfl, blank, rfl⟩ := content?_eq_some_iff.mp there
  have visible : ∀ c ∈ IsToken.openers, isBlank c = false := by decide
  have other : c ∉ IsToken.openers := fun opener => by simp [visible c opener] at blank
  exact token.infix_dropWhile (token.infix_of_cons other h) visible

/-- No token begins in the mark of an item. -/
theorem IsMark.not_mem_openers {family : Family} {number : Option Nat} {mark : Text}
    (isMark : IsMark family number mark) : ∀ c ∈ mark, c ∉ IsToken.openers := by
  intro c member opener
  cases isMark with
  | sign bullet =>
    have noBullet : ∀ c ∈ IsToken.openers, isBullet c = false := by decide
    obtain rfl := List.mem_singleton.mp member
    simp [noBullet c opener] at bullet
  | number some all =>
    have noDigit : ∀ c ∈ IsToken.openers, isDigit c = false := by decide
    rcases List.mem_append.mp member with digit | period
    · simpa [noDigit c opener] using all c digit
    · obtain rfl := List.mem_singleton.mp period
      exact absurd opener (by decide)

/-- The content of an item has the tokens of its line. -/
theorem infix_item {line : Text} {item : Item} (token : IsToken w) (h : w <:+: line)
    (there : item? line = some item) : w <:+: item.content := by
  obtain ⟨-, mark, behind, shape, isMark, content⟩ := item?_eq_some there
  exact infix_content token (token.infix_behind h shape isMark.not_mem_openers) content

/-- A token in lines from which a list is taken is in the content of an item, in the lines below
one, or in the lines after the list. -/
theorem occursIn_takeItems {indent : Nat} {family : Family} {lines : List Text}
    (token : IsToken w) (h : OccursIn w lines) :
    OccursIn w (takeItems indent family lines).2 ∨
      ∃ entry ∈ (takeItems indent family lines).1,
        w <:+: entry.1.content ∨ OccursIn w entry.2 := by
  fun_induction takeItems indent family lines with
  | case1 => exact .inl h
  | case2 line rest none => exact .inl h
  | case3 line rest item found body items after taken ih =>
    rw [taken] at ih
    have begins : item? line = some item := (Option.filter_eq_some_iff.mp found).1
    have later (h : OccursIn w (rest.dropWhile (isBodyLine indent))) :
        OccursIn w after ∨ ∃ entry ∈ (item, body) :: items,
          w <:+: entry.1.content ∨ OccursIn w entry.2 := by
      rcases ih h with h | ⟨entry, member, h⟩
      · exact .inl h
      · exact .inr ⟨entry, List.mem_cons_of_mem _ member, h⟩
    rcases OccursIn.cons_iff.mp h with here | h
    · exact .inr ⟨_, List.mem_cons_self, .inl (infix_item token here begins)⟩
    · rw [← List.takeWhile_append_dropWhile (p := isBodyLine indent) (l := rest)] at h
      rcases OccursIn.append_iff.mp h with h | h
      · exact .inr ⟨_, List.mem_cons_self, .inr h⟩
      · exact later h

/-- The indentation of a line is made of blanks. -/
theorem isBlank_of_mem_take {line : Text} {n : Nat} (blanks : n ≤ indentOf line) {c : Char}
    (member : c ∈ line.take n) : isBlank c = true := by
  have dropped : line.take n = (line.takeWhile isBlank).take n := by
    rw [← @List.take_append_of_le_length _ _ (line.dropWhile isBlank) _ blanks,
      List.takeWhile_append_dropWhile]
  exact List.mem_takeWhile_imp (List.mem_of_mem_take (dropped ▸ member))

theorem infix_drop {line : Text} {n : Nat} (token : IsToken w) (h : w <:+: line)
    (blanks : n ≤ indentOf line) : w <:+: line.drop n := by
  have visible : ∀ c ∈ IsToken.openers, isBlank c = false := by decide
  rw [← List.take_append_drop n line] at h
  refine token.infix_of_append h fun c member opener => ?_
  have blank := isBlank_of_mem_take blanks member
  simp [visible c opener] at blank

/-- Lines lose nothing but blanks with their common indentation. -/
theorem occursIn_dedent {lines : List Text} (token : IsToken w) (h : OccursIn w lines) :
    OccursIn w (dedent lines) := by
  obtain ⟨line, member, inside⟩ := h
  refine ⟨_, List.mem_map_of_mem member, infix_drop token inside ?_⟩
  exact List.min?_getD_le_of_mem (List.mem_map_of_mem member)

theorem infix_itemHtml {content : Text} {body : List Text}
    (h : w <:+: content ∨ OccursIn w body) : w <:+: itemHtml content body := by
  unfold itemHtml
  rcases h with h | h
  · split <;> exact Text.infix_of_part h
  · have some : ¬body.isEmpty := by
      obtain ⟨line, member, _⟩ := h
      simpa using List.ne_nil_of_mem member
    rw [if_neg some]
    exact Text.infix_of_part h.ofLines

theorem infix_html {family : Family} {items : List Item} {compiled : List Text}
    (h : OccursIn w compiled) : w <:+: html family items compiled := by
  obtain ⟨item, member, inside⟩ := h
  have h : w <:+: compiled.flatten := inside.trans (List.infix_of_mem_flatten member)
  unfold html
  split <;> exact Text.infix_of_part h

theorem occursIn_compileLines {fuel : Nat} {lines : List Text} (token : IsToken w)
    (h : OccursIn w lines) : OccursIn w (compileLines fuel lines) := by
  induction fuel generalizing lines with
  | zero => exact h
  | succ fuel ih =>
    cases lines with
    | nil => exact h
    | cons line rest =>
      rw [compileLines]
      split
      · rcases OccursIn.cons_iff.mp h with here | later
        · exact OccursIn.head here
        · exact (ih later).cons _
      · rename_i first found
        rcases @occursIn_takeItems w first.indent first.family _ token h with
          after | ⟨entry, member, inside⟩
        · exact (ih after).cons _
        · refine OccursIn.head (infix_html ⟨_, List.mem_map_of_mem member, infix_itemHtml ?_⟩)
          exact inside.imp_right fun body => ih (occursIn_dedent token body)

end ItemList

theorem infix_itemLists (token : IsToken w) (h : w <:+: s) : w <:+: itemLists s :=
  (ItemList.occursIn_compileLines token (token.occursIn_lines h)).ofLines

theorem infix_attributeLine {line attributes : Text} (token : IsToken w) (h : w <:+: line)
    (there : attributeLine? line = some attributes) : w <:+: attributes := by
  obtain ⟨inner, shape, -, rfl⟩ := attributeLine?_eq_some_iff.mp there
  have opened := token.infix_of_cons (by decide) (shape ▸ token.infix_trim h)
  have closed := token.infix_dropLast opened List.getLast?_concat (by decide)
  rw [List.dropLast_concat] at closed
  exact token.infix_trim closed

theorem infix_blockAttributes {attributes : Text} (token : IsToken w) (h : w <:+: attributes) :
    w <:+: blockAttributes attributes := by
  have some : ¬attributes.isEmpty := fun empty =>
    token.not_infix_nil (List.isEmpty_iff.mp empty ▸ h)
  rw [blockAttributes, if_neg some]
  exact h.trans (List.suffix_cons _ _).isInfix

namespace Table

theorem infix_dropLastBar (token : IsToken w) (h : w <:+: s) : w <:+: dropLastBar s := by
  unfold dropLastBar
  split <;> rename_i ends
  · exact token.infix_dropLast h ends (by decide)
  · exact h

theorem occursIn_cells {line : Text} (token : IsToken w) (h : w <:+: line) :
    OccursIn w (cells line) := by
  have bar : '|' ∉ w := token.not_mem (by decide)
  have row :=
    infix_dropLastBar token (token.infix_after (c := '|') (token.infix_trim h) (by decide))
  obtain ⟨cell, member, inside⟩ := Text.exists_infix_of_splitOn row token.ne_nil bar
  exact ⟨Text.trim cell, List.mem_map_of_mem member, token.infix_trim inside⟩

/-- A cell of dashes has no token in it. -/
theorem isDashes_eq_false {cell : Text} (token : IsToken w) (h : w <:+: cell) :
    isDashes cell = false := by
  have begun := token.infix_after (c := ':') h (by decide)
  refine Bool.eq_false_iff.mpr fun dashes => ?_
  have all := (Bool.and_eq_true_iff.mp dashes).2
  obtain ⟨c, tail, rfl⟩ := List.exists_cons_of_ne_nil token.ne_nil
  have noDash : '-' ∉ IsToken.openers := by decide
  have same {s : Text} (h : c :: tail <:+: s) (all : s.all (· == '-') = true) : c = '-' := by
    simpa using List.all_eq_true.mp all c (h.subset List.mem_cons_self)
  have opener := token.mem_openers_of_head c rfl
  split at all <;> rename_i ends
  · exact noDash (same (token.infix_dropLast begun ends (by decide)) all ▸ opener)
  · exact noDash (same begun all ▸ opener)

/-- No token is lost with a row of dashes, since a token has other characters than dashes and
colons. -/
theorem exists_row_of_dropSeparator {rows : List (List Text)} (token : IsToken w)
    (h : ∃ row ∈ rows, OccursIn w row) : ∃ row ∈ dropSeparator rows, OccursIn w row := by
  unfold dropSeparator
  split
  · rename_i header second rest
    split <;> rename_i dashes
    · obtain ⟨row, member, cell, there, inside⟩ := h
      rcases List.mem_cons.mp member with rfl | member
      · exact ⟨row, List.mem_cons_self, cell, there, inside⟩
      · rcases List.mem_cons.mp member with rfl | member
        · have dash := List.all_eq_true.mp dashes cell there
          simp [isDashes_eq_false token inside] at dash
        · exact ⟨row, List.mem_cons_of_mem _ member, cell, there, inside⟩
    · exact h
  · exact h

theorem infix_rowHtml {columns : Nat} {row : List Text} (h : OccursIn w row) :
    w <:+: rowHtml columns row := by
  obtain ⟨cell, member, inside⟩ := h
  have h : w <:+: row.flatMap cellHtml := by
    refine Text.infix_flatMap_of_mem member ?_
    unfold cellHtml
    exact Text.infix_of_part inside
  unfold rowHtml
  exact Text.infix_of_part h

/-- The header of a table is never dropped. -/
theorem dropSeparator_ne_nil {rows : List (List Text)} (some : rows ≠ []) :
    dropSeparator rows ≠ [] := by
  unfold dropSeparator
  split
  · split <;> simp
  · exact some

/-- A table has the tokens of its lines and of its attributes. -/
theorem infix_html {attributes : Text} {lines : List Text} (token : IsToken w) (some : lines ≠ [])
    (h : w <:+: attributes ∨ OccursIn w lines) : w <:+: html attributes lines := by
  unfold html
  split
  · rename_i none
    exact absurd none (dropSeparator_ne_nil (by simpa using some))
  · rename_i header rows separated
    rcases h with h | h
    · exact Text.infix_of_part h
    · obtain ⟨line, member, inside⟩ := h
      have rows' := exists_row_of_dropSeparator token
        ⟨cells line, List.mem_map_of_mem member, occursIn_cells token inside⟩
      rw [separated] at rows'
      obtain ⟨row, member, occurs⟩ := rows'
      rcases List.mem_cons.mp member with rfl | later
      · obtain ⟨cell, there, inside⟩ := occurs
        have h : w <:+: row.flatMap headerCellHtml := by
          refine Text.infix_flatMap_of_mem there ?_
          unfold headerCellHtml
          exact Text.infix_of_part inside
        exact Text.infix_of_part h
      · have h : w <:+: rows.flatMap (rowHtml header.length) :=
          Text.infix_flatMap_of_mem later (infix_rowHtml occurs)
        exact Text.infix_of_part h

theorem split?_eq_some {lines rows rest : List Text} (h : split? lines = some (rows, rest)) :
    lines = rows ++ rest ∧ rows ≠ [] := by
  unfold split? at h
  dsimp only at h
  split at h <;> rename_i few
  · simp at h
  · obtain ⟨rfl, rfl⟩ := Prod.mk.inj (Option.some.inj h)
    refine ⟨List.takeWhile_append_dropWhile.symm, fun none => few ?_⟩
    simp [none]

theorem occursIn_compileLines {lines : List Text} (token : IsToken w) (h : OccursIn w lines) :
    OccursIn w (compileLines lines) := by
  fun_induction compileLines lines with
  | case1 => exact h
  | case2 line rest rows after found ih =>
    obtain ⟨split, some⟩ := split?_eq_some found
    rw [split] at h
    rcases OccursIn.append_iff.mp h with h | h
    · exact .head (infix_html token some (.inr h))
    · exact (ih h).cons _
  | case3 line rest none attributes rows after below above ih =>
    obtain ⟨rfl, some⟩ := split?_eq_some below
    rcases OccursIn.cons_iff.mp h with h | h
    · have h := infix_blockAttributes token (infix_attributeLine token h above)
      exact .head (infix_html token some (.inl h))
    · rcases OccursIn.append_iff.mp h with h | h
      · exact .head (infix_html token some (.inr h))
      · exact (ih h).cons _
  | case4 line rest none other ih =>
    rcases OccursIn.cons_iff.mp h with h | h
    · exact .head h
    · exact (ih h).cons _

end Table

theorem infix_tables (token : IsToken w) (h : w <:+: s) : w <:+: tables s :=
  (Table.occursIn_compileLines token (token.occursIn_lines h)).ofLines

namespace Paragraph

/-- A paragraph has the tokens of its lines and of its attributes. -/
theorem infix_html {attributes : Text} {lines : List Text}
    (h : w <:+: attributes ∨ OccursIn w lines) : w <:+: html attributes lines := by
  unfold html
  rcases h with h | h
  · exact Text.infix_of_part h
  · exact Text.infix_of_part h.ofLines

/-- Splitting off a paragraph loses no line. -/
theorem splitAt?_eq_some {depth : Nat} {lines run rest : List Text}
    (h : splitAt? depth lines = some (run, rest)) : lines = run ++ rest := by
  unfold splitAt? at h
  split at h
  · unfold split? at h
    dsimp only at h
    split at h
    · simp at h
    · obtain ⟨rfl, rfl⟩ := Prod.mk.inj (Option.some.inj h)
      exact List.takeWhile_append_dropWhile.symm
  · simp at h

theorem occursIn_compileLines {depth : Nat} {lines : List Text} (token : IsToken w)
    (h : OccursIn w lines) : OccursIn w (compileLines depth lines) := by
  fun_induction compileLines depth lines with
  | case1 => exact h
  | case2 depth line rest run after found ih =>
    rw [splitAt?_eq_some found] at h
    rcases OccursIn.append_iff.mp h with h | h
    · exact .head (infix_html (.inr h))
    · exact (ih h).cons _
  | case3 depth line rest none attributes run after below above ih =>
    obtain rfl := splitAt?_eq_some below
    have above : attributeLine? line = some attributes := (Option.filter_eq_some_iff.mp above).1
    rcases OccursIn.cons_iff.mp h with h | h
    · have h := infix_blockAttributes token (infix_attributeLine token h above)
      exact .head (infix_html (.inl h))
    · rcases OccursIn.append_iff.mp h with h | h
      · exact .head (infix_html (.inr h))
      · exact (ih h).cons _
  | case4 depth line rest none other ih =>
    rcases OccursIn.cons_iff.mp h with h | h
    · exact .head h
    · exact (ih h).cons _

end Paragraph

theorem infix_paragraphs (token : IsToken w) (h : w <:+: s) : w <:+: paragraphs s :=
  (Paragraph.occursIn_compileLines token (token.occursIn_lines h)).ofLines

end Stencil
