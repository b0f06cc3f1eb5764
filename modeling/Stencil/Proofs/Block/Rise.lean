import Mathlib.Data.List.Chain
import Stencil.Proofs.Block.Tokens
import Stencil.Proofs.Text.Rise

/-!
# When nothing is left to do with lines

Headings, quotations, rules, lists, tables and paragraphs leave a text as it is exactly if no line
of it begins one; otherwise the text rises, since such a line begins with a blank or a mark and what
is written for it with a bracket.
-/

namespace Stencil

variable {s line : Text} {c : Char}

/-- Some characters and the blanks before them. -/
def isBlankOr (p : Char → Bool) (c : Char) : Bool := isBlank c || p c

/-- Where blanks are passed over, a line begins with a blank or with what follows. -/
theorem first_of_dropWhile {p : Char → Bool} {rest : Text} (h : line.dropWhile isBlank = c :: rest)
    (holds : p c = true) : ∃ d t, line = d :: t ∧ isBlankOr p d = true := by
  cases line with
  | nil => simp at h
  | cons d t =>
    refine ⟨d, t, rfl, ?_⟩
    by_cases blank : isBlank d = true
    · simp [isBlankOr, blank]
    · rw [List.dropWhile_cons_of_neg blank] at h
      obtain ⟨rfl, _⟩ := List.cons.inj h
      simp [isBlankOr, holds]

/-- A character and the white space before it. -/
def isSpaceOr (d c : Char) : Bool := isSpace c || c == d

/-- As `first_of_dropWhile`, for white space of any kind. -/
theorem first_of_trimStart {rest : Text} (h : Text.trimStart line = c :: rest) :
    ∃ d t, line = d :: t ∧ isSpaceOr c d = true := by
  cases line with
  | nil => simp [Text.trimStart] at h
  | cons d t =>
    refine ⟨d, t, rfl, ?_⟩
    by_cases space : isSpace d = true
    · simp [isSpaceOr, space]
    · rw [Text.trimStart, List.dropWhile_cons_of_neg space] at h
      obtain ⟨rfl, _⟩ := List.cons.inj h
      simp [isSpaceOr]

/-- Replacing lines one by one lets them rise if it lets each line rise that it does not leave. -/
theorem LinesRise.map {f : Text → Text} {quiet : Text → Prop} {lines : List Text}
    (leaves : ∀ line, quiet line → f line = line)
    (lifts : ∀ line, ¬quiet line → Rises line (f line)) (loud : ¬∀ line ∈ lines, quiet line) :
    LinesRise lines (lines.map f) := by
  induction lines with
  | nil => exact absurd (List.forall_mem_nil _) loud
  | cons line lines ih =>
    rw [List.map_cons]
    by_cases calm : quiet line
    · rw [leaves line calm]
      exact (ih fun rest => loud (List.forall_mem_cons.mpr ⟨calm, rest⟩)).later line
    · exact .here (lifts line calm) _ _

namespace Line

theorem liftsAt_mapLines {f : Text → Text} {quiet : Text → Prop}
    (leaves : ∀ line, quiet line → f line = line)
    (lifts : ∀ line, ¬quiet line → Rises line (f line)) (s : Text) :
    LiftsAt (mapLines f) (fun s => ∀ line ∈ Text.lines s, quiet line) s := by
  refine @liftsAt_lines s (List.map f) (fun lines => ∀ line ∈ lines, quiet line) (fun calm => ?_)
    (.map leaves lifts)
  exact (List.map_congr_left fun line member => leaves line (calm line member)).trans
    (List.map_id _)

theorem first_of_heading {heading : Nat × Text} (h : heading? line = some heading) :
    ∃ d t, line = d :: t ∧ isBlankOr (· == '#') d = true := by
  obtain ⟨some, -, behind, shape, -⟩ := heading?_eq_some h
  obtain ⟨more, level⟩ := Nat.exists_eq_succ_of_ne_zero (Nat.ne_of_gt some)
  rw [level, List.replicate_succ] at shape
  exact first_of_dropWhile shape rfl

theorem first_of_quotation {content : Text} (h : quotation? line = some content) :
    ∃ d t, line = d :: t ∧ isBlankOr (· == '>') d = true := by
  obtain ⟨behind, shape, -⟩ := quotation?_eq_some_iff.mp h
  exact first_of_dropWhile shape rfl

/-- A rule begins with one of its signs or with a blank. -/
theorem first_of_rule (h : isRule line = true) :
    ∃ d t, line = d :: t ∧ isBlankOr (['-', '*', '_'].contains ·) d = true := by
  obtain ⟨long, signs⟩ := Bool.and_eq_true_iff.mp h
  obtain ⟨sign, member, all⟩ := List.any_eq_true.mp signs
  have part := Text.dropEndWhile_prefix isBlank (line.dropWhile isBlank)
  cases rule : Text.dropEndWhile isBlank (line.dropWhile isBlank) with
  | nil => simp [rule] at long
  | cons c rest =>
    rw [rule] at all part
    obtain ⟨more, start⟩ := part
    refine first_of_dropWhile start.symm ?_
    obtain rfl : c = sign := by simpa using List.all_eq_true.mp all c List.mem_cons_self
    simpa using member

theorem liftsAt_headings (s : Text) :
    LiftsAt headings (fun s => ∀ line ∈ Text.lines s, heading? line = none) s := by
  refine liftsAt_mapLines (fun line none => by rw [none]) (fun line some => ?_) s
  obtain ⟨heading, found⟩ := Option.ne_none_iff_exists'.mp some
  obtain ⟨c, t, rfl, first⟩ := first_of_heading found
  rw [found]
  exact .of_first first (by decide)

theorem liftsAt_quotations (s : Text) :
    LiftsAt quotations (fun s => ∀ line ∈ Text.lines s, quotation? line = none) s := by
  refine liftsAt_mapLines (fun line none => by rw [none]) (fun line some => ?_) s
  obtain ⟨content, found⟩ := Option.ne_none_iff_exists'.mp some
  obtain ⟨c, t, rfl, first⟩ := first_of_quotation found
  rw [found]
  exact .of_first first (by decide)

theorem liftsAt_rules (s : Text) :
    LiftsAt rules (fun s => ∀ line ∈ Text.lines s, isRule line = false) s := by
  refine liftsAt_mapLines (fun line other => by simp [other]) (fun line rule => ?_) s
  have rule : isRule line = true := by simpa using rule
  obtain ⟨c, t, rfl, first⟩ := first_of_rule rule
  rw [if_pos rule]
  exact .of_first first (by decide)

end Line

namespace ItemList

theorem first_of_item {item : Item} (h : item? line = some item) :
    ∃ d t, line = d :: t ∧ isBlankOr (fun c => isBullet c || isDigit c) d = true := by
  obtain ⟨-, mark, behind, shape, isMark, -⟩ := item?_eq_some h
  generalize item.family = family, item.number = number at isMark
  cases isMark with
  | sign bullet => exact first_of_dropWhile shape (by simp [bullet])
  | number some all =>
    obtain ⟨d, digits, rfl⟩ := List.exists_cons_of_ne_nil some
    exact first_of_dropWhile shape (by simp [all d List.mem_cons_self])

/-- A line that begins an item rises to any list. -/
theorem rises_html {first : Item} (begins : item? line = some first) (family : Family)
    (items : List Item) (compiled : List Text) : Rises line (html family items compiled) := by
  obtain ⟨c, t, rfl, opens⟩ := first_of_item begins
  obtain ⟨y, written⟩ : ∃ y, html family items compiled = '<' :: y := by
    cases family with
    | bullet sign => exact ⟨_, rfl⟩
    | numbered =>
      unfold html
      dsimp only
      split <;> exact ⟨_, rfl⟩
  rw [written]
  exact .of_first opens (by decide)

theorem compileLines_eq_self {fuel : Nat} {lines : List Text}
    (calm : ∀ line ∈ lines, item? line = none) : compileLines fuel lines = lines := by
  induction fuel generalizing lines with
  | zero => rfl
  | succ fuel ih =>
    cases lines with
    | nil => rfl
    | cons line rest =>
      obtain ⟨here, later⟩ := List.forall_mem_cons.mp calm
      rw [compileLines, here, ih later]

theorem rises_compileLines {fuel : Nat} {lines : List Text} (enough : lines.length ≤ fuel)
    (loud : ¬∀ line ∈ lines, item? line = none) : LinesRise lines (compileLines fuel lines) := by
  induction fuel generalizing lines with
  | zero =>
    obtain rfl := List.eq_nil_of_length_eq_zero (Nat.le_zero.mp enough)
    exact absurd (List.forall_mem_nil _) loud
  | succ fuel ih =>
    cases lines with
    | nil => exact absurd (List.forall_mem_nil _) loud
    | cons line rest =>
      rw [compileLines]
      cases found : item? line with
      | none =>
        refine (ih (Nat.le_of_succ_le_succ enough) fun later => loud ?_).later line
        exact List.forall_mem_cons.mpr ⟨found, later⟩
      | some first =>
        exact .here (rises_html found _ _ _) _ _

end ItemList

theorem liftsAt_itemLists (s : Text) :
    LiftsAt itemLists (fun s => ∀ line ∈ Text.lines s, ItemList.item? line = none) s :=
  @liftsAt_lines s (fun lines => ItemList.compileLines lines.length lines)
    (fun lines => ∀ line ∈ lines, ItemList.item? line = none) ItemList.compileLines_eq_self
    (ItemList.rises_compileLines (Nat.le_refl _))

theorem first_of_attributeLine {attributes : Text} (h : attributeLine? line = some attributes) :
    ∃ d t, line = d :: t ∧ isSpaceOr '\x7b' d = true := by
  obtain ⟨inner, shape, -⟩ := attributeLine?_eq_some_iff.mp h
  obtain ⟨rest, start⟩ : Text.trim line <+: Text.trimStart line := Text.dropEndWhile_prefix _ _
  rw [shape] at start
  exact first_of_trimStart start.symm

namespace Table

/-- Whether no two of some lines in a row are rows. -/
def IsQuiet (lines : List Text) : Prop :=
  lines.IsChain fun a b => ¬(isRow a = true ∧ isRow b = true)
  deriving Decidable

theorem first_of_row (h : isRow line = true) :
    ∃ d t, line = d :: t ∧ isSpaceOr '|' d = true := by
  obtain ⟨rest, start⟩ := List.isPrefixOf_iff_prefix.mp h
  exact first_of_trimStart start.symm

/-- A table begins where two rows follow each other. -/
theorem split?_eq_none_iff {lines : List Text} :
    split? lines = none ↔
      ∀ a b rest, lines = a :: b :: rest → ¬(isRow a = true ∧ isRow b = true) := by
  unfold split?
  constructor
  · rintro none a b rest rfl ⟨first, second⟩
    simp [first, second] at none
  · intro apart
    refine if_pos ?_
    match lines with
    | [] => simp
    | [a] => exact Nat.lt_succ_of_le (List.takeWhile_sublist _).length_le
    | a :: b :: rest =>
      by_cases first : isRow a = true
      · have second : ¬isRow b = true := fun second => apart a b rest rfl ⟨first, second⟩
        simp [first, second]
      · simp [first]

theorem IsQuiet.cons_iff {rest : List Text} :
    IsQuiet (line :: rest) ↔ split? (line :: rest) = none ∧ IsQuiet rest := by
  rw [split?_eq_none_iff]
  cases rest with
  | nil => simp [IsQuiet]
  | cons next rest => simp [IsQuiet, List.isChain_cons_cons]

theorem bracket_of_html (attributes : Text) {lines : List Text} (some : lines ≠ []) :
    ∃ y, html attributes lines = '<' :: y := by
  unfold html
  split
  · rename_i none
    exact absurd none (dropSeparator_ne_nil (by simpa using some))
  · exact ⟨_, rfl⟩

theorem compileLines_eq_self {lines : List Text} (calm : IsQuiet lines) :
    compileLines lines = lines := by
  fun_induction compileLines lines with
  | case1 => rfl
  | case2 line rest rows after found =>
    rw [(IsQuiet.cons_iff.mp calm).1] at found
    simp at found
  | case3 line rest _ attributes rows after below =>
    cases rest with
    | nil => simp [split?] at below
    | cons next rest =>
      rw [(IsQuiet.cons_iff.mp (IsQuiet.cons_iff.mp calm).2).1] at below
      simp at below
  | case4 line rest _ _ ih => rw [ih (IsQuiet.cons_iff.mp calm).2]

theorem rises_compileLines {lines : List Text} (loud : ¬IsQuiet lines) :
    LinesRise lines (compileLines lines) := by
  fun_induction compileLines lines with
  | case1 => exact absurd List.isChain_nil loud
  | case2 line rest rows after found =>
    have row : isRow line = true := by
      by_contra other
      refine absurd found ?_
      rw [split?_eq_none_iff.mpr fun a b rest same both => ?_]
      · simp
      · obtain ⟨rfl, _⟩ := List.cons.inj same
        exact other both.1
    obtain ⟨c, t, rfl, first⟩ := first_of_row row
    obtain ⟨y, written⟩ := bracket_of_html [] (split?_eq_some found).2
    rw [written]
    exact .here (.of_first first (by decide)) _ _
  | case3 line rest _ attributes rows after below above =>
    obtain ⟨c, t, rfl, first⟩ := first_of_attributeLine above
    obtain ⟨y, written⟩ := bracket_of_html (blockAttributes attributes) (split?_eq_some below).2
    rw [written]
    exact .here (.of_first first (by decide)) _ _
  | case4 line rest none _ ih =>
    exact (ih fun later => loud (IsQuiet.cons_iff.mpr ⟨none, later⟩)).later line

end Table

theorem liftsAt_tables (s : Text) : LiftsAt tables (fun s => Table.IsQuiet (Text.lines s)) s :=
  @liftsAt_lines s Table.compileLines Table.IsQuiet Table.compileLines_eq_self
    Table.rises_compileLines

namespace Paragraph

/-- Whether no line begins like a text where no paragraph and no item is open. -/
def IsQuiet : (depth : Nat) → List Text → Prop
  | _, [] => True
  | depth, line :: rest =>
    (depth = 0 → startsText line = false) ∧ IsQuiet (openAfter depth line) rest

instance decidableIsQuiet : (depth : Nat) → (lines : List Text) → Decidable (IsQuiet depth lines)
  | _, [] => .isTrue trivial
  | depth, line :: rest =>
    have := decidableIsQuiet (openAfter depth line) rest
    inferInstanceAs (Decidable ((depth = 0 → startsText line = false) ∧ _))

theorem splitAt?_eq_none_iff {depth : Nat} {rest : List Text} :
    splitAt? depth (line :: rest) = none ↔ (depth = 0 → startsText line = false) := by
  unfold splitAt? split?
  by_cases outside : depth = 0
  · by_cases starts : startsText line = true
    · simp [outside, starts]
    · simp [outside, starts]
  · simp [outside]

theorem compileLines_eq_self {depth : Nat} {lines : List Text} (calm : IsQuiet depth lines) :
    compileLines depth lines = lines := by
  fun_induction compileLines depth lines with
  | case1 => rfl
  | case2 depth line rest run after found =>
    rw [splitAt?_eq_none_iff.mpr calm.1] at found
    simp at found
  | case3 depth line rest _ attributes run after below =>
    cases rest with
    | nil => simp [splitAt?, split?] at below
    | cons next rest =>
      rw [splitAt?_eq_none_iff.mpr calm.2.1] at below
      simp at below
  | case4 depth line rest _ _ ih => rw [ih calm.2]

/-- A line that begins like a text rises to a paragraph that begins with it. -/
theorem rises_html (starts : startsText line = true) (lines : List Text) :
    Rises line (html [] lines) := by
  obtain ⟨c, t, rfl⟩ : ∃ c t, line = c :: t := by
    cases line with
    | nil => simp [startsText] at starts
    | cons c t => exact ⟨c, t, rfl⟩
  obtain ⟨y, written⟩ : ∃ y, html [] lines = '<' :: 'p' :: y := ⟨_, rfl⟩
  rw [written]
  simp only [startsText, Bool.or_eq_true] at starts
  rcases starts with (word | code) | tag
  · have word : (isWord c || c == '*' || c == '_' || c == '~') = true := by simpa using word
    exact .of_first (p := fun c => isWord c || c == '*' || c == '_' || c == '~') word
      (by decide +kernel)
  · obtain rfl : c = Code.inline.opening := by simpa using code
    exact ⟨[], _, t, '<', _, rfl, rfl, by decide, .inr ⟨rfl, rfl, 'p', rfl, by decide⟩⟩
  · -- The name of the tag comes below the name of the paragraph.
    obtain ⟨tag, member, start⟩ := List.any_eq_true.mp tag
    obtain ⟨rest, split⟩ := List.isPrefixOf_iff_prefix.mp start
    have low : ∀ tag ∈ inlineTags, ∃ d more, tag = '<' :: d :: more ∧ height d < height 'p' ∧
        d ∉ standInChars ∧ isDigit d = false := by
      simp only [inlineTags, List.forall_mem_cons]
      exact ⟨⟨_, _, rfl, by decide⟩, ⟨_, _, rfl, by decide⟩, ⟨_, _, rfl, by decide⟩,
        ⟨_, _, rfl, by decide⟩, ⟨_, _, rfl, by decide⟩, List.forall_mem_nil _⟩
    obtain ⟨d, more, rfl, below, plain, noDigit⟩ := low tag member
    exact ⟨['<'], d, more ++ rest, 'p', y, split.symm, rfl, below,
      .inl ⟨plain, fun digit => absurd digit (by simp [noDigit])⟩⟩

theorem rises_compileLines {depth : Nat} {lines : List Text} (loud : ¬IsQuiet depth lines) :
    LinesRise lines (compileLines depth lines) := by
  fun_induction compileLines depth lines with
  | case1 => exact absurd trivial loud
  | case2 depth line rest run after found =>
    have starts : startsText line = true := by
      by_contra other
      rw [splitAt?_eq_none_iff.mpr fun _ => by simpa using other] at found
      simp at found
    exact .here (rises_html starts run) _ _
  | case3 depth line rest _ attributes run after below above =>
    have above : attributeLine? line = some attributes := (Option.filter_eq_some_iff.mp above).1
    obtain ⟨c, t, rfl, first⟩ := first_of_attributeLine above
    exact .here (.of_first first (by decide)) _ _
  | case4 depth line rest none _ ih =>
    exact (ih fun later => loud ⟨splitAt?_eq_none_iff.mp none, later⟩).later line

end Paragraph

theorem liftsAt_paragraphs (s : Text) :
    LiftsAt paragraphs (fun s => Paragraph.IsQuiet 0 (Text.lines s)) s :=
  @liftsAt_lines s (Paragraph.compileLines 0) (Paragraph.IsQuiet 0) Paragraph.compileLines_eq_self
    Paragraph.rises_compileLines

end Stencil
