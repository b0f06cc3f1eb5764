import Stencil.Proofs.Block.Items
import Stencil.Proofs.Html.Nesting

/-!
# Lists lose nothing

Compiling the lists of a text without brackets gives nested lists with one item for each line that
begins one, and without the tags it says what the lines said, in the same order, up to blanks and
line breaks (`itemLists_account`).

The lines of a list are those of its items with the lines below each and then those after it
(`takeItems_account`), and less indentation changes nothing of this (`said_drop`).  So the account
of what is compiled goes along the compiling, as one sum for each part that is put together.
-/

namespace Stencil

namespace ItemList

open Html

/-- Lists stand in items or outside of everything, and items in lists. -/
def listModel : ContentModel :=
  [(none, "ul"), (none, "ol"), (some "li", "ul"), (some "li", "ol"), (some "ul", "li"),
    (some "ol", "li")]

/-- What a line says: the content of the item that it begins, or all of it. -/
def said (line : Text) : Text := ((item? line).map Item.content).getD line

/-- The characters of a text that are no blanks and no line breaks. -/
def ink (s : Text) : Text := s.filter fun c => !isBlank c && c != '\n'

def itemCount (lines : List Text) : Nat := lines.countP fun line => (item? line).isSome

/-- What some lines say, up to blanks. -/
def inkOf (lines : List Text) : Text := lines.flatMap fun line => ink (said line)

variable {line s t : Text} {lines : List Text}

theorem ink_append (s t : Text) : ink (s ++ t) = ink s ++ ink t := List.filter_append s t

theorem ink_eq_nil (h : ∀ c ∈ s, isBlank c = true) : ink s = [] :=
  List.filter_eq_nil_iff.mpr fun c member => by simp [h c member]

theorem said_of_some {item : Item} (found : item? line = some item) : said line = item.content := by
  simp [said, found]

theorem said_of_none (none : item? line = none) : said line = line := by
  simp [said, none]

/-! ## Less indentation -/

section Dedent

variable {n : Nat} (blanks : n ≤ indentOf line)

include blanks

theorem dropWhile_drop : (line.drop n).dropWhile isBlank = line.dropWhile isBlank := by
  conv_rhs => rw [← List.take_append_drop n line]
  rw [List.dropWhile_append_of_pos fun c => isBlank_of_mem_take blanks]

theorem map_content_drop :
    (item? (line.drop n)).map Item.content = (item? line).map Item.content := by
  rw [map_content_item?, map_content_item?, dropWhile_drop blanks]

theorem isSome_item?_drop : (item? (line.drop n)).isSome = (item? line).isSome := by
  rw [← Option.isSome_map (f := Item.content), map_content_drop blanks, Option.isSome_map]

theorem ink_said_drop : ink (said (line.drop n)) = ink (said line) := by
  unfold said
  rw [map_content_drop blanks]
  cases (item? line).map Item.content with
  | some content => rfl
  | none =>
    conv_rhs => rw [Option.getD_none, ← List.take_append_drop n line, ink_append]
    rw [ink_eq_nil fun c => isBlank_of_mem_take blanks]
    rfl

end Dedent

/-- All lines are indented at least as far as is dropped. -/
theorem dedent_le (member : line ∈ lines) :
    ((lines.map indentOf).min?).getD 0 ≤ indentOf line :=
  List.min?_getD_le_of_mem (List.mem_map_of_mem member)

theorem itemCount_dedent (lines : List Text) : itemCount (dedent lines) = itemCount lines := by
  rw [itemCount, dedent, List.countP_map]
  refine List.countP_congr fun line member => ?_
  rw [Function.comp_apply, isSome_item?_drop (dedent_le member)]

theorem inkOf_dedent (lines : List Text) : inkOf (dedent lines) = inkOf lines := by
  rw [inkOf, dedent, List.flatMap_map]
  exact List.flatMap_congr fun line member => ink_said_drop (dedent_le member)

/-! ## The lines of a list -/

theorem itemCount_append (lines more : List Text) :
    itemCount (lines ++ more) = itemCount lines + itemCount more := List.countP_append

theorem inkOf_append (lines more : List Text) : inkOf (lines ++ more) = inkOf lines ++ inkOf more :=
  List.flatMap_append

theorem itemCount_cons (line : Text) (lines : List Text) :
    itemCount (line :: lines) = (if (item? line).isSome then 1 else 0) + itemCount lines := by
  rw [itemCount, List.countP_cons, Nat.add_comm]
  rfl

theorem inkOf_cons (line : Text) (lines : List Text) :
    inkOf (line :: lines) = ink (said line) ++ inkOf lines := rfl

/-- The lines of a list are its items, each with the lines below it, and then those behind it. -/
theorem takeItems_account (indent : Nat) (family : Family) (lines : List Text) :
    itemCount lines =
        (takeItems indent family lines).1.foldr (fun entry n => 1 + itemCount entry.2 + n) 0 +
          itemCount (takeItems indent family lines).2 ∧
      inkOf lines =
        ((takeItems indent family lines).1.flatMap fun entry =>
            ink entry.1.content ++ inkOf entry.2) ++
          inkOf (takeItems indent family lines).2 := by
  fun_induction takeItems indent family lines with
  | case1 => exact ⟨rfl, rfl⟩
  | case2 line rest none => simp
  | case3 line rest item found body items after taken ih =>
    have found := itemOf?_eq_some found
    have split : rest = body ++ rest.dropWhile (isBodyLine indent) :=
      List.takeWhile_append_dropWhile.symm
    rw [taken] at ih
    constructor
    · rw [itemCount_cons, found, split, itemCount_append, ih.1]
      simp only [Option.isSome_some, if_true, List.foldr_cons]
      omega
    · rw [inkOf_cons, said_of_some found, split, inkOf_append, ih.2]
      simp

/-! ## What is compiled -/

/-- Whether a text is nested where it stands, has some number of items, and says something up to
blanks and line breaks. -/
structure Accounts (parents : List (Option Text)) (s : Text) (items : Nat) (content : Text) :
    Prop where
  fits : Fits listModel parents s
  items : (tags s).count ("li" : Text) = items
  ink : ink (untagged s) = content

/-- Where lists may stand. -/
abbrev flow : List (Option Text) := [none, some "li"]

/-- Where items may stand. -/
abbrev inList : List (Option Text) := [some "ul", some "ol"]

namespace Accounts

variable {parents : List (Option Text)} {items items' : Nat} {content content' : Text}

theorem of_not_mem (absent : '<' ∉ s) : Accounts parents s 0 (ItemList.ink s) where
  fits := .of_not_mem absent
  items := by rw [tags_of_not_mem absent]; rfl
  ink := by rw [untagged_of_not_mem absent]

theorem append (h : Accounts parents s items content) (h' : Accounts parents t items' content') :
    Accounts parents (s ++ t) (items + items') (content ++ content') where
  fits := h.fits.append h'.fits
  items := by rw [h.fits.closed.tags_append, List.count_append, h.items, h'.items]
  ink := by rw [h.fits.closed.untagged_append, ink_append, h.ink, h'.ink]

theorem flatMap {α : Type} {entries : List α} {html : α → Text} {items : α → Nat}
    {content : α → Text}
    (h : ∀ entry ∈ entries, Accounts parents (html entry) (items entry) (content entry)) :
    Accounts parents (entries.map html).flatten (entries.foldr (fun entry n => items entry + n) 0)
      (entries.flatMap content) := by
  induction entries with
  | nil => exact of_not_mem List.not_mem_nil
  | cons entry entries ih =>
    obtain ⟨here, later⟩ := List.forall_mem_cons.mp h
    exact here.append (ih later)

/-- The account of a list is that of its items. -/
theorem list {tag : Text} (kind : tag ∈ (["ul", "ol", "ol reversed"] : List Text))
    (h : Accounts inList s items content) : Accounts flow (enclose tag s) items content := by
  have facts : ∀ tag ∈ (["ul", "ol", "ol reversed"] : List Text),
      '>' ∉ tag ∧ tag.head? ≠ some '/' ∧ some (nameOf tag) ∈ inList ∧
        (∀ parent ∈ flow, (parent, nameOf tag) ∈ listModel) ∧ tag ≠ "li" ∧
        List.count ("li" : Text) ['/' :: nameOf tag] = 0 := by decide
  obtain ⟨clear, opens, holds, stands, other, closing⟩ := facts tag kind
  have inner := h.fits.mono (List.cons_subset.mpr ⟨holds, List.nil_subset _⟩)
  refine ⟨.enclose clear opens stands inner, ?_, ?_⟩
  · rw [tags_enclose clear inner.closed, List.cons_append, List.count_cons_of_ne other,
      List.count_append, h.items, closing, Nat.add_zero]
  · rw [untagged_enclose clear inner.closed, h.ink]

/-- An item is one more than what stands in it. -/
theorem item (h : Accounts flow s items content) :
    Accounts inList (enclose "li" s) (1 + items) content := by
  have clear : '>' ∉ ("li" : Text) := by decide
  have closing : List.count ("li" : Text) ['/' :: nameOf "li"] = 0 := by decide
  have inner : Fits listModel [some (nameOf "li")] s := h.fits.mono (by decide)
  refine ⟨.enclose clear (by decide) (by decide) inner, ?_, ?_⟩
  · rw [tags_enclose clear inner.closed, List.cons_append, List.count_cons_self,
      List.count_append, h.items, closing, Nat.add_zero, Nat.add_comm]
  · rw [untagged_enclose clear inner.closed, h.ink]

theorem ofLines_cons (h : Accounts flow line items content)
    (h' : Accounts flow (Text.ofLines lines) items' content') :
    Accounts flow (Text.ofLines (line :: lines)) (items + items') (content ++ content') := by
  cases lines with
  | nil => simpa [Text.ofLines, Text.join] using h.append h'
  | cons next lines =>
    rw [Text.ofLines_cons_of_ne_nil (List.cons_ne_nil next lines)]
    have between : Accounts flow ['\n'] 0 [] := of_not_mem (by decide)
    simpa using h.append (between.append h')

end Accounts

/-- Between the content of an item and the lines below it there is a line break at most. -/
theorem exists_itemHtml_around (content : Text) (body : List Text) :
    ∃ gap, ink gap = [] ∧ '<' ∉ gap ∧
      itemHtml content body = enclose "li" (content ++ (gap ++ Text.ofLines body)) := by
  cases body with
  | nil =>
    refine ⟨[], rfl, List.not_mem_nil, ?_⟩
    rw [List.nil_append, Text.ofLines, Text.join, List.intercalate_nil, List.append_nil]
    rfl
  | cons line lines =>
    refine ⟨gap (line :: lines), ?_, ?_, ?_⟩
    · unfold gap
      split <;> rfl
    · unfold gap
      split <;> decide
    · rw [itemHtml_of_ne_nil content (List.cons_ne_nil line lines), enclose]
      simp only [List.append_assoc]
      rfl

theorem accounts_itemHtml {content : Text} (plain : '<' ∉ content) {body : List Text} {items : Nat}
    {below : Text} (h : Accounts flow (Text.ofLines body) items below) :
    Accounts inList (itemHtml content body) (1 + items) (ink content ++ below) := by
  obtain ⟨gap, noInk, noTag, around⟩ := exists_itemHtml_around content body
  have between : Accounts flow gap 0 [] := noInk ▸ .of_not_mem noTag
  rw [around]
  simpa using ((Accounts.of_not_mem plain).append (between.append h)).item

theorem accounts_html (family : Family) (entries : List Item) {compiled : List Text} {items : Nat}
    {content : Text} (h : Accounts inList compiled.flatten items content) :
    Accounts flow (html family entries compiled) items content := by
  unfold html
  split
  · exact .list (by decide : ("ul" : Text) ∈ _) h
  · dsimp only
    split
    · exact .list (by decide : ("ol reversed" : Text) ∈ _) h
    · exact .list (by decide : ("ol" : Text) ∈ _) h

theorem accounts_compiled (lines : List Text) (plain : ∀ line ∈ lines, '<' ∉ line) :
    Accounts flow (Text.ofLines (compiled lines)) (itemCount lines) (inkOf lines) := by
  induction lines using compiled_induction with
  | nil => exact .of_not_mem List.not_mem_nil
  | text line rest none ih =>
    obtain ⟨here, later⟩ := List.forall_mem_cons.mp plain
    rw [compiled_text none, itemCount_cons, none, inkOf_cons, said_of_none none]
    exact (Accounts.of_not_mem here).ofLines_cons (ih later)
  | list line rest first entries after found taken below ih =>
    have parts := forall_takeItems first.indent first.family plain
    have account := takeItems_account first.indent first.family (line :: rest)
    rw [taken] at parts account
    rw [compiled_list found taken, account.1, account.2]
    refine .ofLines_cons (accounts_html _ _ (.flatMap fun entry there => ?_)) (ih parts.1)
    obtain ⟨⟨line, noTag, begins⟩, body⟩ := parts.2 entry there
    have inner := below entry there (not_mem_dedent body)
    rw [itemCount_dedent, inkOf_dedent] at inner
    exact accounts_itemHtml (fun member => noTag ((content_suffix begins).subset member)) inner

end ItemList

open ItemList in
/-- The lists of a text without brackets come out nested, with every item directly in a list; there
are as many items as lines that begin one; and without the tags, blanks and line breaks the text
says what its lines said, in their order. -/
theorem itemLists_account {s : Text} (plain : '<' ∉ s) :
    Html.IsNested listModel (itemLists s) ∧
      (Html.tags (itemLists s)).count ("li" : Text) =
        (Text.lines s).countP (fun line => (item? line).isSome) ∧
      ink (Html.untagged (itemLists s)) = (Text.lines s).flatMap fun line => ink (said line) := by
  have lines : ∀ line ∈ Text.lines s, '<' ∉ line := fun line there member =>
    plain ((Text.infix_of_mem_lines there).subset member)
  have account := accounts_compiled (Text.lines s) lines
  exact ⟨account.fits.isNested (by decide), account.items, account.ink⟩

open ItemList in
/-- A list in a list, with a line that goes on, and lines after them. -/
theorem itemLists_account_outline :
    let s : Text := "1. top\n   - mid\n     more\n   - next\n\nend"
    '<' ∉ s ∧ Html.IsNested listModel (itemLists s) ∧
      (Html.tags (itemLists s)).count ("li" : Text) = 3 ∧
      ink (Html.untagged (itemLists s)) = "topmidmorenextend" := by
  intro s
  have plain : '<' ∉ s := by decide
  obtain ⟨nested, items, content⟩ := itemLists_account plain
  refine ⟨plain, nested, items.trans ?_, content.trans ?_⟩ <;> decide +kernel

end Stencil
