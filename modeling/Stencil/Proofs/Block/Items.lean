import Stencil.Proofs.Block.Rise
import Stencil.Proofs.Text.Lines

/-!
# Lists are compiled to the end

As many steps as there are lines are enough at every depth, so that the compiled lines are a
function of the lines alone, `compiled`.  It has one rule for a line that begins no item and one for
a list, and `compiled_induction` goes along them: into the lines below each item, with less
indentation, and on to the lines after the list.

Compiling leaves no line that begins an item (`itemLists_to_the_end`).  A list begins with a
bracket, and where its parts meet, only a tag is put behind a line: a line that begins no item
begins none with a tag behind it (`item?_append_bracket`).
-/

namespace Stencil

namespace ItemList

variable {line : Text} {lines rest : List Text} {first item : Item}

/-! ## The items of a list -/

theorem itemOf?_self (found : item? line = some first) :
    itemOf? first.indent first.family line = some first := by
  simp [itemOf?, found]

theorem itemOf?_eq_some {indent : Nat} {family : Family}
    (found : itemOf? indent family line = some item) : item? line = some item :=
  (Option.filter_eq_some_iff.mp found).1

/-- The lines of an item and the lines after a list are fewer than all lines. -/
theorem length_takeItems (indent : Nat) (family : Family) (lines : List Text) :
    (takeItems indent family lines).2.length ≤ lines.length ∧
      ∀ entry ∈ (takeItems indent family lines).1, entry.2.length < lines.length := by
  fun_induction takeItems indent family lines with
  | case1 => simp
  | case2 line rest none => simp
  | case3 line rest item found body items after taken ih =>
    rw [taken] at ih
    have here := (List.takeWhile_sublist (isBodyLine indent) (l := rest)).length_le
    have later := (List.dropWhile_sublist (isBodyLine indent) (l := rest)).length_le
    refine ⟨?_, List.forall_mem_cons.mpr ⟨?_, fun entry member => ?_⟩⟩
    · rw [List.length_cons]
      exact Nat.le_succ_of_le (ih.1.trans later)
    · exact Nat.lt_succ_of_le here
    · rw [List.length_cons]
      exact Nat.lt_succ_of_lt (Nat.lt_of_lt_of_le (ih.2 entry member) later)

/-- The lines after a list are fewer than those of the list and behind it. -/
theorem length_after_takeItems (found : item? line = some first) :
    (takeItems first.indent first.family (line :: rest)).2.length < (line :: rest).length := by
  rw [takeItems, itemOf?_self found]
  have later := (List.dropWhile_sublist (isBodyLine first.indent) (l := rest)).length_le
  exact Nat.lt_succ_of_le ((length_takeItems _ _ _).1.trans later)

@[simp] theorem length_dedent (lines : List Text) : (dedent lines).length = lines.length := by
  simp [dedent]

/-! ## Steps enough -/

/-- The fuel does not matter once there is a step for every line: each list takes up the line that
it begins with. -/
theorem compileLines_eq_of_enough {fuel fuel' : Nat} (enough : lines.length ≤ fuel)
    (enough' : lines.length ≤ fuel') : compileLines fuel lines = compileLines fuel' lines := by
  induction fuel generalizing lines fuel' with
  | zero =>
    obtain rfl := List.eq_nil_of_length_eq_zero (Nat.le_zero.mp enough)
    cases fuel' <;> rfl
  | succ fuel ih =>
    cases lines with
    | nil => cases fuel' <;> rfl
    | cons line rest =>
      obtain ⟨fuel', rfl⟩ := Nat.exists_eq_add_of_le' (Nat.lt_of_lt_of_le (Nat.succ_pos _) enough')
      have shorter {lines : List Text} (fewer : lines.length < (line :: rest).length) :
          compileLines fuel lines = compileLines fuel' lines :=
        ih (Nat.le_of_lt_succ (Nat.lt_of_lt_of_le fewer enough))
          (Nat.le_of_lt_succ (Nat.lt_of_lt_of_le fewer enough'))
      rw [compileLines, compileLines]
      cases found : item? line with
      | none => exact congrArg (line :: ·) (shorter (Nat.lt_succ_self _))
      | some first =>
        have bodies : ∀ entry ∈ (takeItems first.indent first.family (line :: rest)).1,
            compileLines fuel (dedent entry.2) = compileLines fuel' (dedent entry.2) := by
          intro entry member
          refine shorter ?_
          rw [length_dedent]
          exact (length_takeItems _ _ _).2 entry member
        have after := shorter (length_after_takeItems found)
        dsimp only
        rw [after]
        refine congrArg (html _ _ · :: _) (List.map_congr_left fun entry member => ?_)
        rw [bodies entry member]

def compiled (lines : List Text) : List Text := compileLines lines.length lines

theorem compiled_nil : compiled [] = [] := rfl

theorem compiled_text (none : item? line = none) :
    compiled (line :: rest) = line :: compiled rest := by
  rw [compiled, List.length_cons, compileLines, none, compiled]

def entryHtml (entry : Item × List Text) : Text :=
  itemHtml entry.1.content (compiled (dedent entry.2))

/-- Lines that begin with a list are compiled as the list, entry by entry, and then the lines after
it. -/
theorem compiled_list (found : item? line = some first) {entries : List (Item × List Text)}
    {after : List Text}
    (taken : takeItems first.indent first.family (line :: rest) = (entries, after)) :
    compiled (line :: rest) =
      html first.family (entries.map Prod.fst) (entries.map entryHtml) :: compiled after := by
  have lengths := length_takeItems first.indent first.family (line :: rest)
  have fewer := @length_after_takeItems _ rest _ found
  rw [compiled, List.length_cons, compileLines, found]
  rw [taken] at lengths fewer
  dsimp only
  rw [taken]
  dsimp only
  congr 1
  · refine congrArg (html _ _) (List.map_congr_left fun entry member => ?_)
    rw [entryHtml, compiled, compileLines_eq_of_enough _ (Nat.le_refl _)]
    rw [length_dedent]
    exact Nat.le_of_lt_succ (lengths.2 entry member)
  · exact compileLines_eq_of_enough (Nat.le_of_lt_succ fewer) (Nat.le_refl _)

/-- What holds of no lines, and of lines of which the first begins no item if it holds of the
others, and of a list and what comes after if it holds of the lines below each item and of those
after the list, holds of all lines. -/
theorem compiled_induction {motive : List Text → Prop} (nil : motive [])
    (text : ∀ line rest, item? line = none → motive rest → motive (line :: rest))
    (list : ∀ line rest first entries after, item? line = some first →
      takeItems first.indent first.family (line :: rest) = (entries, after) →
      (∀ entry ∈ entries, motive (dedent entry.2)) → motive after → motive (line :: rest))
    (lines : List Text) : motive lines := by
  induction enough : lines.length using Nat.strong_induction_on generalizing lines with
  | h n ih =>
    subst enough
    cases lines with
    | nil => exact nil
    | cons line rest =>
      cases found : item? line with
      | none => exact text line rest found (ih rest.length (Nat.lt_succ_self _) rest rfl)
      | some first =>
        have lengths := length_takeItems first.indent first.family (line :: rest)
        refine list line rest first _ _ found rfl (fun entry member => ?_) ?_
        · exact ih _ (by rw [length_dedent]; exact lengths.2 entry member) _ rfl
        · exact ih _ (length_after_takeItems found) _ rfl

/-! ## Where lines meet -/

def afterMark? (s : Text) : Option Text :=
  match s with
  | [] => none
  | c :: rest =>
    if isBullet c then some rest
    else if (s.takeWhile isDigit).isEmpty then none
    else Text.after? ['.'] (s.dropWhile isDigit)

/-- The content of an item is what follows its mark and blanks; the indentation does not matter. -/
theorem map_content_item? (line : Text) :
    (item? line).map Item.content = (afterMark? (line.dropWhile isBlank)).bind content? := by
  unfold item? afterMark?
  cases line.dropWhile isBlank with
  | nil => rfl
  | cons c s =>
    dsimp only
    split
    · rw [Option.map_map, Option.bind_some]
      exact Option.map_id_apply
    · split
      · rfl
      · cases Text.after? ['.'] ((c :: s).dropWhile isDigit) with
        | none => rfl
        | some rest =>
          rw [Option.bind_some, Option.bind_eq_bind, Option.bind_some]
          cases content? rest <;> rfl

/-- What follows a bracket has no part in the mark that a text begins with. -/
theorem afterMark?_append_bracket (s t : Text) :
    afterMark? (s ++ '<' :: t) = (afterMark? s).map (· ++ '<' :: t) := by
  cases s with
  | nil => rfl
  | cons c s =>
    have digits := @Text.takeWhile_append_cons isDigit '<' rfl (c :: s) t
    have behind := @Text.dropWhile_append_cons isDigit '<' rfl (c :: s) t
    rw [List.cons_append] at digits behind ⊢
    unfold afterMark?
    dsimp only
    rw [digits, behind]
    split
    · rfl
    · split
      · rfl
      · cases (c :: s).dropWhile isDigit with
        | nil => rfl
        | cons d rest =>
          by_cases period : '.' = d <;> simp [Text.after?, period]

theorem content?_append_bracket {afterMark : Text} (none : content? afterMark = none) (t : Text) :
    content? (afterMark ++ '<' :: t) = Option.none := by
  cases afterMark with
  | nil => rfl
  | cons c s =>
    have other : ¬isBlank c = true := fun blank => by simp [content?, blank] at none
    simp [content?, other]

/-- A tag behind a line does not make the line an item. -/
theorem item?_append_bracket (none : item? line = none) (t : Text) :
    item? (line ++ '<' :: t) = Option.none := by
  have before := map_content_item? line
  rw [none, Option.map_none] at before
  rw [← Option.map_eq_none_iff (f := Item.content), map_content_item?,
    Text.dropWhile_append_cons rfl, afterMark?_append_bracket]
  cases marked : afterMark? (line.dropWhile isBlank) with
  | none => rfl
  | some afterMark =>
    rw [marked, Option.bind_some] at before
    exact content?_append_bracket before.symm t

/-! ## Compiled to the end -/

/-- Whether no line of a text begins an item. -/
def IsPlain (s : Text) : Prop := ∀ line ∈ Text.lines s, item? line = none

theorem IsPlain.ofLines {ts : List Text} (h : ∀ t ∈ ts, IsPlain t) : IsPlain (Text.ofLines ts) := by
  cases ts with
  | nil => simp [IsPlain, Text.ofLines, Text.join, Text.lines, Text.splitOn, item?]
  | cons t ts =>
    intro line member
    rw [Text.lines_ofLines_flatMap (List.cons_ne_nil t ts), List.mem_flatMap] at member
    obtain ⟨t, there, inside⟩ := member
    exact h t there line inside

theorem isPlain_of_bracket {t : Text} (absent : '\n' ∉ t) : IsPlain ('<' :: t) := by
  intro line member
  rw [Text.lines_of_not_mem (by simp [absent])] at member
  obtain rfl := List.mem_singleton.mp member
  exact @item?_append_bracket [] rfl t

/-- A text that begins with a tag may follow a text without a line break between them. -/
theorem IsPlain.append {s t : Text} (h : IsPlain s) (h' : IsPlain ('<' :: t)) :
    IsPlain (s ++ '<' :: t) := by
  obtain ⟨front, last, left⟩ := Text.exists_lines_eq_concat s
  obtain ⟨first, back, right⟩ := Text.exists_lines_eq_cons t
  have right := Text.lines_cons (c := '<') (by decide) right
  intro line member
  rw [Text.lines_append left right, List.mem_append, List.mem_cons] at member
  rcases member with before | rfl | after
  · exact h line (left ▸ List.mem_append_left _ before)
  · exact item?_append_bracket (h last (left ▸ by simp)) first
  · exact h' line (right ▸ List.mem_cons_of_mem _ after)

theorem IsPlain.newline {s t : Text} (h : IsPlain s) (h' : IsPlain t) :
    IsPlain (s ++ '\n' :: t) := by
  intro line member
  rw [Text.lines_newline] at member
  exact (List.mem_append.mp member).elim (h line) (h' line)

/-- The text between the content of an item and the lines below it. -/
def gap (body : List Text) : Text :=
  if (Text.ofLines body).head? = some '<' then [] else ['\n']

theorem itemHtml_of_ne_nil (content : Text) {body : List Text} (some : body ≠ []) :
    itemHtml content body = "<li>" ++ content ++ gap body ++ Text.ofLines body ++ "</li>" := by
  rw [itemHtml, if_neg (by simpa using some)]
  rfl

/-- An item as HTML has no line that begins an item, since what is put below its content begins with
a tag. -/
theorem isPlain_itemHtml {content : Text} (oneLine : '\n' ∉ content) {body : List Text}
    (h : IsPlain (Text.ofLines body)) : IsPlain (itemHtml content body) := by
  have opening : IsPlain ("<li>" ++ content) := isPlain_of_bracket fun member =>
    (List.mem_append.mp member).elim (by decide) oneLine
  cases body with
  | nil => exact opening.append (isPlain_of_bracket (by decide))
  | cons first body =>
    rw [itemHtml_of_ne_nil content (List.cons_ne_nil first body)]
    refine .append ?_ (isPlain_of_bracket (by decide))
    unfold gap
    split
    · next bracket =>
      obtain ⟨t, begun⟩ := List.head?_eq_some_iff.mp bracket
      rw [begun] at h ⊢
      simpa using opening.append h
    · simpa using opening.newline h

/-- Items follow each other directly, each beginning with its tag. -/
theorem isPlain_flatten {items : List Text} (h : ∀ item ∈ items, IsPlain item)
    (tags : ∀ item ∈ items, ∃ t, item = '<' :: t) {s : Text} (before : IsPlain s) :
    IsPlain (s ++ items.flatten) := by
  induction items generalizing s with
  | nil => simpa using before
  | cons item items ih =>
    obtain ⟨here, later⟩ := List.forall_mem_cons.mp h
    obtain ⟨⟨t, bracket⟩, furtherTags⟩ := List.forall_mem_cons.mp tags
    subst bracket
    rw [List.flatten_cons, ← List.append_assoc]
    exact ih later furtherTags (before.append here)

theorem exists_itemHtml_eq (content : Text) (body : List Text) :
    ∃ t, itemHtml content body = '<' :: t := by
  unfold itemHtml
  split <;> exact ⟨_, rfl⟩

theorem isPlain_html (family : Family) (items : List Item) {compiled : List Text}
    (h : ∀ item ∈ compiled, IsPlain item) (tags : ∀ item ∈ compiled, ∃ t, item = '<' :: t) :
    IsPlain (html family items compiled) := by
  unfold html
  split
  · exact (isPlain_flatten h tags (isPlain_of_bracket (by decide))).append
      (isPlain_of_bracket (by decide))
  · refine (isPlain_flatten h tags ?_).append (isPlain_of_bracket (by decide))
    split <;> exact isPlain_of_bracket (by decide)

theorem content_suffix (found : item? line = some item) : item.content <:+ line := by
  obtain ⟨-, mark, behind, shape, -, content⟩ := item?_eq_some found
  obtain ⟨c, s, rfl, -, read⟩ := content?_eq_some_iff.mp content
  have inside : item.content <:+ c :: s :=
    read ▸ (List.dropWhile_suffix _).trans (List.suffix_cons c s)
  exact (inside.trans (shape ▸ List.suffix_append mark _)).trans (List.dropWhile_suffix _)

/-- What holds of all lines holds of those below the items and behind the list, and the items are
those of such lines. -/
theorem forall_takeItems {p : Text → Prop} (indent : Nat) (family : Family)
    (h : ∀ line ∈ lines, p line) :
    (∀ line ∈ (takeItems indent family lines).2, p line) ∧
      ∀ entry ∈ (takeItems indent family lines).1,
        (∃ line, p line ∧ item? line = some entry.1) ∧ ∀ line ∈ entry.2, p line := by
  fun_induction takeItems indent family lines with
  | case1 => simp
  | case2 line rest none => simpa using h
  | case3 line rest item found body items after taken ih =>
    rw [taken] at ih
    obtain ⟨here, below⟩ := List.forall_mem_cons.mp h
    obtain ⟨behind, entries⟩ := ih fun line member =>
      below line ((List.dropWhile_suffix _).subset member)
    refine ⟨behind, List.forall_mem_cons.mpr ⟨⟨⟨line, here, itemOf?_eq_some found⟩, ?_⟩, entries⟩⟩
    exact fun line member => below line ((List.takeWhile_prefix _).subset member)

theorem not_mem_dedent {c : Char} (absent : ∀ line ∈ lines, c ∉ line) :
    ∀ line ∈ dedent lines, c ∉ line := by
  intro line member
  obtain ⟨before, inside, rfl⟩ := List.mem_map.mp member
  exact fun member => absent before inside (List.mem_of_mem_drop member)

/-- However deep the lists are, no compiled line begins an item. -/
theorem isPlain_compiled (lines : List Text) (apart : ∀ line ∈ lines, '\n' ∉ line) :
    ∀ line ∈ compiled lines, IsPlain line := by
  induction lines using compiled_induction with
  | nil => simp [compiled_nil]
  | text line rest none ih =>
    obtain ⟨here, later⟩ := List.forall_mem_cons.mp apart
    rw [compiled_text none, List.forall_mem_cons]
    refine ⟨fun part member => ?_, ih later⟩
    rw [Text.lines_of_not_mem here] at member
    exact List.mem_singleton.mp member ▸ none
  | list line rest first entries after found taken below ih =>
    have parts := forall_takeItems first.indent first.family apart
    rw [taken] at parts
    rw [compiled_list found taken, List.forall_mem_cons]
    refine ⟨isPlain_html _ _ (fun item member => ?_) (fun item member => ?_), ih parts.1⟩
    · obtain ⟨entry, there, rfl⟩ := List.mem_map.mp member
      obtain ⟨⟨line, oneLine, begins⟩, body⟩ := parts.2 entry there
      refine isPlain_itemHtml (fun member => ?_) (.ofLines ?_)
      · exact oneLine ((content_suffix begins).subset member)
      · exact below entry there (not_mem_dedent body)
    · obtain ⟨entry, there, rfl⟩ := List.mem_map.mp member
      exact exists_itemHtml_eq _ _

end ItemList

/-- No line of a text whose lists are compiled begins an item, at whatever depth and with whatever
marks and indentation the lists were written, and so a second run changes nothing. -/
theorem itemLists_to_the_end (s : Text) :
    (∀ line ∈ Text.lines (itemLists s), ItemList.item? line = none) ∧
      itemLists (itemLists s) = itemLists s := by
  have calm : ItemList.IsPlain (itemLists s) :=
    .ofLines (ItemList.isPlain_compiled _ fun _ => Text.not_mem_of_mem_lines)
  exact ⟨calm, (liftsAt_itemLists _).eq_self calm⟩

end Stencil
