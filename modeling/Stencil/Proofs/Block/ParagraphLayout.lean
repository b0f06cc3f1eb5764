import Stencil.Proofs.Block.Layout
import Stencil.Proofs.Block.Occurrences
import Stencil.Proofs.Block.Rise

/-!
# What becomes of paragraphs

In a text without tags of paragraphs and items, the lines that begin like a text are wrapped where
they stand, with the attributes of the line above them, and every other line is left alone
(`paragraphs_layout`).  A second run leaves the lines alone where it takes a paragraph to be open.
It counts tags to know that, and where attributes end like a closing tag, the paragraph of several
lines that they belong to seems closed before its second line.  That is the only thing that goes
wrong: a second run changes nothing exactly if no paragraph seems closed inside, with those counted
that seem open before it (`AreSettled`).
-/

namespace Stencil

namespace Paragraph

variable {line s : Text} {lines run : List Text} {depth : Nat}

/-! ## Paragraphs that are found -/

/-- A single line that begins like a text makes a paragraph. -/
def rule : BlockRule := ⟨startsText, true, attributes?⟩

theorem split?_eq (lines : List Text) : rule.split? lines = split? lines := by
  have few (run : List Text) : run.length < rule.least ↔ run.isEmpty = true := by
    rw [List.isEmpty_iff, ← List.length_eq_zero_iff]
    exact Nat.lt_one_iff
  simp only [BlockRule.split?, split?, few]
  rfl

def written : Passage → Text
  | .single line => line
  | .block above run => html (rule.attributesOf above) run

theorem splitAt?_zero (lines : List Text) : splitAt? 0 lines = rule.split? lines := by
  rw [splitAt?, if_pos rfl, split?_eq]

theorem attributeLine?_of_attributes? {attributes : Text}
    (given : attributes? line = some attributes) : attributeLine? line = some attributes :=
  (Option.filter_eq_some_iff.mp given).1

/-- Whether a line that begins like a text may begin with a character. -/
def mayStart (c : Char) : Bool :=
  isWord c || c == '*' || c == '_' || c == '~' || c == Code.inline.opening || c == '<'

theorem mayStart_of_startsText {c : Char} {rest : Text} (starts : startsText (c :: rest) = true) :
    mayStart c = true := by
  rw [startsText, Bool.or_eq_true] at starts
  rw [mayStart, Bool.or_eq_true]
  refine starts.imp_right fun tagged => ?_
  obtain ⟨tag, member, start⟩ := List.any_eq_true.mp tagged
  have brackets : ∀ tag ∈ inlineTags, tag.head? = some '<' := by decide
  obtain ⟨name, rfl⟩ := List.head?_eq_some_iff.mp (brackets tag member)
  obtain ⟨rfl, -⟩ := List.cons_prefix_cons.mp (startsWith_iff.mp start)
  rfl

/-- A line that begins like a text gives no attributes. -/
theorem disjoint_rule : rule.Disjoint := by
  intro line text
  by_contra some
  obtain ⟨attributes, given⟩ := Option.ne_none_iff_exists'.mp some
  obtain ⟨c, rest, rfl, first⟩ := first_of_attributeLine (attributeLine?_of_attributes? given)
  have starts := mayStart_of_startsText text
  rw [isSpaceOr, Bool.or_eq_true, beq_iff_eq] at first
  obtain space | rfl := first
  · have visible : isSpace c = false := by
      simp only [mayStart, Bool.or_eq_true, beq_iff_eq] at starts
      rcases starts with ((((word | rfl) | rfl) | rfl) | rfl) | rfl
      · exact Text.not_isSpace_of_isWord word
      all_goals decide
    simp [visible] at space
  · exact absurd starts (by decide +kernel)

/-- A run without tags in it is followed by lines without tags, and leaves nothing open. -/
theorem unmarked_of_split? {after : List Text} (found : rule.split? lines = some (run, after))
    (plain : ∀ line ∈ lines, IsUnmarked line) :
    openAfter 0 (Text.ofLines run) = 0 ∧ ∀ line ∈ after, IsUnmarked line := by
  obtain ⟨source, -⟩ := BlockRule.split?_eq_some found
  rw [source, List.forall_mem_append] at plain
  exact ⟨openAfter_of_unmarked (.ofLines plain.1) 0, plain.2⟩

/-- Nothing is ever open where there are no tags, so every line that begins like a text is found. -/
theorem exists_cuts (plain : ∀ line ∈ lines, IsUnmarked line) :
    ∃ passages, rule.Cuts lines passages ∧ compileLines 0 lines = passages.map written := by
  -- The induction is on the lines that are left, and the depth stays zero along it.
  generalize outside : 0 = depth
  fun_induction compileLines depth lines with
  | case1 => exact ⟨[], .nil, rfl⟩
  | case2 depth line rest run after found ih =>
    subst outside
    rw [splitAt?_zero] at found
    obtain ⟨closed, later⟩ := unmarked_of_split? found plain
    obtain ⟨passages, cuts, compiled⟩ := ih later closed.symm
    exact ⟨_, .block found cuts, by rw [compiled]; rfl⟩
  | case3 depth line rest none attributes run after found above ih =>
    subst outside
    obtain ⟨here, below⟩ := List.forall_mem_cons.mp plain
    rw [openAfter_of_unmarked here, splitAt?_zero] at found
    rw [splitAt?_zero] at none
    obtain ⟨closed, later⟩ := unmarked_of_split? found below
    obtain ⟨passages, cuts, compiled⟩ := ih later closed.symm
    refine ⟨_, .headed none (Option.isSome_of_eq_some above) found cuts, ?_⟩
    rw [compiled, List.map_cons, written, BlockRule.attributesOf_some above]
  | case4 depth line rest none other ih =>
    subst outside
    obtain ⟨here, later⟩ := List.forall_mem_cons.mp plain
    rw [openAfter_of_unmarked here] at ih other ⊢
    simp only [splitAt?_zero] at none other
    obtain ⟨passages, cuts, compiled⟩ := ih later rfl
    refine ⟨_, .single none ?_ cuts, by rw [compiled]; rfl⟩
    cases above : attributes? line with
    | none => exact .inl above
    | some attributes =>
      cases found : rule.split? rest with
      | none => exact .inr rfl
      | some split => exact (other attributes split.1 split.2 above found).elim

/-! ## What a second run finds -/

/-- How many paragraphs and items seem open behind the attributes of a tag, which may end like a
tag themselves. -/
def shifted (attributes : Text) (depth : Nat) : Nat :=
  depth + (if EndsAs openingTags attributes then 1 else 0) -
    if EndsAs closingTags attributes then 1 else 0

/-- How many seem open behind a passage, as it is compiled. -/
def depthAfter (depth : Nat) : Passage → Nat
  | .single _ => depth
  | .block above _ => shifted (rule.attributesOf above) depth

/-- Whether there is nothing to wrap in a passage, as it is compiled.  There is if the attributes of
a paragraph of several lines seem to close it, and nothing else seems open. -/
def IsSettled (depth : Nat) : Passage → Prop
  | .single _ => True
  | .block above run =>
    EndsAs closingTags (rule.attributesOf above) → depth ≠ 0 ∨ run.length = 1

/-- Whether there is nothing to wrap in any of some passages. -/
def AreSettled : (depth : Nat) → List Passage → Prop
  | _, [] => True
  | depth, passage :: passages =>
    IsSettled depth passage ∧ AreSettled (depthAfter depth passage) passages

instance (depth : Nat) : (passage : Passage) → Decidable (IsSettled depth passage)
  | .single _ => inferInstanceAs (Decidable True)
  | .block _ _ => inferInstanceAs (Decidable (_ → _))

instance decidableAreSettled :
    (depth : Nat) → (passages : List Passage) → Decidable (AreSettled depth passages)
  | _, [] => .isTrue trivial
  | depth, passage :: passages =>
    have := decidableAreSettled (depthAfter depth passage) passages
    inferInstanceAs (Decidable (IsSettled depth passage ∧ _))

-- What seems open behind one paragraph keeps the next one from being wrapped again.
example : AreSettled 0 [.block (some "\x7ba<p\x7d") ["x"], .single [],
    .block (some "\x7bb</p\x7d") ["y", "z"]] := by decide +kernel

theorem shifted_succ_sub_one (attributes : Text) (depth : Nat) :
    shifted attributes (depth + 1) - 1 = shifted attributes depth := by
  unfold shifted
  omega

theorem shifted_succ_eq_zero_iff {attributes : Text} :
    shifted attributes (depth + 1) = 0 ↔ EndsAs closingTags attributes ∧ depth = 0 := by
  have both := not_endsAs_both attributes
  unfold shifted
  split_ifs <;> tauto

theorem startsText_openTag_append (attributes s : Text) :
    startsText (openTag attributes ++ s) = false := by
  have begins : openTag attributes ++ s = '<' :: 'p' :: (attributes ++ '>' :: s) := by
    simp [openTag]
  rw [begins]
  rfl

theorem startsText_append (starts : startsText s = true) (t : Text) :
    startsText (s ++ t) = true := by
  cases s with
  | nil => simp [startsText] at starts
  | cons c s =>
    simp only [startsText, List.cons_append, Bool.or_eq_true, List.any_eq_true,
      startsWith_iff] at starts ⊢
    refine starts.imp_right ?_
    rintro ⟨tag, member, start⟩
    exact ⟨tag, member, start.trans (List.prefix_append (c :: s) t)⟩

/-- Lines of text are left alone only inside a paragraph or an item. -/
theorem isQuiet_append (plain : ∀ line ∈ lines, IsUnmarked line) (rest : List Text) :
    IsQuiet depth (lines ++ rest) ↔
      (depth = 0 → ∀ line ∈ lines, startsText line = false) ∧ IsQuiet depth rest := by
  induction lines with
  | nil => simp
  | cons line lines ih =>
    obtain ⟨here, later⟩ := List.forall_mem_cons.mp plain
    rw [List.cons_append, IsQuiet, openAfter_of_unmarked here, ih later, List.forall_mem_cons]
    tauto

theorem openAfter_openTag_append {attributes : Text} (plain : IsUnmarked attributes)
    (begins : attributes = [] ∨ ∃ s, attributes = ' ' :: s) (depth : Nat) (s : Text) :
    openAfter depth (openTag attributes ++ s) = openAfter (shifted attributes (depth + 1)) s := by
  have opening : occurrencesOf openingTags "<p>" = 1 := by decide +kernel
  have closing : occurrencesOf closingTags "<p>" = 0 := by decide +kernel
  have both := not_endsAs_both attributes
  rw [openAfter, openAfter, occurrencesOf_openTag_append (by simp),
    occurrencesOf_openTag_append (by simp), occurrencesOf_openTag (by simp) plain begins,
    occurrencesOf_openTag (by simp) plain begins, opening, closing, shifted]
  split_ifs <;> omega

theorem openAfter_append_closeTag (plain : IsUnmarked s) (depth : Nat) :
    openAfter depth (s ++ "</p>") = depth - 1 := by
  have opening : occurrencesOf openingTags "</p>" = 0 := by decide +kernel
  have closing : occurrencesOf closingTags "</p>" = 1 := by decide +kernel
  obtain ⟨absent, absent'⟩ := List.forall_mem_append.mp plain
  rw [openAfter, occurrencesOf_append_closeTag (by simp), occurrencesOf_append_closeTag (by simp),
    occurrencesOf_eq_zero absent, occurrencesOf_eq_zero absent', opening, closing]
  rfl

/-- The first line of a paragraph has the tag that opens it before it, and the last line the one
that closes it behind it. -/
theorem lines_html {attributes first : Text} {front back : List Text} {last : Text}
    (plain : '\n' ∉ attributes) (lines : ∀ line ∈ run, '\n' ∉ line) (filled : run ≠ [])
    (ends : run = front ++ [last]) (begins : front ++ [last ++ "</p>"] = first :: back) :
    Text.lines (html attributes run) = (openTag attributes ++ first) :: back := by
  have tag : Text.lines (openTag attributes) = [] ++ [openTag attributes] :=
    Text.lines_of_not_mem (by simp [openTag, plain])
  have closing : Text.lines ("</p>" : Text) = ["</p>"] := by decide
  have inside : Text.lines (Text.ofLines run) = front ++ [last] :=
    (Text.lines_ofLines lines filled).trans ends
  have closed := (Text.lines_append inside closing).trans begins
  have whole : html attributes run = openTag attributes ++ (Text.ofLines run ++ "</p>") := by
    simp [html, openTag]
  rw [whole]
  exact Text.lines_append tag closed

section Html

variable {attributes : Text} (unmarked : IsUnmarked attributes) (plain : '\n' ∉ attributes)
  (begins : attributes = [] ∨ ∃ s, attributes = ' ' :: s)
  (text : ∀ line ∈ run, startsText line = true ∧ IsUnmarked line ∧ '\n' ∉ line)

include unmarked plain begins text

/-- The lines of a paragraph are left alone if it is a single one, or if it is still open behind
the tag that opens it. -/
theorem isQuiet_html (filled : run ≠ []) (depth : Nat) (rest : List Text) :
    IsQuiet depth (Text.lines (html attributes run) ++ rest) ↔
      (EndsAs closingTags attributes → depth ≠ 0 ∨ run.length = 1) ∧
        IsQuiet (shifted attributes depth) rest := by
  have lines : ∀ line ∈ run, '\n' ∉ line := fun line there => (text line there).2.2
  obtain ⟨front, last, rfl⟩ := (List.eq_nil_or_concat' run).resolve_left filled
  obtain ⟨textLast, unmarkedLast, -⟩ := text last (by simp)
  cases front with
  | nil =>
    rw [lines_html plain lines filled rfl rfl, List.singleton_append, IsQuiet,
      startsText_openTag_append, openAfter_openTag_append unmarked begins,
      openAfter_append_closeTag unmarkedLast, shifted_succ_sub_one]
    exact and_congr_left fun _ => ⟨fun _ _ => .inr rfl, fun _ _ => rfl⟩
  | cons first front =>
    obtain ⟨-, unmarkedFirst, -⟩ := text first (by simp)
    have between : ∀ line ∈ front, IsUnmarked line := fun line there =>
      (text line (by simp [there])).2.1
    have long : (first :: front ++ [last]).length ≠ 1 := by simp
    have split : first :: front ++ [last ++ "</p>"] = first :: (front ++ [last ++ "</p>"]) := rfl
    -- The last line begins like a text, so it is left alone only where something is open.
    rw [lines_html plain lines filled rfl split, List.cons_append, IsQuiet,
      startsText_openTag_append, openAfter_openTag_append unmarked begins,
      openAfter_of_unmarked unmarkedFirst, List.append_assoc, isQuiet_append between,
      List.singleton_append, IsQuiet, startsText_append textLast,
      openAfter_append_closeTag unmarkedLast, shifted_succ_sub_one, shifted_succ_eq_zero_iff]
    simp only [long, or_false, Bool.true_eq_false]
    tauto

end Html

/-- Attributes that come from a line without tags of paragraphs have none either. -/
theorem isUnmarked_attributesOf {above : Option Text} (plain : ∀ line ∈ above, IsUnmarked line) :
    IsUnmarked (rule.attributesOf above) := by
  obtain none | ⟨line, there, attributes, given, some⟩ := rule.eq_nil_or_exists_attributesOf above
  · rw [none]
    decide
  · have part := infix_of_attributeLine (attributeLine?_of_attributes? given)
    intro mark member inside
    rw [some, List.infix_cons_iff] at inside
    refine inside.elim (fun start => ?_) fun inside =>
      plain line there mark member (inside.trans part)
    obtain ⟨rest, rfl⟩ := List.head?_eq_some_iff.mp (isMark member).begins
    exact absurd (List.cons_prefix_cons.mp start).1 (by decide)

/-- A second run leaves the compiled passages alone exactly if they are settled. -/
theorem isQuiet_written_iff {passages : List Passage}
    (sound : ∀ passage ∈ passages, rule.IsSound passage)
    (plain : ∀ passage ∈ passages, ∀ line ∈ passage.source, IsUnmarked line ∧ '\n' ∉ line)
    (depth : Nat) :
    IsQuiet depth ((passages.map written).flatMap Text.lines) ↔ AreSettled depth passages := by
  induction passages generalizing depth with
  | nil => exact Iff.rfl
  | cons passage passages ih =>
    obtain ⟨soundHere, soundLater⟩ := List.forall_mem_cons.mp sound
    obtain ⟨plainHere, plainLater⟩ := List.forall_mem_cons.mp plain
    rw [List.map_cons, List.flatMap_cons, AreSettled, ← ih soundLater plainLater]
    cases passage with
    | single line =>
      obtain ⟨unmarked, noBreak⟩ := plainHere line List.mem_cons_self
      rw [written, Text.lines_of_not_mem noBreak, List.singleton_append, IsQuiet,
        openAfter_of_unmarked unmarked]
      exact and_congr_left fun _ => ⟨fun _ => trivial, fun _ _ => soundHere rfl⟩
    | block above run =>
      obtain ⟨enough, member, -⟩ := soundHere
      obtain ⟨plainAbove, plainRun⟩ := List.forall_mem_append.mp plainHere
      have plainAbove : ∀ line ∈ above, IsUnmarked line ∧ '\n' ∉ line := fun line there =>
        plainAbove line (by simpa using there)
      have begins : rule.attributesOf above = [] ∨ ∃ s, rule.attributesOf above = ' ' :: s :=
        (rule.eq_nil_or_exists_attributesOf above).imp_right fun ⟨_, _, s, _, given⟩ => ⟨s, given⟩
      exact isQuiet_html (isUnmarked_attributesOf fun line there => (plainAbove line there).1)
        (BlockRule.not_mem_attributesOf (by decide) (fun _ _ => attributeLine?_of_attributes?)
          fun line there => (plainAbove line there).2)
        begins (fun line there => ⟨member line there, plainRun line there⟩)
        (List.ne_nil_of_length_pos (rule.least_pos.trans_le enough)) depth _

/-- Where no attributes end like a closing tag, no passage holds anything to wrap. -/
theorem areSettled_of_forall {passages : List Passage}
    (ends : ∀ above run, Passage.block above run ∈ passages →
      ¬EndsAs closingTags (rule.attributesOf above)) (depth : Nat) : AreSettled depth passages := by
  induction passages generalizing depth with
  | nil => trivial
  | cons passage passages ih =>
    refine ⟨?_, ih (fun above run member => ends above run (List.mem_cons_of_mem _ member)) _⟩
    cases passage with
    | single line => trivial
    | block above run => exact fun closing => absurd closing (ends above run List.mem_cons_self)

def opening : Passage → Text
  | .single _ => []
  | .block above _ => openTag (rule.attributesOf above)

def closing : Passage → Text
  | .single _ => []
  | .block _ _ => "</p>"

theorem written_eq (passage : Passage) :
    written passage = opening passage ++ Text.ofLines passage.members ++ closing passage := by
  cases passage with
  | single line => simp [written, opening, closing, Passage.members, Text.ofLines, Text.join]
  | block above run => simp [written, html, opening, closing, Passage.members, openTag]

/-- Paragraphs are wrapped passage by passage, and a second run changes nothing exactly if every
passage is settled as it is written. -/
theorem exists_layout (plain : IsUnmarked s) :
    ∃ passages, rule.IsLayout (Text.lines s) passages ∧
      paragraphs s = Text.ofLines (passages.map written) ∧
      (paragraphs (paragraphs s) = paragraphs s ↔ AreSettled 0 passages) := by
  have unmarked : ∀ line ∈ Text.lines s, IsUnmarked line := fun line there =>
    plain.of_infix (Text.infix_of_mem_lines there)
  obtain ⟨passages, cuts, compiled⟩ := exists_cuts unmarked
  have layout := cuts.isLayout
  have compiled : paragraphs s = Text.ofLines (passages.map written) :=
    congrArg Text.ofLines compiled
  have some : passages.map written ≠ [] :=
    mt List.map_eq_nil_iff.mp (layout.ne_nil (Text.lines_ne_nil s))
  refine ⟨passages, layout, compiled, ?_⟩
  rw [(liftsAt_paragraphs (paragraphs s)).eq_self_iff, compiled, Text.lines_ofLines_flatMap some]
  refine isQuiet_written_iff layout.sound (fun passage member line inside => ?_) 0
  have there := layout.mem_lines member inside
  exact ⟨unmarked line there, Text.not_mem_of_mem_lines there⟩

end Paragraph

/-- Where no attributes end like a closing tag, a second run changes nothing. -/
theorem paragraphs_paragraphs {s : Text} (plain : Paragraph.IsUnmarked s)
    (ends : ∀ line ∈ Text.lines s, ∀ attributes, Paragraph.attributes? line = some attributes →
      ¬Paragraph.EndsAs Paragraph.closingTags attributes) :
    paragraphs (paragraphs s) = paragraphs s := by
  obtain ⟨passages, layout, -, settled⟩ := Paragraph.exists_layout plain
  refine settled.mpr (Paragraph.areSettled_of_forall (fun above run member closing => ?_) 0)
  obtain none | ⟨line, there, attributes, given, some⟩ :=
    Paragraph.rule.eq_nil_or_exists_attributesOf above
  · rw [none] at closing
    exact absurd closing (by decide)
  · rw [some, Paragraph.endsAs_cons_space (by simp)] at closing
    have source : line ∈ (Passage.block above run).source :=
      List.mem_append_left _ (Option.mem_toList.mpr there)
    exact ends line (layout.mem_lines member source) attributes given closing

open Paragraph in
/-- In a text without tags of paragraphs and items, the lines that begin like a text are put between
tags where they stand.  Without these tags the text has the lines that it had, but for the attribute
lines above paragraphs.  A second run changes nothing exactly if the passages are settled. -/
theorem paragraphs_layout {s : Text} (plain : IsUnmarked s) :
    ∃ passages, rule.IsLayout (Text.lines s) passages ∧
      (∀ other, rule.IsLayout (Text.lines s) other → other = passages) ∧
      paragraphs s = Text.ofLines (passages.map fun passage =>
        opening passage ++ Text.ofLines passage.members ++ closing passage) ∧
      Text.ofLines (passages.map fun passage => Text.ofLines passage.members) =
        Text.ofLines (passages.flatMap Passage.members) ∧
      (paragraphs (paragraphs s) = paragraphs s ↔ AreSettled 0 passages) := by
  obtain ⟨passages, layout, compiled, settled⟩ := exists_layout plain
  refine ⟨passages, layout, fun other h => h.unique disjoint_rule layout, ?_, ?_, settled⟩
  · rw [compiled]
    exact congrArg Text.ofLines (List.map_congr_left fun passage _ => written_eq passage)
  · rw [List.flatMap_def, ← Text.ofLines_map_ofLines, List.map_map]
    · rfl
    · exact List.forall_mem_map.mpr fun passage member =>
        (layout.sound passage member).members_ne_nil

open Paragraph in
/-- A heading, and a paragraph of two lines with a class. -/
theorem paragraphs_layout_page :
    let s : Text := "# head\n\x7bclass=\"wide\"\x7d\none\ntwo\n"
    IsUnmarked s ∧ ∃ passages, rule.IsLayout (Text.lines s) passages ∧
      "# head\n<p class=\"wide\">one\ntwo</p>\n" = Text.ofLines (passages.map fun passage =>
        opening passage ++ Text.ofLines passage.members ++ closing passage) ∧
      AreSettled 0 passages := by
  intro s
  have plain : IsUnmarked s := by decide +kernel
  obtain ⟨passages, layout, -, compiled, -, settled⟩ := paragraphs_layout plain
  refine ⟨plain, passages, layout, ?_, settled.mp (by decide +kernel)⟩
  rw [← compiled]
  decide +kernel

/-- Attributes that end like a closing tag seem to close their paragraph before its second line. -/
theorem paragraphs_paragraphs_ne :
    let s : Text := "\x7ba</p\x7d\nx\ny"
    Paragraph.IsUnmarked s ∧ paragraphs (paragraphs s) ≠ paragraphs s := by
  decide +kernel

end Stencil
