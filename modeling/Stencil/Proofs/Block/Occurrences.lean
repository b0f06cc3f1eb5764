import Stencil.Block.Paragraph
import Stencil.Proofs.Text.Lines

/-!
# How many tags a text has

Paragraphs count the tags of paragraphs and items in the text before them.  A text occurs in two
others, one after the other, as often as in each of them, unless it can be cut in two where they
meet (`occurrences_append`); tags cannot be cut before an opening bracket or behind a closing one.
So a text without tags in it leaves the count as it is, and so does the tag that opens a paragraph,
but for the tag itself and for the end of its attributes, which may read as a tag as well
(`occurrencesOf_openTag`).
-/

namespace Stencil

namespace Paragraph

variable {mark s t : Text} {lines marks : List Text} {c : Char}

/-! ## Texts in texts -/

theorem startsWith_iff : Text.startsWith s mark = true ↔ mark <+: s := List.isPrefixOf_iff_prefix

theorem occurrences_cons (mark : Text) (c : Char) (s : Text) :
    occurrences mark (c :: s) = (if mark <+: c :: s then 1 else 0) + occurrences mark s := by
  rw [occurrences]
  simp only [startsWith_iff]

theorem occurrences_eq_zero (absent : ¬mark <:+: s) : occurrences mark s = 0 := by
  induction s with
  | nil => rfl
  | cons c s ih =>
    rw [List.infix_cons_iff, not_or] at absent
    rw [occurrences_cons, if_neg absent.1, ih absent.2]

/-- A text occurs in two others as often as in each of them, if it does not begin in the one and go
on in the other. -/
theorem occurrences_append (apart : ∀ a b, mark = a ++ b → a ≠ [] → b ≠ [] → a <:+ s → ¬b <+: t) :
    occurrences mark (s ++ t) = occurrences mark s + occurrences mark t := by
  induction s with
  | nil => simp [occurrences]
  | cons c s ih =>
    have start : mark <+: c :: (s ++ t) ↔ mark <+: c :: s := by
      refine ⟨fun whole => ?_, fun part => part.trans (List.prefix_append (c :: s) t)⟩
      have front : c :: s <+: c :: (s ++ t) := List.prefix_append (c :: s) t
      obtain part | ⟨more, split⟩ := List.prefix_or_prefix_of_prefix whole front
      · exact part
      · -- What begins here and is no part of the first text goes on in the second.
        by_cases none : more = []
        · simp [← split, none]
        · rw [← split] at whole
          have back := (List.prefix_append_right_inj (c :: s)).mp whole
          exact absurd back (apart _ _ split.symm (by simp) none List.suffix_rfl)
    have later := ih fun a b split some some' inside =>
      apart a b split some some' (inside.trans (List.suffix_cons c s))
    rw [List.cons_append, occurrences_cons, later, occurrences_cons, Nat.add_assoc]
    simp only [start]

/-- A text is not cut before a character that it can have only at its start. -/
theorem occurrences_append_cons (inside : c ∉ mark.tail) (s t : Text) :
    occurrences mark (s ++ c :: t) = occurrences mark s + occurrences mark (c :: t) := by
  refine occurrences_append fun a b split some some' _ here => inside ?_
  obtain ⟨d, b, rfl⟩ := List.exists_cons_of_ne_nil some'
  obtain ⟨rfl, -⟩ := List.cons_prefix_cons.mp here
  rw [split, List.tail_append_of_ne_nil some]
  simp

/-- A text is not cut behind a character that it can have only at its end. -/
theorem occurrences_concat_append (inside : c ∉ mark.dropLast) (s t : Text) :
    occurrences mark (s ++ [c] ++ t) = occurrences mark (s ++ [c]) + occurrences mark t := by
  refine occurrences_append fun a b split some some' here _ => inside ?_
  obtain ⟨a, d, rfl⟩ := (List.eq_nil_or_concat' a).resolve_left some
  have same : d = c := by simpa using here.getLast (by simp : a ++ [d] ≠ [])
  rw [split, List.dropLast_append_of_ne_nil some']
  simp [same]

/-- A character more at the end makes one occurrence more if the text now ends in the mark. -/
theorem occurrences_concat (some : mark ≠ []) (s : Text) (c : Char) :
    occurrences mark (s ++ [c]) = occurrences mark s + if mark <:+ s ++ [c] then 1 else 0 := by
  induction s with
  | nil =>
    have same : mark <+: [c] ↔ mark <:+ [c] := by
      rw [← List.nil_append [c], List.prefix_concat_iff, List.suffix_concat_iff]
      simp [some]
    simp [occurrences_cons, occurrences, same]
  | cons d s ih =>
    have start : mark <+: d :: (s ++ [c]) ↔ mark = d :: (s ++ [c]) ∨ mark <+: d :: s :=
      @List.prefix_concat_iff _ mark (d :: s) c
    rw [List.cons_append, occurrences_cons, ih, occurrences_cons]
    simp only [List.suffix_cons_iff, start]
    by_cases whole : mark = d :: (s ++ [c])
    · -- The whole text is counted once, as a beginning on the left and as an end on the right.
      have before : ¬mark <+: d :: s := fun h => absurd h.length_le (by simp [whole])
      have after : ¬mark <:+ s ++ [c] := fun h => absurd h.length_le (by simp [whole])
      rw [if_pos (.inl whole), if_neg before, if_neg after, if_pos (.inl whole)]
      omega
    · simp only [whole, false_or]
      omega

/-! ## Several texts taken together -/

theorem occurrencesOf_cons (mark : Text) (marks : List Text) (s : Text) :
    occurrencesOf (mark :: marks) s = occurrences mark s + occurrencesOf marks s := rfl

theorem occurrencesOf_append
    (additive : ∀ mark ∈ marks,
      occurrences mark (s ++ t) = occurrences mark s + occurrences mark t) :
    occurrencesOf marks (s ++ t) = occurrencesOf marks s + occurrencesOf marks t := by
  induction marks with
  | nil => rfl
  | cons mark marks ih =>
    obtain ⟨here, later⟩ := List.forall_mem_cons.mp additive
    rw [occurrencesOf_cons, here, ih later, occurrencesOf_cons, occurrencesOf_cons]
    omega

theorem occurrencesOf_eq_zero (absent : ∀ mark ∈ marks, ¬mark <:+: s) :
    occurrencesOf marks s = 0 := by
  induction marks with
  | nil => rfl
  | cons mark marks ih =>
    obtain ⟨here, later⟩ := List.forall_mem_cons.mp absent
    rw [occurrencesOf_cons, occurrences_eq_zero here, ih later]

theorem occurrencesOf_concat (some : ∀ mark ∈ marks, mark ≠ []) (s : Text) (c : Char) :
    occurrencesOf marks (s ++ [c]) =
      occurrencesOf marks s + marks.countP fun mark => mark <:+ s ++ [c] := by
  induction marks with
  | nil => rfl
  | cons mark marks ih =>
    obtain ⟨here, later⟩ := List.forall_mem_cons.mp some
    rw [occurrencesOf_cons, occurrences_concat here, ih later, occurrencesOf_cons, List.countP_cons]
    simp only [decide_eq_true_eq]
    omega

/-- Of texts none of which ends with another one, a text ends with one at most. -/
theorem countP_suffix (apart : marks.Pairwise fun a b => ¬a <:+ b ∧ ¬b <:+ a) (s : Text) :
    (marks.countP fun mark => mark <:+ s) = if ∃ mark ∈ marks, mark <:+ s then 1 else 0 := by
  induction marks with
  | nil => simp
  | cons mark marks ih =>
    obtain ⟨here, later⟩ := List.pairwise_cons.mp apart
    rw [List.countP_cons, ih later]
    by_cases ends : mark <:+ s
    · have others : ¬∃ mark ∈ marks, mark <:+ s := by
        rintro ⟨other, member, ends'⟩
        obtain h | h := List.suffix_or_suffix_of_suffix ends ends'
        · exact (here other member).1 h
        · exact (here other member).2 h
      simp [ends, others]
    · simp [ends]

/-! ## The tags of paragraphs and items -/

/-- Whether a text has none of the tags in it that open or close a paragraph or an item. -/
def IsUnmarked (s : Text) : Prop := ∀ mark ∈ openingTags ++ closingTags, ¬mark <:+: s
  deriving Decidable

/-- Whether attributes, with the bracket behind them, end like one of some tags. -/
def EndsAs (tags : List Text) (attributes : Text) : Prop :=
  ∃ tag ∈ tags, tag <:+ attributes ++ ['>']
  deriving Decidable

def openTag (attributes : Text) : Text := "<p" ++ attributes ++ ['>']

/-- What the tags that are counted have in common. -/
structure IsMark (mark : Text) : Prop where
  ne_nil : mark ≠ []
  noBreak : '\n' ∉ mark
  opensFirst : '<' ∉ mark.tail
  closesLast : '>' ∉ mark.dropLast
  blankLast : ' ' ∉ mark.dropLast
  begins : mark.head? = some '<'

theorem isMark (member : mark ∈ openingTags ++ closingTags) : IsMark mark := by
  have facts : ∀ mark ∈ openingTags ++ closingTags,
      mark ≠ [] ∧ '\n' ∉ mark ∧ '<' ∉ mark.tail ∧ '>' ∉ mark.dropLast ∧ ' ' ∉ mark.dropLast ∧
        mark.head? = some '<' := by decide
  obtain ⟨ne_nil, noBreak, opensFirst, closesLast, blankLast, begins⟩ := facts mark member
  exact ⟨ne_nil, noBreak, opensFirst, closesLast, blankLast, begins⟩

/-- No tag ends with another one. -/
theorem marks_apart :
    (openingTags ++ closingTags).Pairwise fun a b => ¬a <:+ b ∧ ¬b <:+ a := by decide

theorem openAfter_of_unmarked (plain : IsUnmarked s) (depth : Nat) : openAfter depth s = depth := by
  obtain ⟨opening, closing⟩ := List.forall_mem_append.mp plain
  rw [openAfter, occurrencesOf_eq_zero opening, occurrencesOf_eq_zero closing, Nat.add_zero,
    Nat.sub_zero]

theorem IsUnmarked.of_infix (plain : IsUnmarked s) (part : t <:+: s) : IsUnmarked t :=
  fun mark member inside => plain mark member (inside.trans part)

/-- Line breaks part no tag. -/
theorem IsUnmarked.ofLines (plain : ∀ line ∈ lines, IsUnmarked line) :
    IsUnmarked (Text.ofLines lines) := by
  intro mark member inside
  obtain ⟨line, there, inside⟩ :=
    Text.exists_infix_of_join inside (isMark member).ne_nil (isMark member).noBreak
  exact plain line there mark member inside

theorem not_endsAs_both (attributes : Text) :
    ¬(EndsAs openingTags attributes ∧ EndsAs closingTags attributes) := by
  rintro ⟨⟨a, opening, ends⟩, ⟨b, closing, ends'⟩⟩
  have apart := (List.pairwise_append.mp marks_apart).2.2 a opening b closing
  exact (List.suffix_or_suffix_of_suffix ends ends').elim apart.1 apart.2

section Tags

variable {tags : List Text} (known : tags ∈ [openingTags, closingTags])

include known

theorem isMark_of_mem (member : mark ∈ tags) : IsMark mark := by
  obtain rfl | rfl := List.mem_pair.mp known
  · exact isMark (List.mem_append_left _ member)
  · exact isMark (List.mem_append_right _ member)

theorem endsAs_cons_space (s : Text) : EndsAs tags (' ' :: s) ↔ EndsAs tags s := by
  refine exists_congr fun mark => and_congr_right fun member => ?_
  rw [List.cons_append, List.suffix_cons_iff]
  refine or_iff_right fun whole => ?_
  have start := (isMark_of_mem known member).begins
  rw [whole] at start
  exact absurd (Option.some.inj start) (by decide)

theorem occurrencesOf_openTag_append (attributes s : Text) :
    occurrencesOf tags (openTag attributes ++ s) =
      occurrencesOf tags (openTag attributes) + occurrencesOf tags s :=
  occurrencesOf_append fun _ member =>
    occurrences_concat_append (isMark_of_mem known member).closesLast _ _

theorem occurrencesOf_append_closeTag (s : Text) :
    occurrencesOf tags (s ++ "</p>") = occurrencesOf tags s + occurrencesOf tags "</p>" :=
  occurrencesOf_append fun _ member =>
    occurrences_append_cons (isMark_of_mem known member).opensFirst _ _

/-- The attributes of a tag count as one more if they end like one. -/
theorem occurrencesOf_openTag {attributes : Text} (plain : IsUnmarked attributes)
    (begins : attributes = [] ∨ ∃ s, attributes = ' ' :: s) :
    occurrencesOf tags (openTag attributes) =
      occurrencesOf tags "<p>" + if EndsAs tags attributes then 1 else 0 := by
  have facts : tags ⊆ openingTags ++ closingTags ∧
      (tags.Pairwise fun a b => ¬a <:+ b ∧ ¬b <:+ a) ∧
        occurrencesOf tags "<p " = occurrencesOf tags "<p>" ∧ ¬EndsAs tags [] := by
    obtain rfl | rfl := List.mem_pair.mp known <;> decide +kernel
  obtain ⟨inside, apart, same, none⟩ := facts
  obtain rfl | ⟨s, rfl⟩ := begins
  · rw [if_neg none]
    rfl
  · have absent : occurrencesOf tags s = 0 := occurrencesOf_eq_zero fun mark member =>
      plain.of_infix (List.suffix_cons ' ' s).isInfix mark (inside member)
    have behind : occurrencesOf tags (s ++ ['>']) = if EndsAs tags (' ' :: s) then 1 else 0 := by
      simp only [endsAs_cons_space known]
      rw [occurrencesOf_concat fun _ member => (isMark_of_mem known member).ne_nil, absent,
        Nat.zero_add, countP_suffix apart]
      rfl
    have whole : openTag (' ' :: s) = "<p" ++ [' '] ++ (s ++ ['>']) := by simp [openTag]
    rw [whole, ← behind, ← same]
    exact occurrencesOf_append fun _ member =>
      occurrences_concat_append (isMark_of_mem known member).blankLast _ _

end Tags

end Paragraph

end Stencil
