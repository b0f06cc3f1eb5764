import Mathlib.Data.List.Chain
import Stencil.Proofs.Block.Marks
import Stencil.Proofs.Text.Lines

/-!
# Blocks among lines

Tables and paragraphs are both made of the lines of a kind that follow each other, with a line of
attributes directly above them if there is one.  A rule says which lines make up a block, whether
one of them is enough, and which lines give attributes.  A layout cuts lines into blocks and single
lines as a rule has it (`BlockRule.IsLayout`): the blocks are as long as they can be, and nothing is
lost or moved.

`BlockRule.Cuts` finds the blocks from the first line to the last.  What it finds is a layout
(`BlockRule.Cuts.isLayout`), and the only one that there is (`BlockRule.IsLayout.unique`).
-/

namespace Stencil

/-- What a line gives as attributes is a part of it. -/
theorem infix_of_attributeLine {line attributes : Text}
    (h : attributeLine? line = some attributes) : attributes <:+: line := by
  obtain ⟨inner, shape, -, rfl⟩ := attributeLine?_eq_some_iff.mp h
  have inside : inner <:+: Text.trim line := by
    rw [shape]
    exact ((List.prefix_append inner _).isInfix).trans (List.suffix_cons _ _).isInfix
  exact ((Text.trim_infix inner).trans inside).trans (Text.trim_infix line)

/-- How the blocks of a kind are found. -/
structure BlockRule where
  /-- Whether a line belongs to a block. -/
  isMember : Text → Bool
  /-- Whether a single line makes a block; otherwise it takes two. -/
  alone : Bool
  /-- The attributes that a line gives to a block below it. -/
  attributes? : Text → Option Text

/-- A line that is in no block, or the lines of a block and the line above that gives it
attributes. -/
inductive Passage where
  | single (line : Text)
  | block (above : Option Text) (members : List Text)
  deriving DecidableEq, Repr

def Passage.members : Passage → List Text
  | .single line => [line]
  | .block _ members => members

/-- The lines that a passage takes up. -/
def Passage.source : Passage → List Text
  | .single line => [line]
  | .block above members => above.toList ++ members

namespace BlockRule

variable (rule : BlockRule)

def least : Nat := if rule.alone then 1 else 2

def split? (lines : List Text) : Option (List Text × List Text) :=
  let members := lines.takeWhile rule.isMember
  if members.length < rule.least then none else some (members, lines.dropWhile rule.isMember)

/-- Whether a passage is of the kind that it is said to be. -/
def IsSound : Passage → Prop
  | .single line => rule.alone = true → rule.isMember line = false
  | .block above members =>
    rule.least ≤ members.length ∧ (∀ line ∈ members, rule.isMember line = true) ∧
      ∀ line ∈ above, (rule.attributes? line).isSome

/-- The line above a block as attributes in the tag of the block. -/
def attributesOf (above : Option Text) : Text :=
  match above.bind rule.attributes? with
  | some attributes => blockAttributes attributes
  | none => []

/-- Whether no line both belongs to a block and gives attributes to one. -/
def Disjoint : Prop := ∀ line, rule.isMember line = true → rule.attributes? line = none

/-- Whether no block goes on from one passage into the next, nor has its attributes in it. -/
def Apart (passage next : Passage) : Prop :=
  ∀ last ∈ passage.source.getLast?,
    (∀ first ∈ next.source.head?, ¬(rule.isMember last = true ∧ rule.isMember first = true)) ∧
      ∀ members, next = .block none members → rule.attributes? last = none

/-- Whether passages are some lines, cut into the blocks of a rule and the lines between them. -/
structure IsLayout (lines : List Text) (passages : List Passage) : Prop where
  source : passages.flatMap Passage.source = lines
  sound : ∀ passage ∈ passages, rule.IsSound passage
  apart : passages.IsChain rule.Apart

/-- The passages of some lines, found one after the other. -/
inductive Cuts : List Text → List Passage → Prop where
  | nil : Cuts [] []
  | single {line : Text} {rest : List Text} {passages : List Passage}
    (none : rule.split? (line :: rest) = none)
    (free : rule.attributes? line = Option.none ∨ rule.split? rest = Option.none)
    (later : Cuts rest passages) : Cuts (line :: rest) (.single line :: passages)
  | block {lines members after : List Text} {passages : List Passage}
    (found : rule.split? lines = some (members, after)) (later : Cuts after passages) :
    Cuts lines (.block none members :: passages)
  | headed {line : Text} {rest members after : List Text} {passages : List Passage}
    (none : rule.split? (line :: rest) = none) (above : (rule.attributes? line).isSome)
    (found : rule.split? rest = some (members, after)) (later : Cuts after passages) :
    Cuts (line :: rest) (.block (some line) members :: passages)

variable {rule} {lines members after rest : List Text} {line : Text} {passages : List Passage}

theorem least_pos (rule : BlockRule) : 0 < rule.least := by
  unfold least
  split <;> decide

/-- A block that is split off is a run of members, long enough, and as long as there are members. -/
theorem split?_eq_some (h : rule.split? lines = some (members, after)) :
    lines = members ++ after ∧ rule.least ≤ members.length ∧
      (∀ line ∈ members, rule.isMember line = true) ∧
      ∀ first ∈ after.head?, rule.isMember first = false := by
  unfold split? at h
  dsimp only at h
  split at h
  · simp at h
  · next enough =>
    obtain ⟨rfl, rfl⟩ := Prod.mk.inj (Option.some.inj h)
    refine ⟨List.takeWhile_append_dropWhile.symm, Nat.not_lt.mp enough,
      fun line => List.mem_takeWhile_imp, fun first member => ?_⟩
    have stopped := List.head?_dropWhile_not rule.isMember lines
    rw [Option.mem_def.mp member] at stopped
    exact stopped

theorem attributesOf_some {attributes : Text} (given : rule.attributes? line = some attributes) :
    rule.attributesOf (some line) = blockAttributes attributes := by
  rw [attributesOf, Option.bind_some, given]

/-- A block has no attributes, or those of the line above it behind a blank. -/
theorem eq_nil_or_exists_attributesOf (above : Option Text) :
    rule.attributesOf above = [] ∨ ∃ line ∈ above, ∃ attributes,
      rule.attributes? line = some attributes ∧ rule.attributesOf above = ' ' :: attributes := by
  unfold attributesOf
  split
  · next attributes found =>
    obtain ⟨line, there, given⟩ := Option.bind_eq_some_iff.mp found
    unfold blockAttributes
    split
    · exact .inl rfl
    · exact .inr ⟨line, there, attributes, given, rfl⟩
  · exact .inl rfl

/-- The attributes of a block hold what its attribute line holds. -/
theorem not_mem_attributesOf {c : Char} (blank : c ≠ ' ') {above : Option Text}
    (given : ∀ line attributes, rule.attributes? line = some attributes →
      attributeLine? line = some attributes)
    (absent : ∀ line ∈ above, c ∉ line) : c ∉ rule.attributesOf above := by
  obtain none | ⟨line, there, attributes, found, written⟩ :=
    rule.eq_nil_or_exists_attributesOf above
  · rw [none]
    exact List.not_mem_nil
  · have part := infix_of_attributeLine (given line attributes found)
    rw [written, List.mem_cons, not_or]
    exact ⟨blank, fun member => absent line there (part.subset member)⟩

/-- Where no block begins, the first line is none on its own, and the first two are none. -/
theorem split?_eq_none (h : rule.split? (line :: rest) = none) :
    (rule.alone = true → rule.isMember line = false) ∧
      ∀ next ∈ rest.head?, ¬(rule.isMember line = true ∧ rule.isMember next = true) := by
  have few : ((line :: rest).takeWhile rule.isMember).length < rule.least := by
    by_contra enough
    simp [split?, enough] at h
  unfold least at few
  constructor
  · intro alone
    by_contra member
    rw [List.takeWhile_cons_of_pos (Bool.not_eq_false _ ▸ member), alone] at few
    simp at few
  · rintro next there ⟨member, member'⟩
    obtain ⟨more, rfl⟩ := List.head?_eq_some_iff.mp there
    rw [List.takeWhile_cons_of_pos member, List.takeWhile_cons_of_pos member', List.length_cons,
      List.length_cons] at few
    split at few <;> omega

theorem IsSound.members_ne_nil {passage : Passage} (sound : rule.IsSound passage) :
    passage.members ≠ [] := by
  cases passage with
  | single line => exact List.cons_ne_nil line []
  | block above members => exact List.ne_nil_of_length_pos (rule.least_pos.trans_le sound.1)

theorem IsLayout.mem_lines (layout : rule.IsLayout lines passages) {passage : Passage}
    (member : passage ∈ passages) (inside : line ∈ passage.source) : line ∈ lines := by
  rw [← layout.source]
  exact List.mem_flatMap.mpr ⟨passage, member, inside⟩

/-- There are passages where there are lines. -/
theorem IsLayout.ne_nil (layout : rule.IsLayout lines passages) (some : lines ≠ []) :
    passages ≠ [] := by
  rintro rfl
  exact some layout.source.symm

theorem Cuts.source (h : rule.Cuts lines passages) : passages.flatMap Passage.source = lines := by
  induction h with
  | nil => rfl
  | single none free later ih => exact congrArg (_ :: ·) ih
  | block found later ih =>
    rw [(split?_eq_some found).1, List.flatMap_cons, ih]
    rfl
  | headed none above found later ih =>
    rw [(split?_eq_some found).1, List.flatMap_cons, ih]
    rfl

theorem Cuts.sound (h : rule.Cuts lines passages) : ∀ passage ∈ passages, rule.IsSound passage := by
  induction h with
  | nil => simp
  | single none free later ih => exact List.forall_mem_cons.mpr ⟨(split?_eq_none none).1, ih⟩
  | block found later ih =>
    obtain ⟨-, enough, members, -⟩ := split?_eq_some found
    exact List.forall_mem_cons.mpr ⟨⟨enough, members, by simp⟩, ih⟩
  | headed none above found later ih =>
    obtain ⟨-, enough, members, -⟩ := split?_eq_some found
    exact List.forall_mem_cons.mpr ⟨⟨enough, members, by simpa using above⟩, ih⟩

/-- The first passage begins with the first line, and with a block only if the lines do. -/
theorem Cuts.first {passage : Passage} (h : rule.Cuts lines (passage :: passages)) :
    passage.source.head? = lines.head? ∧
      ∀ members, passage = .block none members → rule.split? lines ≠ none := by
  have source := h.source
  cases h with
  | single none free later => exact ⟨rfl, nofun⟩
  | @block _ members after _ found later =>
    refine ⟨?_, fun _ _ => by simp [found]⟩
    obtain ⟨split, enough, -⟩ := split?_eq_some found
    obtain ⟨first, more, rfl⟩ := List.exists_cons_of_length_pos (least_pos rule |>.trans_le enough)
    rw [split]
    rfl
  | headed none above found later => exact ⟨rfl, nofun⟩

/-- A block ends where the lines behind it do not go on with it. -/
theorem Cuts.apart_block {above : Option Text} {next : Passage}
    (found : rule.split? lines = some (members, after))
    (later : rule.Cuts after (next :: passages)) : rule.Apart (.block above members) next := by
  obtain ⟨-, enough, isMember, ends⟩ := split?_eq_some found
  obtain ⟨first, -⟩ := later.first
  have some : members ≠ [] := List.ne_nil_of_length_pos (least_pos rule |>.trans_le enough)
  intro last there
  rw [Passage.source, List.getLast?_append_of_ne_nil _ some] at there
  have inside := isMember last (List.mem_of_getLast? there)
  refine ⟨fun begins here both => ?_, ?_⟩
  · rw [first] at here
    exact absurd both.2 (by simp [ends begins here])
  · -- A block without attributes would begin with a line that goes on with this one.
    rintro members' rfl
    obtain ⟨enough', isMember', -⟩ := later.sound _ List.mem_cons_self
    obtain ⟨begins, more, rfl⟩ :=
      List.exists_cons_of_length_pos (least_pos rule |>.trans_le enough')
    have outside := ends begins (first ▸ rfl)
    rw [isMember' begins List.mem_cons_self] at outside
    exact absurd outside (by decide)

/-- Passages that are found one after the other do not go on into each other: a run is taken to its
end, and a line is only left single if no block begins with it. -/
theorem Cuts.apart (h : rule.Cuts lines passages) : passages.IsChain rule.Apart := by
  induction h with
  | nil => exact List.isChain_nil
  | @single line rest _ none free later ih =>
    refine List.isChain_cons.mpr ⟨fun next there => ?_, ih⟩
    obtain ⟨more, rfl⟩ := List.head?_eq_some_iff.mp there
    obtain ⟨first, begins⟩ := later.first
    intro last same
    obtain rfl : line = last := Option.some.inj same
    exact ⟨fun begins here => (split?_eq_none none).2 begins (first ▸ here),
      fun members block => free.resolve_right (begins members block)⟩
  | block found later ih =>
    refine List.isChain_cons.mpr ⟨fun next there => ?_, ih⟩
    obtain ⟨more, rfl⟩ := List.head?_eq_some_iff.mp there
    exact later.apart_block found
  | headed none above found later ih =>
    refine List.isChain_cons.mpr ⟨fun next there => ?_, ih⟩
    obtain ⟨more, rfl⟩ := List.head?_eq_some_iff.mp there
    exact later.apart_block found

/-- Blocks that are found one after the other are as long as they can be. -/
theorem Cuts.isLayout (h : rule.Cuts lines passages) : rule.IsLayout lines passages :=
  ⟨h.source, h.sound, h.apart⟩

/-! ## There is only one layout -/

/-- A run of members in front of another line is split off as a whole. -/
theorem split?_append (enough : rule.least ≤ members.length)
    (inside : ∀ line ∈ members, rule.isMember line = true)
    (ends : ∀ first ∈ after.head?, rule.isMember first = false) :
    rule.split? (members ++ after) = some (members, after) := by
  have taken : after.takeWhile rule.isMember = [] := by
    cases after with
    | nil => rfl
    | cons first after => exact List.takeWhile_cons_of_neg (by simp [ends first rfl])
  have dropped : after.dropWhile rule.isMember = after := by
    cases after with
    | nil => rfl
    | cons first after => exact List.dropWhile_cons_of_neg (by simp [ends first rfl])
  unfold split?
  dsimp only
  rw [List.takeWhile_append_of_pos inside, List.dropWhile_append_of_pos inside, taken, dropped,
    List.append_nil, if_neg (Nat.not_lt.mpr enough)]

/-- Nothing is split off at a line that is no member, or that has no second member behind it where a
block needs two. -/
theorem split?_cons_eq_none (single : rule.alone = true → rule.isMember line = false)
    (ends : ∀ first ∈ rest.head?, ¬(rule.isMember line = true ∧ rule.isMember first = true)) :
    rule.split? (line :: rest) = none := by
  refine if_pos ?_
  by_cases member : rule.isMember line = true
  · have pair : rule.least = 2 := if_neg fun alone => by simp [single alone] at member
    have stops : rest.takeWhile rule.isMember = [] := by
      cases rest with
      | nil => rfl
      | cons first rest =>
        exact List.takeWhile_cons_of_neg fun other => ends first rfl ⟨member, other⟩
    rw [pair, List.takeWhile_cons_of_pos member, stops]
    exact Nat.one_lt_two
  · rw [List.takeWhile_cons_of_neg member]
    exact rule.least_pos

theorem split?_nil : rule.split? [] = none := if_pos rule.least_pos

/-- The passages of lines are found in one way only, by induction along the first of two ways. -/
theorem Cuts.unique {passages' : List Passage} (h : rule.Cuts lines passages)
    (h' : rule.Cuts lines passages') : passages = passages' := by
  induction h generalizing passages' with
  | nil =>
    cases h' with
    | nil => rfl
    | block found => simp [split?_nil] at found
  | single none free later ih =>
    cases h' with
    | single none' free' later' => rw [ih later']
    | block found => simp [none] at found
    | headed none' above found =>
      obtain given | missing := free
      · simp [given] at above
      · simp [missing] at found
  | block found later ih =>
    cases h' with
    | nil => simp [split?_nil] at found
    | single none' => simp [none'] at found
    | block found' later' =>
      obtain ⟨rfl, rfl⟩ := Prod.mk.inj (Option.some.inj (found.symm.trans found'))
      rw [ih later']
    | headed none' => simp [none'] at found
  | headed none above found later ih =>
    cases h' with
    | single none' free =>
      obtain given | missing := free
      · simp [given] at above
      · simp [missing] at found
    | block found' => simp [none] at found'
    | headed none' above' found' later' =>
      obtain ⟨rfl, rfl⟩ := Prod.mk.inj (Option.some.inj (found.symm.trans found'))
      rw [ih later']

/-- Where a block begins, it is found first. -/
theorem Cuts.head?_eq_block (h : rule.Cuts lines passages)
    (found : rule.split? lines = some (members, after)) :
    passages.head? = some (.block none members) := by
  cases h with
  | nil => simp [split?_nil] at found
  | single none => simp [none] at found
  | block found' =>
    obtain ⟨rfl, -⟩ := Prod.mk.inj (Option.some.inj (found.symm.trans found'))
    rfl
  | headed none => simp [none] at found

theorem IsSound.source_ne_nil {passage : Passage} (sound : rule.IsSound passage) :
    passage.source ≠ [] := by
  cases passage with
  | single line => exact List.cons_ne_nil line []
  | block above members => exact List.append_ne_nil_of_right_ne_nil _ sound.members_ne_nil

/-- Lines that are cut into passages begin as the first of these does. -/
theorem head?_flatMap_source (sound : ∀ passage ∈ passages, rule.IsSound passage) :
    (passages.flatMap Passage.source).head? =
      passages.head?.bind fun next => next.source.head? := by
  cases passages with
  | nil => rfl
  | cons next passages =>
    have some := (sound next List.mem_cons_self).source_ne_nil
    obtain ⟨first, more, source⟩ := List.exists_cons_of_ne_nil some
    rw [List.flatMap_cons, source]
    simp [source]

/-- A layout is what is found from the first line on. -/
theorem IsLayout.cuts (disjoint : rule.Disjoint) (layout : rule.IsLayout lines passages) :
    rule.Cuts lines passages := by
  induction passages generalizing lines with
  | nil =>
    obtain rfl := layout.source
    exact .nil
  | cons passage passages ih =>
    obtain ⟨sound, soundLater⟩ := List.forall_mem_cons.mp layout.sound
    obtain ⟨apart, apartLater⟩ := List.isChain_cons.mp layout.apart
    obtain ⟨rfl⟩ := layout.source
    have later := ih ⟨rfl, soundLater, apartLater⟩
    have head := head?_flatMap_source soundLater
    -- No block goes on into the lines behind the passage.
    have stops : ∀ last ∈ passage.source.getLast?,
        ∀ first ∈ (passages.flatMap Passage.source).head?,
          ¬(rule.isMember last = true ∧ rule.isMember first = true) := by
      intro last ends first begins
      rw [head] at begins
      obtain ⟨next, there, begins⟩ := Option.bind_eq_some_iff.mp begins
      exact (apart next there last ends).1 first begins
    rw [List.flatMap_cons]
    cases passage with
    | single line =>
      refine .single (split?_cons_eq_none sound (stops line rfl)) ?_ later
      by_contra both
      rw [not_or] at both
      obtain ⟨⟨members, after⟩, found⟩ := Option.ne_none_iff_exists'.mp both.2
      exact both.1 ((apart _ (later.head?_eq_block found) line rfl).2 members rfl)
    | block above members =>
      obtain ⟨enough, inside, given⟩ := sound
      obtain ⟨front, last, rfl⟩ := (List.eq_nil_or_concat' members).resolve_left
        (List.ne_nil_of_length_pos (rule.least_pos.trans_le enough))
      have ends : ∀ first ∈ (passages.flatMap Passage.source).head?,
          rule.isMember first = false := by
        intro first begins
        by_contra member
        exact stops last (by simp [Passage.source]) first begins
          ⟨inside last (by simp), by simpa using member⟩
      have found := split?_append enough inside ends
      cases above with
      | none => exact .block found later
      | some line =>
        have given := given line rfl
        have outside : rule.isMember line = false := by
          by_contra member
          rw [disjoint line (by simpa using member)] at given
          simp at given
        rw [Passage.source, Option.toList_some, List.singleton_append, List.cons_append]
        exact .headed (split?_cons_eq_none (fun _ => outside) (by simp [outside])) given found later

/-- Lines have one layout at most. -/
theorem IsLayout.unique (disjoint : rule.Disjoint) {passages' : List Passage}
    (h : rule.IsLayout lines passages) (h' : rule.IsLayout lines passages') :
    passages = passages' :=
  (h.cuts disjoint).unique (h'.cuts disjoint)

end BlockRule

end Stencil
