import Mathlib.Algebra.Group.Nat.Even
import Stencil.Proofs.Tag.Extraction
import Stencil.Proofs.Tag.Reading

/-!
# Attributes written out and read back

Attributes whose names are names, and whose values leave one of the two quotes free and do not end
in a backslash that hides the closing one, are read back from the text they are written as
(`parse_print`).  The reader of open tags goes through the same text from attribute to attribute: no
bracket in it closes the tag (`openTagEnd?_print`).

The link that stands for a stylesheet shorthand is written in this way.  Read as a source it is one
element, with the attributes of the shorthand as `linked?` says.
-/

namespace Stencil

open Attributes

def trailingBackslashes (s : Text) : Nat := (s.reverse.takeWhile (· == '\\')).length

/-- An attribute that can be read back from what is written for it. -/
structure Attribute.IsPrintable (a : Attribute) : Prop where
  named : a.name ≠ []
  letters : ∀ c ∈ a.name, c ∉ [' ', '\t', '\n', '\x0c', '\r', '=', '/', '>']
  quotes : ∀ v ∈ a.value, ¬('"' ∈ v ∧ '\'' ∈ v)
  backslashes : ∀ v ∈ a.value, Even (trailingBackslashes v)

instance (a : Attribute) : Decidable a.IsPrintable :=
  decidable_of_iff (a.name ≠ [] ∧
      (∀ c ∈ a.name, c ∉ [' ', '\t', '\n', '\x0c', '\r', '=', '/', '>']) ∧
      ∀ v ∈ a.value.toList, ¬('"' ∈ v ∧ '\'' ∈ v) ∧ Even (trailingBackslashes v))
    ⟨fun ⟨named, letters, valued⟩ => ⟨named, letters,
      fun v member => (valued v (Option.mem_toList.mpr member)).1,
      fun v member => (valued v (Option.mem_toList.mpr member)).2⟩,
    fun h => ⟨h.named, h.letters, fun v member =>
      ⟨h.quotes v (Option.mem_toList.mp member), h.backslashes v (Option.mem_toList.mp member)⟩⟩⟩

/-- What the link for a stylesheet has for one of some attributes: nothing for `rel`, and `href` for
`src` unless it is there anyway. -/
def Attribute.linked? (attrs : Attributes) (a : Attribute) : Option Attribute :=
  if Text.sameLetters a.name "rel" then none
  else if Text.sameLetters a.name "src" then
    if attrs.any fun b => Text.sameLetters b.name "href" then none else some ⟨"href", a.value⟩
  else some a

section Escaped

theorem escapedAfter_concat (s : Text) (c : Char) :
    escapedAfter false (s ++ [c]) = (!escapedAfter false s && c == '\\') := by
  simp [escapedAfter]

/-- A backslash hides what follows if it is the last of an odd number of them. -/
theorem escapedAfter_eq_true_iff (s : Text) :
    escapedAfter false s = true ↔ ¬Even (trailingBackslashes s) := by
  induction s using List.reverseRecOn with
  | nil => simp [escapedAfter, trailingBackslashes]
  | append_singleton s c ih =>
    rw [escapedAfter_concat]
    by_cases backslash : c = '\\'
    · have count : trailingBackslashes (s ++ [c]) = trailingBackslashes s + 1 := by
        simp [trailingBackslashes, backslash]
      rw [count, Nat.even_add_one, ← ih]
      simp [backslash]
    · simp [trailingBackslashes, backslash]

end Escaped

section Read

variable {a : Attribute} {attrs : Attributes} {v t : Text}

/-- The quote that a value is written between. -/
def quoteFor (v : Text) : Char := if '"' ∈ v then '\'' else '"'

theorem quoteFor_eq (v : Text) : quoteFor v = '"' ∨ quoteFor v = '\'' := by
  unfold quoteFor
  split
  · exact .inr rfl
  · exact .inl rfl

theorem quoteFor_ne (v : Text) : quoteFor v ≠ '\\' := by
  rcases quoteFor_eq v with same | same <;> rw [same] <;> decide

theorem printOne_eq (a : Attribute) : printOne a = match a.value with
    | none => ' ' :: a.name
    | some v => ' ' :: (a.name ++ '=' :: quoteFor v :: (v ++ [quoteFor v])) := by
  unfold printOne quoteFor
  cases a.value with
  | none => rfl
  | some v =>
    dsimp only
    split <;> simp

namespace Attribute.IsPrintable

theorem isNameChar (h : a.IsPrintable) : ∀ c ∈ a.name, Attributes.isNameChar c = true := by
  intro c member
  have other := h.letters c member
  simp only [List.mem_cons, List.not_mem_nil, or_false, not_or] at other
  simp [Attributes.isNameChar, isTagSpace, other]

theorem quoteFor_notMem (h : a.IsPrintable) (valued : v ∈ a.value) : quoteFor v ∉ v := by
  unfold quoteFor
  split <;> rename_i double
  · exact fun single => h.quotes v valued ⟨double, single⟩
  · exact double

theorem escapedAfter_eq (h : a.IsPrintable) (valued : v ∈ a.value) :
    escapedAfter false v = false := by
  have even := h.backslashes v valued
  rw [← Bool.not_eq_true, escapedAfter_eq_true_iff, not_not]
  exact even

end Attribute.IsPrintable

/-- A name is read up to where it stops. -/
theorem readFrom_gap_name (h : a.IsPrintable)
    (stops : ∀ c ∈ t.head?, Attributes.isNameChar c = false) :
    readFrom .gap (' ' :: (a.name ++ t)) = readFrom (.inName a.name) t := by
  have name := Text.takeWhile_all h.isNameChar stops
  have rest := Text.dropWhile_all h.isNameChar stops
  rw [readFrom_gap_cons (by decide), readFrom_gap_of_name (by rw [name]; exact h.named), name, rest]

/-- A value between quotes is read up to the quote that closes it. -/
theorem outcome_inName_value (h : a.IsPrintable) (valued : v ∈ a.value) (t : Text) :
    outcome (.inName a.name) ('=' :: quoteFor v :: (v ++ quoteFor v :: t)) =
      (⟨a.name, some v⟩ :: (outcome .gap t).1, (outcome .gap t).2) := by
  have read : readValue (quoteFor v :: (v ++ quoteFor v :: t)) = (v, t) := by
    have closed := closingQuote?_append (h.quoteFor_notMem valued) (h.escapedAfter_eq valued)
      (quoteFor_ne v) t
    rw [readValue, if_pos (quoteFor_eq v), closed, Option.getD_some]
  have assigned : AttributePlace.next (.inName a.name) '=' = (none, .inValue a.name []) := rfl
  rw [outcome_cons, assigned, outcome_afterEquals, read]
  rfl

/-- One attribute is read back, whatever other attributes follow. -/
theorem outcome_printOne (h : a.IsPrintable) (others : ∀ c ∈ t.head?, c = ' ') :
    outcome .gap (printOne a ++ t) = (a :: (outcome .gap t).1, (outcome .gap t).2) := by
  obtain ⟨name, value⟩ := a
  rw [printOne_eq]
  cases value with
  | none =>
    have behind : ∀ c ∈ t.head?, Attributes.isNameChar c = false ∧ c ≠ '=' := by
      intro c first
      obtain rfl := others c first
      decide
    rw [List.cons_append, outcome_congr (readFrom_gap_name h fun c first => (behind c first).1),
      outcome_inName_of_ne name behind]
  | some v =>
    have split : ' ' :: (name ++ '=' :: quoteFor v :: (v ++ [quoteFor v])) ++ t =
        ' ' :: (name ++ '=' :: quoteFor v :: (v ++ quoteFor v :: t)) := by simp
    have stops : ∀ c ∈ ('=' :: quoteFor v :: (v ++ quoteFor v :: t)).head?,
        Attributes.isNameChar c = false := by
      rintro c ⟨⟩
      decide
    dsimp only
    rw [split, outcome_congr (readFrom_gap_name h stops), outcome_inName_value h rfl]

theorem print_cons (a : Attribute) (attrs : Attributes) :
    print (a :: attrs) = printOne a ++ print attrs := rfl

theorem head?_print (attrs : Attributes) : ∀ c ∈ attrs.print.head?, c = ' ' := by
  cases attrs with
  | nil => nofun
  | cons a attrs =>
    intro c first
    rw [print_cons, printOne_eq] at first
    cases value : a.value <;> simp_all [eq_comm]

/-- All of what is written is read, and the attributes are found again. -/
theorem readAll_print (h : ∀ a ∈ attrs, a.IsPrintable) : readAll attrs.print = (attrs, true) := by
  rw [readAll_eq_outcome]
  induction attrs with
  | nil => rfl
  | cons a attrs ih =>
    obtain ⟨here, later⟩ := List.forall_mem_cons.mp h
    rw [print_cons, outcome_printOne here (head?_print attrs), ih later]

theorem parse_print (h : ∀ a ∈ attrs, a.IsPrintable) : parse attrs.print = attrs :=
  congrArg Prod.fst (readAll_print h)

/-- A name is passed by the reader of tags. -/
theorem openTagEndFrom?_plain {s : Text} (plain : ∀ c ∈ s, c ≠ '=' ∧ c ≠ '>') (t : Text) :
    openTagEndFrom? (.outside false) (s ++ t) =
      (openTagEndFrom? (.outside false) t).map fun (raw, rest) => (s ++ raw, rest) := by
  induction s with
  | nil => simp
  | cons c s ih =>
    obtain ⟨⟨equals, bracket⟩, plain⟩ := List.forall_mem_cons.mp plain
    rw [List.cons_append, openTagEndFrom?, if_neg bracket, beq_eq_false_iff_ne.mpr equals]
    simp [ih plain, Function.comp_def]

/-- A printed attribute does not end the tag that it stands in. -/
theorem openTagEndFrom?_printOne (h : a.IsPrintable) (t : Text) :
    openTagEndFrom? (.outside false) (printOne a ++ t) =
      (openTagEndFrom? (.outside false) t).map fun (raw, rest) => (printOne a ++ raw, rest) := by
  have plain : ∀ c ∈ ' ' :: a.name, c ≠ '=' ∧ c ≠ '>' := by
    refine List.forall_mem_cons.mpr ⟨by decide, fun c member => ?_⟩
    have other := h.letters c member
    simp only [List.mem_cons, List.not_mem_nil, or_false, not_or] at other
    exact ⟨other.2.2.2.2.2.1, other.2.2.2.2.2.2.2⟩
  rw [printOne_eq]
  cases value : a.value with
  | none => exact openTagEndFrom?_plain plain t
  | some v =>
    have inside := openTagEndFrom?_quoted (h.quoteFor_notMem value) (h.escapedAfter_eq value)
      (quoteFor_ne v) t
    have opens : (quoteFor v == '"' || quoteFor v == '\'') = true := by
      simpa using quoteFor_eq v
    have bracket : quoteFor v ≠ '>' := by
      rcases quoteFor_eq v with same | same <;> rw [same] <;> decide
    have assigned : openTagEndFrom? (.outside false) ('=' :: quoteFor v :: (v ++ quoteFor v :: t)) =
        (openTagEndFrom? (.outside false) t).map fun (raw, rest) =>
          ('=' :: quoteFor v :: (v ++ quoteFor v :: raw), rest) := by
      simp [openTagEndFrom?, bracket, opens, inside, Function.comp_def]
    have split : ' ' :: (a.name ++ '=' :: quoteFor v :: (v ++ [quoteFor v])) ++ t =
        (' ' :: a.name) ++ ('=' :: quoteFor v :: (v ++ quoteFor v :: t)) := by simp
    dsimp only
    rw [split, openTagEndFrom?_plain plain, assigned]
    simp [Function.comp_def]

/-- No bracket in printed attributes closes the tag. -/
theorem openTagEnd?_print (h : ∀ a ∈ attrs, a.IsPrintable) (t : Text) :
    openTagEnd? (attrs.print ++ '>' :: t) = some (attrs.print, t) := by
  unfold openTagEnd?
  induction attrs with
  | nil => rfl
  | cons a attrs ih =>
    obtain ⟨here, later⟩ := List.forall_mem_cons.mp h
    rw [print_cons, List.append_assoc, openTagEndFrom?_printOne here, ih later]
    rfl

end Read

namespace Captured

variable {attrs : Attributes}

theorem contains_eq_any (attrs : Attributes) (name : Text) :
    attrs.contains name = attrs.any fun b => Text.sameLetters b.name name := by
  rw [Attributes.contains, Attributes.get?, Option.isSome_map, Bool.eq_iff_iff, List.find?_isSome,
    List.any_eq_true]

theorem linkAttributes_eq (attrs : Attributes) :
    linkAttributes attrs = attrs.filterMap (Attribute.linked? attrs) := by
  rw [linkAttributes, ← List.filterMap_eq_map, List.filterMap_filter]
  refine List.filterMap_congr fun a _ => ?_
  rw [Attribute.linked?, contains_eq_any, Function.comp_apply]
  generalize (attrs.any fun b => Text.sameLetters b.name "href") = known
  cases Text.sameLetters a.name "rel" <;> cases Text.sameLetters a.name "src" <;>
    cases known <;> rfl

theorem isPrintable_linked {a b : Attribute} (h : a.IsPrintable)
    (linked : a.linked? attrs = some b) : b.IsPrintable := by
  have href : ("href" : Text) ≠ [] ∧
      ∀ c ∈ ("href" : Text), c ∉ [' ', '\t', '\n', '\x0c', '\r', '=', '/', '>'] := by decide
  unfold Attribute.linked? at linked
  split_ifs at linked
  · obtain rfl := Option.some.inj linked
    exact ⟨href.1, href.2, h.quotes, h.backslashes⟩
  · obtain rfl := Option.some.inj linked
    exact h

/-- What makes a link one for a stylesheet. -/
def stylesheetRel : Attribute := ⟨"rel", some "stylesheet"⟩

theorem isPrintable_stylesheetRel : stylesheetRel.IsPrintable := by decide

theorem stylesheetLink_eq_print (attrs : Attributes) : stylesheetLink attrs =
    '<' :: ("link" ++ (print (stylesheetRel :: linkAttributes attrs) ++ ['>'])) := by
  rw [stylesheetLink_eq, print_cons]
  rfl

/-- The link for a stylesheet is one element of a source, and its attributes are read back. -/
theorem read_stylesheetLink (h : ∀ a ∈ attrs, a.IsPrintable) (before : Option Char) (t : Text) :
    read before (stylesheetLink attrs ++ t) =
      some (⟨.link, stylesheetRel :: attrs.filterMap (Attribute.linked? attrs), [],
        stylesheetLink attrs, []⟩, t) := by
  have printable : ∀ a ∈ stylesheetRel :: linkAttributes attrs, a.IsPrintable := by
    refine List.forall_mem_cons.mpr ⟨isPrintable_stylesheetRel, fun b member => ?_⟩
    rw [linkAttributes_eq] at member
    obtain ⟨a, inside, linked⟩ := List.mem_filterMap.mp member
    exact isPrintable_linked (h a inside) linked
  have split : stylesheetLink attrs ++ t = '<' :: ("link" ++
      (print (stylesheetRel :: linkAttributes attrs) ++ '>' :: t)) := by
    rw [stylesheetLink_eq_print]
    simp
  have ends : endsName (print (stylesheetRel :: linkAttributes attrs) ++ '>' :: t) = true := rfl
  have named : Text.lower ("link" : Text) = "link" := by decide
  rw [split, read_named (by decide), if_pos ends, openTagEnd?_print printable, Option.bind_some]
  dsimp only
  rw [ofOpenTag?_link named, parse_print printable, stylesheetLink_eq_print, openTag_eq,
    linkAttributes_eq, named]

/-- A stylesheet shorthand that says where the stylesheet is becomes the link for it. -/
theorem read_css {written raw s : Text} (css : Text.lower written = "css")
    (ends : endsName (raw ++ '>' :: s)) (opened : openTagEnd? (raw ++ '>' :: s) = some (raw, s))
    (source : (parse raw).contains "href" ∨ (parse raw).contains "src") (before : Option Char) :
    ∃ rest, read before ('<' :: (written ++ (raw ++ '>' :: s))) =
      some (⟨.link, parse raw, [], stylesheetLink (parse raw), []⟩, rest) := by
  have spelled : ¬Misspelled written := fun misspelled =>
    lower_notMem_names misspelled (css ▸ by decide)
  have known : written.map foldLetter ∈ names := by
    rw [← lower_of_not_misspelled spelled, css]
    decide
  refine ⟨dropCloseTag (Text.lower written) s, ?_⟩
  rw [read_named known, if_pos ends, opened, Option.bind_some]
  exact ofOpenTag?_css css source s

end Captured

/-- Attributes that can be printed are read back, and the tag they are printed in ends behind them,
whatever follows.  A stylesheet shorthand with such attributes becomes an element that is read, in
its turn, as a link with the attributes that the shorthand stands for. -/
theorem attributes_print {attrs : Attributes} (printable : ∀ a ∈ attrs, a.IsPrintable) :
    parse attrs.print = attrs ∧
      (∀ s, openTagEnd? (attrs.print ++ '>' :: s) = some (attrs.print, s)) ∧
      ∀ written raw s, Text.lower written = "css" → Captured.endsName (raw ++ '>' :: s) →
        openTagEnd? (raw ++ '>' :: s) = some (raw, s) → parse raw = attrs →
        (attrs.any fun a => Text.sameLetters a.name "href" || Text.sameLetters a.name "src") →
        ∀ before, ∃ tag rest,
          Captured.read before ('<' :: (written ++ (raw ++ '>' :: s))) = some (tag, rest) ∧
          ∀ before t, Captured.read before (tag.element .none ++ t) =
            some (⟨.link, ⟨"rel", some "stylesheet"⟩ :: attrs.filterMap (Attribute.linked? attrs),
              [], tag.element .none, []⟩, t) := by
  refine ⟨parse_print printable, openTagEnd?_print printable, ?_⟩
  rintro written raw s css ends opened rfl source before
  have source : (parse raw).contains "href" ∨ (parse raw).contains "src" := by
    simp only [List.any_eq_true, Bool.or_eq_true, and_or_left, exists_or] at source
    simpa only [Captured.contains_eq_any, List.any_eq_true] using source
  obtain ⟨rest, read⟩ := Captured.read_css css ends opened source before
  refine ⟨_, rest, read, fun before t => ?_⟩
  have element : Captured.element .none
      ⟨.link, parse raw, [], Captured.stylesheetLink (parse raw), []⟩ =
      Captured.stylesheetLink (parse raw) := by
    simp [Captured.element_none]
  rw [element]
  exact Captured.read_stylesheetLink printable before t

/-- Attributes with a bracket, both quotes and backslashes in their values. -/
def mixedAttributes : Attributes :=
  [⟨"REL", some "x"⟩, ⟨"data-a", some "b > \"\\\" \\\\"⟩, ⟨"'", none⟩, ⟨"SRC", some "it's.css"⟩]

theorem attributes_print_mixed :
    (∀ a ∈ mixedAttributes, a.IsPrintable) ∧ parse mixedAttributes.print = mixedAttributes ∧
      (∀ s, openTagEnd? (mixedAttributes.print ++ '>' :: s) = some (mixedAttributes.print, s)) ∧
      ∃ tag rest,
        Captured.read none ("<CSS" ++ (mixedAttributes.print ++ "></css>text")) =
          some (tag, rest) ∧
        ∀ before t, Captured.read before (tag.element .none ++ t) =
          some (⟨.link, [⟨"rel", some "stylesheet"⟩, ⟨"data-a", some "b > \"\\\" \\\\"⟩,
            ⟨"'", none⟩, ⟨"href", some "it's.css"⟩], [], tag.element .none, []⟩, t) := by
  have printable : ∀ a ∈ mixedAttributes, a.IsPrintable := by decide
  obtain ⟨parsed, ends, shorthand⟩ := attributes_print printable
  have linked : mixedAttributes.filterMap (Attribute.linked? mixedAttributes) =
      [⟨"data-a", some "b > \"\\\" \\\\"⟩, ⟨"'", none⟩, ⟨"href", some "it's.css"⟩] := by decide
  rw [linked] at shorthand
  exact ⟨printable, parsed, ends, shorthand "CSS" mixedAttributes.print "</css>text" (by decide)
    (by decide) (ends _) parsed (by decide) none⟩

end Stencil
