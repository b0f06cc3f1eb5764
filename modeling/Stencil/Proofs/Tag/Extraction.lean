import Stencil.Proofs.Tag.Numbering
import Stencil.Proofs.Tag.Segment

/-!
# Extraction loses nothing and misses nothing

A source falls into elements and the texts around them.  The skeleton is the source with a
placeholder in the place of each element, which tells its kind and how many of this kind there are
up to it; the table has the elements kind by kind.  Hooks change what is stored, but neither where
the source is cut nor the skeleton.

What is left in the texts around is there for a reason (`Captured.Passed`): a place at which a name
of an element stands behind an opening bracket is passed over only if the name goes on, if no
bracket closes the tag, or if the element needs a closing tag and there is none.  `extract_lossless`
puts both together.
-/

namespace Stencil

variable {hooks : TagHooks} {table : TagTable} {tags : List Captured}

namespace Text

variable {α : Type} {read : Reader α} {before : Option Char} {skip : Nat} {s : Text}

theorem weave_scanFrom (read : Reader α) (before : Option Char) (skip : Nat) (s : Text) :
    weave (around (scanFrom read before skip s)) (foundSources (scanFrom read before skip s)) =
      s.drop skip := by
  rw [weave_foundSources, sources_scanFrom]

theorem around_eq_cons (pieces : List (Piece α)) : ∃ first rest, around pieces = first :: rest :=
  ⟨_, _, rfl⟩

theorem around_plain {pieces : List (Piece α)} {first : Text} {rest : List Text}
    (h : around pieces = first :: rest) (c : Char) :
    around (.plain c :: pieces) = (c :: first) :: rest := by
  obtain ⟨rfl, rfl⟩ := List.cons.inj h
  rfl

/-- A reader finds nothing at the places that lie in the texts around its finds.  What follows such
a place is the rest of its text with the finds and the texts after it. -/
theorem read_eq_none_of_around {i : Nat} {u x y : Text} {c : Char}
    (here : (around (scanFrom read before skip s))[i]? = some u) (place : u = x ++ c :: y) :
    ∃ before', read before' (c :: (y ++
      weave ([] :: (around (scanFrom read before skip s)).drop (i + 1))
        ((foundSources (scanFrom read before skip s)).drop i))) = none := by
  induction s generalizing before skip i x u with
  | nil =>
    cases i with
    | zero =>
      obtain rfl : [] = u := by simpa [scanFrom] using here
      simp at place
    | succ i => simp [scanFrom] at here
  | cons d s ih =>
    cases skip with
    | succ skip => exact ih here place
    | zero =>
      rw [scanFrom] at here ⊢
      cases found : read before (d :: s) with
      | none =>
        simp only [found] at here ⊢
        have whole := weave_scanFrom read (some d) 0 s
        have ih := @ih (some d) 0
        generalize scanFrom read (some d) 0 s = pieces at here whole ih ⊢
        obtain ⟨first, rest, cut⟩ := around_eq_cons pieces
        rw [cut] at whole
        simp only [cut] at ih
        rw [around_plain cut] at here ⊢
        rw [foundSources_plain]
        cases i with
        | succ i => exact @ih (i + 1) u x here place
        | zero =>
          obtain rfl : d :: first = u := by simpa using here
          cases x with
          | nil =>
            obtain ⟨rfl, rfl⟩ := List.cons.inj place
            refine ⟨before, ?_⟩
            simp only [List.drop_succ_cons, List.drop_zero]
            rw [append_weave, List.append_nil, whole]
            exact found
          | cons e x =>
            obtain ⟨rfl, inside⟩ := List.cons.inj place
            exact @ih 0 first x rfl inside
      | some answer =>
        simp only [found] at here ⊢
        rw [around_found] at here ⊢
        rw [foundSources_found]
        cases i with
        | zero =>
          obtain rfl : [] = u := by simpa using here
          simp at place
        | succ i => exact ih here place

end Text

namespace TagTable

/-- A table gets the elements of each kind in their order. -/
theorem entries_pushAll (hooks : TagHooks) (table : TagTable) (tags : List Captured)
    (k : TagKind) :
    (table.pushAll hooks tags).entries k =
      table.entries k ++ (tags.filter (·.kind = k)).map (·.element hooks) := by
  induction tags generalizing table with
  | nil => simp [pushAll]
  | cons tag tags ih =>
    rw [pushAll_cons, ih, entries_push, List.filter_cons]
    by_cases same : tag.kind = k
    · simp [same]
    · simp [same, Ne.symm same]

end TagTable

namespace Captured

/-- The number of an element is the count of its kind among the elements up to it. -/
theorem numbers_eq_mapIdx (hooks : TagHooks) (table : TagTable) (tags : List Captured) :
    numbers hooks table tags = (tags.map kind).mapIdx fun i k =>
      (k, table.count k + ((tags.map kind).take (i + 1)).count k) := by
  induction tags generalizing table with
  | nil => rfl
  | cons tag tags ih =>
    rw [numbers, ih, List.map_cons, List.mapIdx_cons]
    congr 1
    · simp [TagTable.count_push]
    · refine congrArg (List.mapIdx · _) ?_
      funext i k
      rw [TagTable.count_push, List.take_succ_cons, List.count_cons]
      by_cases same : k = tag.kind
      · simp [same]
        omega
      · simp [same, Ne.symm same]

/-- Why no element is taken out where a name of one is written behind an opening bracket and this
text follows. -/
inductive Passed (written s : Text) : Prop where
  /-- The name does not end there. -/
  | longer (ends : ¬endsName s)
  /-- No bracket closes the open tag. -/
  | unclosed (endless : openTagEnd? s = none)
  /-- The element needs a closing tag, and there is none behind the open tag. -/
  | unpaired {raw rest : Text} (opened : openTagEnd? s = some (raw, rest))
      (link : Text.lower written ≠ "link") (metadata : Text.lower written ≠ "meta")
      (js : Text.lower written = "js" → ¬(Attributes.parse raw).contains "src")
      (css : Text.lower written = "css" →
        ¬(Attributes.parse raw).contains "href" ∧ ¬(Attributes.parse raw).contains "src")
      (single : ∀ content closing blank more,
        rest = content ++ closing ++ blank ++ '>' :: more → (∀ c ∈ blank, isSpace c) →
          Text.lower closing ≠ "</" ++ Text.lower written)

/-- Where no closing tag is found there is none, however it is written. -/
theorem closeTag?_eq_none {name s content closing blank more : Text}
    (h : closeTag? name s = none) (split : s = content ++ closing ++ blank ++ '>' :: more)
    (spaces : ∀ c ∈ blank, isSpace c) : Text.lower closing ≠ "</" ++ name := by
  intro named
  have recognised : afterCloseTag? name (closing ++ blank ++ '>' :: more) = some more :=
    afterCloseTag?_eq_some_iff.mpr ⟨closing, blank, named, spaces, rfl⟩
  subst split
  induction content with
  | nil =>
    cases closing with
    | nil => simp [Text.lower] at named
    | cons c closing =>
      rw [closeTag?, List.nil_append, List.cons_append, List.cons_append, Text.splitWhere?] at h
      simp only [List.cons_append] at recognised
      rw [recognised] at h
      simp at h
  | cons c content ih =>
    refine ih ?_
    rw [closeTag?, List.cons_append, List.cons_append, List.cons_append, Text.splitWhere?] at h
    split at h
    · simp at h
    · exact Option.map_eq_none_iff.mp h

/-- The name of an element is read whatever follows it. -/
theorem name?_append {written : Text} (known : written.map foldLetter ∈ names) (rest : Text) :
    name? (written ++ rest) = some (Text.lower written, rest) := by
  cases found : name? (written ++ rest) with
  | none =>
    have missing := List.findSome?_eq_none_iff.mp found _ known
    rw [Text.afterFolded?_append rest rfl] at missing
    simp at missing
  | some answer =>
    obtain ⟨name, rest'⟩ := answer
    obtain ⟨written', known', rfl, split⟩ := name?_eq_some found
    -- No name begins another, so that both are as long.
    have folded := congrArg (List.map foldLetter) split
    simp only [List.map_append] at folded
    have length : written.length = written'.length := by
      simpa using congrArg List.length (Segment.eq_of_names_append known known' folded)
    obtain ⟨rfl, rfl⟩ := List.append_inj split length
    rfl

/-- The reader behind a name. -/
theorem read_named {written : Text} (known : written.map foldLetter ∈ names)
    (before : Option Char) (s : Text) :
    read before ('<' :: (written ++ s)) =
      if endsName s then
        (openTagEnd? s).bind fun (raw, rest) => ofOpenTag? (Text.lower written) raw rest
      else none := by
  cases ends : endsName s
  · simp [read, openTag?, name?_append known, ends]
  · cases opened : openTagEnd? s <;> simp [read, openTag?, name?_append known, ends, opened]

/-- Where the reader takes out nothing there is a reason for it. -/
theorem passed_of_read {written s : Text} {before : Option Char}
    (known : written.map foldLetter ∈ names)
    (h : read before ('<' :: (written ++ s)) = none) : Passed written s := by
  rw [read_named known] at h
  by_cases ends : endsName s
  · rw [if_pos ends] at h
    cases opened : openTagEnd? s with
    | none => exact .unclosed opened
    | some answer =>
      obtain ⟨raw, rest⟩ := answer
      simp only [opened, Option.bind_some] at h
      have link : Text.lower written ≠ "link" := fun same => by
        simp [ofOpenTag?_link same] at h
      have metadata : Text.lower written ≠ "meta" := fun same => by
        simp [ofOpenTag?_meta same] at h
      have js : ¬(Text.lower written = "js" ∧ (Attributes.parse raw).contains "src") :=
        fun both => by simp [ofOpenTag?_js both.1 both.2] at h
      have css : ¬(Text.lower written = "css" ∧ ((Attributes.parse raw).contains "href" ∨
          (Attributes.parse raw).contains "src")) :=
        fun both => by simp [ofOpenTag?_css both.1 both.2] at h
      rw [ofOpenTag?_paired link metadata js css, Option.map_eq_none_iff] at h
      exact .unpaired opened link metadata (fun same source => js ⟨same, source⟩)
        (fun same => not_or.mp fun source => css ⟨same, source⟩)
        fun content closing blank more split spaces => closeTag?_eq_none h split spaces
  · exact .longer ends

/-- An element behind an open tag is read by its own text. -/
theorem ofOpenTag?_self {name raw s rest : Text} {tag : Captured}
    (h : ofOpenTag? name raw s = some (tag, rest)) :
    ∃ own, s = own ++ rest ∧ ofOpenTag? name raw own = some (tag, []) := by
  have dropped (name s : Text) :
      ∃ own, s = own ++ dropCloseTag name s ∧ dropCloseTag name own = [] := by
    unfold dropCloseTag
    cases after : Text.afterFolded? Char.toLower (closingTag name) s with
    | none => exact ⟨[], rfl, rfl⟩
    | some rest =>
      obtain ⟨closing, lowered, rfl⟩ := Text.afterFolded?_eq_some after
      have alone := Text.afterFolded?_append [] lowered
      rw [List.append_nil] at alone
      exact ⟨closing, rfl, by rw [alone]; rfl⟩
  cases begins_of_ofOpenTag? h with
  | link link => exact ⟨[], rfl, ofOpenTag?_link link []⟩
  | metadata metadata => exact ⟨[], rfl, ofOpenTag?_meta metadata []⟩
  | js js source =>
    obtain ⟨own, split, alone⟩ := dropped name s
    exact ⟨own, split, by rw [ofOpenTag?_js js source, alone]⟩
  | css css source =>
    obtain ⟨own, split, alone⟩ := dropped name s
    exact ⟨own, split, by rw [ofOpenTag?_css css source, alone]⟩
  | @paired content _ link metadata js css closed =>
    obtain ⟨closing, _, split, alone⟩ := closeTag?_eq_some closed
    refine ⟨content ++ closing, split, ?_⟩
    rw [ofOpenTag?_paired link metadata js css, alone]
    rfl

/-- An element is read by its own text, which begins with a bracket. -/
theorem read_self {before : Option Char} {s rest : Text} {tag : Captured}
    (h : read before s = some (tag, rest)) :
    ∃ own, s = '<' :: own ++ rest ∧ read none ('<' :: own) = some (tag, []) := by
  obtain ⟨written, s₁, raw, s₂, known, rfl, ends, opened, captured⟩ := exists_of_read h
  obtain ⟨rfl, closes⟩ := openTagEndFrom?_eq_some opened
  obtain ⟨own, rfl, alone⟩ := ofOpenTag?_self captured
  have ends : endsName (raw ++ '>' :: own) := endsName_append ends own
  have opened : openTagEnd? (raw ++ '>' :: own) = some (raw, own) := closes own
  refine ⟨written ++ (raw ++ '>' :: own), by simp, ?_⟩
  rw [read_named known, if_pos ends, opened]
  exact alone

theorem stylesheetLink_eq (attrs : Attributes) :
    stylesheetLink attrs =
      '<' :: ("link" ++ (" rel=\"stylesheet\"" ++ ((linkAttributes attrs).print ++ ['>']))) := by
  have opening : ("<link rel=\"stylesheet\"" : Text) =
      '<' :: ("link" ++ " rel=\"stylesheet\"") := by decide
  unfold stylesheetLink
  simp only [opening, List.cons_append, List.append_assoc]

theorem openTag_eq (name raw : Text) : openTag name raw = '<' :: (name ++ (raw ++ ['>'])) := by
  rw [openTag, List.append_assoc, List.append_assoc, List.singleton_append]

theorem element_none (tag : Captured) :
    tag.element .none = tag.before ++ (tag.content ++ tag.after) := by
  rw [element, List.append_assoc]
  rfl

/-- The stored text of an element begins with an open tag that has the name of its kind, and ends
with a bracket. -/
theorem exists_element_eq {name raw s rest : Text} {tag : Captured}
    (h : ofOpenTag? name raw s = some (tag, rest)) :
    ∃ inside, tag.element .none = '<' :: (tag.kind.name ++ (inside ++ ['>'])) := by
  rw [element_none]
  cases begins_of_ofOpenTag? h with
  | link link => exact ⟨raw, by rw [openTag_eq, link, List.append_nil]; rfl⟩
  | metadata metadata => exact ⟨raw, by rw [openTag_eq, metadata, List.append_nil]; rfl⟩
  | js =>
    exact ⟨raw ++ ['>'] ++ ("</" ++ TagKind.script.name), by
      simp only [openTag_eq, closingTag, List.cons_append, List.append_assoc, List.nil_append]
      rfl⟩
  | css =>
    exact ⟨" rel=\"stylesheet\"" ++ (linkAttributes (Attributes.parse raw)).print, by
      simp only [stylesheetLink_eq, List.cons_append, List.append_assoc, List.nil_append]
      rfl⟩
  | @paired content =>
    exact ⟨raw ++ ['>'] ++ (content ++ ("</" ++ (pairedKind name).name)), by
      simp only [openTag_eq, closingTag, List.cons_append, List.append_assoc]⟩

end Captured

/-- A segment stands between brackets. -/
theorem Segment.exists_text_eq (g : Segment) : ∃ inside, g.text = '<' :: (inside ++ ['>']) := by
  rw [Segment.text, Captured.openTag_eq]
  by_cases bare : g.closing = []
  · exact ⟨g.written ++ g.raw, by simp [bare, g.content_eq_nil bare]⟩
  · have closed := g.closed.resolve_left fun unclosed => bare unclosed.2.1
    obtain ⟨tail, split, ended⟩ := Text.splitWhere?_split closed
    obtain rfl := List.append_cancel_left split
    obtain ⟨opening, blank, _, _, written⟩ := afterCloseTag?_eq_some_iff.mp ended
    exact ⟨g.written ++ g.raw ++ ['>'] ++ g.content ++ opening ++ blank, by simp [written]⟩

namespace Captured

theorem delimited_read : Reader.Delimited read ['<'] ['>'] := by
  intro before s tag rest found
  obtain ⟨g, rfl, _⟩ := read_eq_some found
  obtain ⟨inside, written⟩ := g.exists_text_eq
  exact ⟨'<', inside, '>', by simp [written], List.mem_singleton_self _, List.mem_singleton_self _⟩

/-- A skeleton has no characters but those of its source and of placeholders. -/
theorem mem_collect {hooks : TagHooks} {table : TagTable} {pieces : List (Piece Captured)}
    {c : Char} (member : c ∈ (collect hooks table pieces).1) :
    c ∈ pieces.flatMap Piece.source ∨ ∃ k n, c ∈ TagKind.placeholder k n := by
  induction pieces generalizing table with
  | nil => simp [collect] at member
  | cons piece pieces ih =>
    cases piece with
    | plain d =>
      rcases List.mem_cons.mp member with rfl | later
      · exact .inl List.mem_cons_self
      · exact (ih later).imp_left (List.mem_append_right _)
    | found source tag =>
      rcases List.mem_append.mp member with mark | later
      · exact .inr ⟨_, _, mark⟩
      · exact (ih later).imp_left (List.mem_append_right _)

theorem collect_map_plain (hooks : TagHooks) (table : TagTable) (s : Text) :
    collect hooks table (s.map .plain) = (s, table) := by
  induction s with
  | nil => rfl
  | cons c s ih => simp [collect, ih]

end Captured

/-- The elements of a source are what its segments read as, each on its own. -/
theorem forall₂_read_scanFrom (before : Option Char) (skip : Nat) (s : Text) :
    List.Forall₂ (fun e tag => e.head? = some '<' ∧ Captured.read none e = some (tag, []))
      (Text.foundSources (Text.scanFrom Captured.read before skip s))
      (Text.foundValues (Text.scanFrom Captured.read before skip s)) := by
  refine Text.forall₂_found fun source tag member => ?_
  obtain ⟨_, _, found⟩ := Text.read_of_found_mem Captured.delimited_read.cuts member
  obtain ⟨own, split, alone⟩ := Captured.read_self found
  obtain rfl := List.append_cancel_right split
  exact ⟨rfl, alone⟩

/-- A stored element begins with an open tag that has the name of its kind, and ends with a
bracket. -/
theorem exists_inside_of_mem_entries {source element : Text} {k : TagKind}
    (stored : element ∈ (extract .none source).2.entries k) :
    ∃ inside, element = '<' :: (k.name ++ (inside ++ ['>'])) := by
  rw [extract, Captured.collect_eq_weave, TagTable.entries_pushAll, TagTable.entries_empty,
    List.nil_append] at stored
  obtain ⟨tag, member, rfl⟩ := List.mem_map.mp stored
  obtain ⟨found, kind⟩ := List.mem_filter.mp member
  obtain rfl := of_decide_eq_true kind
  have of_read {tag : Captured} {e : Text} (h : Captured.read none e = some (tag, [])) :
      ∃ inside, tag.element .none = '<' :: (tag.kind.name ++ (inside ++ ['>'])) := by
    obtain ⟨_, _, _, _, -, -, -, -, captured⟩ := Captured.exists_of_read h
    exact Captured.exists_element_eq captured
  have named := (forall₂_read_scanFrom none 0 source).flip.imp
    fun tag e (h : e.head? = some '<' ∧ Captured.read none e = some (tag, [])) =>
      And.intro (of_read h.2) trivial
  exact ((List.forall₂_and_left _ _).mp named).1 tag found

theorem exists_eq_of_mem_entries {source element : Text} {k : TagKind}
    (stored : element ∈ (extract .none source).2.entries k) :
    ∃ rest, element = '<' :: (k.name ++ rest) := by
  obtain ⟨inside, element_eq⟩ := exists_inside_of_mem_entries stored
  exact ⟨inside ++ ['>'], element_eq⟩

/-- Extraction cuts every source into elements, each of which reads as such on its own, and the
texts around them, in the same way whatever the hooks.  The skeleton has a placeholder for each
element, numbered in its kind, and the table has the elements of each kind in their order.  In the
texts around there is a name of an element behind an opening bracket only where there is a reason
to pass it over. -/
theorem extract_lossless (source : Text) :
    ∃ (us es : List Text) (tags : List Captured),
      us.length = es.length + 1 ∧ source = Text.weave us es ∧
      List.Forall₂ (fun e tag => e.head? = some '<' ∧ Captured.read none e = some (tag, []))
        es tags ∧
      (∀ hooks, (extract hooks source).1 = Text.weave us ((tags.map Captured.kind).mapIdx
          fun i k => k.placeholder (((tags.map Captured.kind).take (i + 1)).count k)) ∧
        ∀ k, (extract hooks source).2.entries k =
          (tags.filter (·.kind = k)).map (·.element hooks)) ∧
      ∀ (i : Nat) (u x written y : Text), us[i]? = some u → u = x ++ '<' :: (written ++ y) →
        written.map foldLetter ∈ Captured.names →
          Captured.Passed written
            (y ++ Text.weave ([] :: us.drop (i + 1)) (es.drop i)) := by
  have readers := forall₂_read_scanFrom none 0 source
  refine ⟨Text.around (Text.scan Captured.read source),
    Text.foundSources (Text.scan Captured.read source),
    Text.foundValues (Text.scan Captured.read source), ?_, ?_, readers, fun hooks => ?_, ?_⟩
  · rw [Text.length_around, Text.length_foundSources]
  · exact (Text.weave_scan Captured.read source).symm
  · rw [extract, Captured.collect_eq_weave, Captured.numbers_eq_mapIdx]
    refine ⟨congrArg (Text.weave _) ?_, fun k => ?_⟩
    · exact List.ext_getElem (by simp) (by simp [TagTable.count])
    · simp [TagTable.entries_pushAll]
  · intro i u x written y here place known
    obtain ⟨before, nothing⟩ := Text.read_eq_none_of_around here place
    rw [List.append_assoc] at nothing
    exact Captured.passed_of_read known nothing

end Stencil
