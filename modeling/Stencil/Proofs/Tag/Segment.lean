import Stencil.Proofs.Html.Element
import Stencil.Proofs.Text.Local
import Stencil.Tag.Extract

/-!
# The elements that are taken out, as they stand in a source

A segment of a source is an element that extraction takes out: an open tag under one of six names,
and perhaps content and a closing tag.  Its canonical form is the element that it stands for, in the
spelling that a page has it in.  `read_eq_some` shows what is stored for a segment: its canonical
form, but a style element if the name is spelled with a long s or a Kelvin sign.
-/

namespace Stencil

namespace Text

theorem splitWhere?_self {after : Text → Option Text} {s : Text} (h : after s = some []) :
    splitWhere? after s = some ([], []) := by
  cases s with
  | nil => simp [splitWhere?, h]
  | cons c s => simp [splitWhere?, h]

/-- A split at the first place that is recognised depends on nothing behind what is recognised. -/
theorem splitWhere?_eq_some {after : Text → Option Text}
    (extend : ∀ s rest, after s = some rest → ∀ more, after (s ++ more) = some (rest ++ more))
    (exact : ∀ s rest, after s = some rest → ∃ found, s = found ++ rest ∧ after found = some [])
    {s before rest : Text} (h : splitWhere? after s = some (before, rest)) :
    ∃ found, s = before ++ found ++ rest ∧ after found = some [] ∧
      splitWhere? after (before ++ found) = some (before, []) := by
  have here {s rest : Text} (h : after s = some rest) :
      ∃ found, s = [] ++ found ++ rest ∧ after found = some [] ∧
        splitWhere? after ([] ++ found) = some ([], []) := by
    obtain ⟨found, split, all⟩ := exact s rest h
    exact ⟨found, split, all, splitWhere?_self all⟩
  induction s generalizing before with
  | nil =>
    obtain ⟨rest', recognised, same⟩ := Option.map_eq_some_iff.mp h
    obtain ⟨rfl, rfl⟩ := Prod.mk.inj same
    exact here recognised
  | cons c s ih =>
    rw [splitWhere?] at h
    cases recognised : after (c :: s) with
    | some rest' =>
      rw [recognised] at h
      obtain ⟨rfl, rfl⟩ := Prod.mk.inj (Option.some.inj h)
      exact here recognised
    | none =>
      rw [recognised] at h
      obtain ⟨⟨before', rest'⟩, split, same⟩ := Option.map_eq_some_iff.mp h
      obtain ⟨rfl, rfl⟩ := Prod.mk.inj same
      obtain ⟨found, rfl, all, again⟩ := ih split
      -- Nothing is recognised earlier in the shorter text, or it would be in the longer one.
      have earlier : after (c :: (before' ++ found)) = none := by
        cases early : after (c :: (before' ++ found)) with
        | none => rfl
        | some rest =>
          have late := extend _ _ early rest'
          rw [List.cons_append, recognised] at late
          simp at late
      exact ⟨found, rfl, all, by simp [splitWhere?, earlier, again]⟩

end Text

/-- The bracket that closes an open tag is found by the text up to it. -/
theorem openTagEndFrom?_eq_some {place : TagPlace} {s raw rest : Text}
    (h : openTagEndFrom? place s = some (raw, rest)) :
    s = raw ++ '>' :: rest ∧
      ∀ more, openTagEndFrom? place (raw ++ '>' :: more) = some (raw, more) := by
  fun_induction openTagEndFrom? place s generalizing raw with
  | case1 place => simp at h
  | case2 afterEquals s =>
    obtain ⟨rfl, rfl⟩ := Prod.mk.inj (Option.some.inj h)
    exact ⟨rfl, fun _ => rfl⟩
  | case3 afterEquals c s other next =>
    rename_i ih
    obtain ⟨⟨raw, rest'⟩, split, same⟩ := Option.map_eq_some_iff.mp h
    obtain ⟨rfl, rfl⟩ := Prod.mk.inj same
    obtain ⟨rfl, again⟩ := ih split
    refine ⟨rfl, fun more => ?_⟩
    rw [List.cons_append, openTagEndFrom?, if_neg other]
    exact congrArg (Option.map _) (again more)
  | case4 quote c s ih =>
    obtain ⟨⟨raw, rest'⟩, split, same⟩ := Option.map_eq_some_iff.mp h
    obtain ⟨rfl, rfl⟩ := Prod.mk.inj same
    obtain ⟨rfl, again⟩ := ih split
    exact ⟨rfl, fun more => by simp [openTagEndFrom?, again]⟩
  | case5 quote c s unescaped next =>
    rename_i ih
    obtain ⟨⟨raw, rest'⟩, split, same⟩ := Option.map_eq_some_iff.mp h
    obtain ⟨rfl, rfl⟩ := Prod.mk.inj same
    obtain ⟨rfl, again⟩ := ih split
    refine ⟨rfl, fun more => ?_⟩
    rw [List.cons_append, openTagEndFrom?]
    · exact congrArg (Option.map _) (again more)
    -- A backslash at the end of the text would have no bracket behind it.
    · intro _ _ escape _
      cases raw with
      | nil => exact unescaped _ _ escape rfl
      | cons d raw => exact unescaped _ _ escape rfl

/-- A closing tag is its name behind the bracket and the slash, in letters of either case, and
perhaps white space before the closing bracket. -/
theorem afterCloseTag?_eq_some_iff {name s rest : Text} :
    afterCloseTag? name s = some rest ↔
      ∃ opening blank, Text.lower opening = "</" ++ name ∧ (∀ c ∈ blank, isSpace c) ∧
        s = opening ++ blank ++ '>' :: rest := by
  constructor
  · intro h
    rw [afterCloseTag?] at h
    split at h
    case h_1 rest₁ folded =>
      obtain ⟨opening, lowered, rfl⟩ := Text.afterFolded?_eq_some folded
      refine ⟨opening, rest₁.takeWhile isSpace, lowered,
        fun c member => List.all_eq_true.mp List.all_takeWhile c member, ?_⟩
      have behind : rest₁.dropWhile isSpace = '>' :: rest := Text.after?_eq_some h
      rw [List.append_assoc, ← behind, List.takeWhile_append_dropWhile]
    case h_2 => simp at h
  · rintro ⟨opening, blank, lowered, spaces, rfl⟩
    have behind : Text.trimStart (blank ++ '>' :: rest) = '>' :: rest := by
      rw [Text.trimStart, List.dropWhile_append_of_pos spaces]
      rfl
    rw [List.append_assoc, afterCloseTag?, Text.afterFolded?_append _ lowered]
    simp [behind, Text.after?]

/-- An element ends at a closing tag, and the text up to there is enough to say so. -/
theorem closeTag?_eq_some {name s content rest : Text}
    (h : closeTag? name s = some (content, rest)) :
    ∃ closing, closing ≠ [] ∧ s = content ++ closing ++ rest ∧
      closeTag? name (content ++ closing) = some (content, []) := by
  have extend (s rest : Text) (h : afterCloseTag? name s = some rest) (more : Text) :
      afterCloseTag? name (s ++ more) = some (rest ++ more) := by
    obtain ⟨opening, blank, lowered, spaces, rfl⟩ := afterCloseTag?_eq_some_iff.mp h
    exact afterCloseTag?_eq_some_iff.mpr ⟨opening, blank, lowered, spaces, by simp⟩
  have exact (s rest : Text) (h : afterCloseTag? name s = some rest) :
      ∃ closing, s = closing ++ rest ∧ afterCloseTag? name closing = some [] := by
    obtain ⟨opening, blank, lowered, spaces, rfl⟩ := afterCloseTag?_eq_some_iff.mp h
    refine ⟨opening ++ blank ++ ['>'], by simp, ?_⟩
    exact afterCloseTag?_eq_some_iff.mpr ⟨opening, blank, lowered, spaces, rfl⟩
  obtain ⟨closing, split, all, again⟩ := Text.splitWhere?_eq_some extend exact h
  refine ⟨closing, ?_, split, again⟩
  rintro rfl
  simp [afterCloseTag?, Text.afterFolded?] at all

/-- Whether a name is spelled with a letter that goes by another one and has no other case. -/
def Misspelled (written : Text) : Prop := '\u017f' ∈ written ∨ '\u212a' ∈ written

instance (written : Text) : Decidable (Misspelled written) := inferInstanceAs (Decidable (_ ∨ _))

theorem lower_of_not_misspelled {written : Text} (h : ¬Misspelled written) :
    Text.lower written = written.map foldLetter := by
  obtain ⟨noLongS, noKelvin⟩ := not_or.mp h
  refine List.map_congr_left fun c member => ?_
  have s : c ≠ '\u017f' := fun same => noLongS (same ▸ member)
  have k : c ≠ '\u212a' := fun same => noKelvin (same ▸ member)
  simp [foldLetter, s, k]

theorem lower_notMem_names {written : Text} (h : Misspelled written) :
    Text.lower written ∉ Captured.names := by
  have letters : ∀ name ∈ Captured.names, '\u017f' ∉ name ∧ '\u212a' ∉ name := by decide
  intro known
  obtain ⟨noLongS, noKelvin⟩ := letters _ known
  rcases h with longS | kelvin
  · exact noLongS (List.mem_map.mpr ⟨'\u017f', longS, by decide⟩)
  · exact noKelvin (List.mem_map.mpr ⟨'\u212a', kelvin, by decide⟩)

/-- An element that is taken out of a source, as it stands there. -/
structure Segment where
  /-- The name as written. -/
  written : Text
  /-- The text between the name and the bracket that closes the open tag. -/
  raw : Text
  content : Text
  /-- The closing tag as written, or nothing. -/
  closing : Text
  named : written.map foldLetter ∈ Captured.names
  ends : Captured.endsName (raw ++ ['>'])
  opened : openTagEnd? (raw ++ ['>']) = some (raw, [])
  /-- A script or a style ends at its closing tag, others may go without one. -/
  closed : content = [] ∧ closing = [] ∧
      Text.lower written ∈ (["link", "meta", "js", "css"] : List Text) ∨
    closeTag? (Text.lower written) (content ++ closing) = some (content, [])

namespace Segment

def text (g : Segment) : Text := Captured.openTag g.written g.raw ++ g.content ++ g.closing

def name (g : Segment) : Text := g.written.map foldLetter

def attrs (g : Segment) : Attributes := Attributes.parse g.raw

/-- The element with the attributes and the content of a segment, under a name. -/
def element (g : Segment) (name : Text) : Text :=
  Captured.openTag name g.raw ++ g.content ++ Captured.closingTag name

/-- Whether a segment says where its content comes from, as a stylesheet may. -/
def HasSource (g : Segment) : Prop := g.attrs.contains "href" ∨ g.attrs.contains "src"

instance (g : Segment) : Decidable g.HasSource := inferInstanceAs (Decidable (_ ∨ _))

/-- The element that a segment stands for, with its name in lower case and its closing tag without
white space.  A `js` is a script, a `css` is a stylesheet: the link to one, or a style. -/
def canonical (g : Segment) : Text :=
  if g.name = "js" then g.element "script"
  else if g.name = "css" then
    if g.HasSource then Captured.stylesheetLink g.attrs else g.element "style"
  else if g.closing = [] then Captured.openTag g.name g.raw
  else g.element g.name

/-- Whether a name is spelled so that the element is taken for another one, which is a style. -/
def Misread (g : Segment) : Prop :=
  Misspelled g.written ∧ g.name ≠ "style" ∧ (g.name = "css" → g.HasSource)

def stored (g : Segment) : Text := if Misspelled g.written then g.element "style" else g.canonical

/-- A script, style, link or meta element in lower case, whose closing tag, if any, is exact. -/
structure Plain (g : Segment) : Prop where
  lower : g.written ∈ TagKind.all.map TagKind.name
  exact : g.closing = [] ∨ g.closing = Captured.closingTag g.written

/-- No name of an element begins another: their first two letters differ. -/
theorem eq_of_names_append {m n s t : Text} (hm : m ∈ Captured.names) (hn : n ∈ Captured.names)
    (h : m ++ s = n ++ t) : m = n := by
  have long : ∀ name ∈ Captured.names, 2 ≤ name.length := by decide
  have differ : ∀ m ∈ Captured.names, ∀ n ∈ Captured.names, m.take 2 = n.take 2 → m = n := by
    decide
  have letters := congrArg (List.take 2) h
  rw [List.take_append_of_le_length (long m hm), List.take_append_of_le_length (long n hn)]
    at letters
  exact differ m hm n hn letters

theorem closeTag?_nil (name content : Text) : closeTag? name [] ≠ some (content, []) := by
  intro h
  obtain ⟨closing, nonempty, split, _⟩ := closeTag?_eq_some h
  simp [nonempty] at split

/-- A text is that of one segment at most. -/
theorem text_injective {g h : Segment} (same : g.text = h.text) : g = h := by
  obtain ⟨written, raw, content, closing, named, ends, opened, closed⟩ := g
  obtain ⟨written', raw', content', closing', named', ends', opened', closed'⟩ := h
  have texts : written ++ (raw ++ '>' :: (content ++ closing)) =
      written' ++ (raw' ++ '>' :: (content' ++ closing')) := by
    simpa [text, Captured.openTag] using same
  have folded := congrArg (List.map foldLetter) texts
  simp only [List.map_append] at folded
  have length : written.length = written'.length := by
    simpa using congrArg List.length (eq_of_names_append named named' folded)
  obtain ⟨rfl, behind⟩ := List.append_inj texts length
  -- Under the same name the open tags end at the same bracket.
  have tags := (openTagEndFrom?_eq_some opened).2 (content ++ closing)
  rw [behind, (openTagEndFrom?_eq_some opened').2] at tags
  obtain ⟨rfl, rests⟩ := Prod.mk.inj (Option.some.inj tags)
  rcases closed with ⟨rfl, rfl, _⟩ | closed
  · rcases closed' with ⟨rfl, rfl, _⟩ | closed'
    · rfl
    · rw [rests] at closed'
      exact absurd closed' (closeTag?_nil _ _)
  · rcases closed' with ⟨rfl, rfl, _⟩ | closed'
    · rw [← rests] at closed
      exact absurd closed (closeTag?_nil _ _)
    · rw [rests, closed] at closed'
      obtain ⟨rfl, _⟩ := Prod.mk.inj (Option.some.inj closed')
      obtain rfl := List.append_cancel_left rests
      rfl

theorem closing_ne_nil_of_closeTag {g : Segment}
    (h : closeTag? (Text.lower g.written) (g.content ++ g.closing) = some (g.content, [])) :
    g.closing ≠ [] := by
  obtain ⟨closing, nonempty, same, _⟩ := closeTag?_eq_some h
  have : g.closing = closing := by simpa using same
  exact this ▸ nonempty

theorem content_eq_nil {g : Segment} (h : g.closing = []) : g.content = [] := by
  rcases g.closed with ⟨content, _, _⟩ | split
  · exact content
  · exact absurd h (closing_ne_nil_of_closeTag split)

theorem closing_ne_nil {g : Segment}
    (h : Text.lower g.written ∉ (["link", "meta", "js", "css"] : List Text)) : g.closing ≠ [] := by
  rcases g.closed with ⟨_, _, known⟩ | split
  · exact absurd known h
  · exact closing_ne_nil_of_closeTag split

theorem closing_ne_nil_of_misspelled {g : Segment} (h : Misspelled g.written) : g.closing ≠ [] := by
  have known : ∀ name ∈ (["link", "meta", "js", "css"] : List Text), name ∈ Captured.names := by
    decide
  exact closing_ne_nil fun member => lower_notMem_names h (known _ member)

/-- The stored text is the canonical one unless the name is taken for another. -/
theorem stored_eq_canonical {g : Segment} (h : ¬g.Misread) : g.stored = g.canonical := by
  unfold stored
  split
  case isFalse => rfl
  case isTrue misspelled =>
    have nonempty := closing_ne_nil_of_misspelled misspelled
    by_cases style : g.name = "style"
    · simp [canonical, style, nonempty]
    · have css : g.name = "css" ∧ ¬g.HasSource := by
        simpa only [Misread, misspelled, style, true_and, not_false_eq_true, ne_eq,
          Classical.not_imp] using h
      simp [canonical, css]

/-- What is stored for a misread segment differs from its canonical form at the start. -/
theorem Misread.append_ne {g : Segment} (h : g.Misread) (s t : Text) :
    g.stored ++ s ≠ g.canonical ++ t := by
  obtain ⟨misspelled, style, css⟩ := h
  have nonempty := closing_ne_nil_of_misspelled misspelled
  have named : g.name ∈ Captured.names := g.named
  simp only [Captured.names, List.mem_cons, List.not_mem_nil, or_false, style, false_or] at named
  rw [stored, if_pos misspelled]
  -- One begins with the letters of a style, the other with those of its own name or of a link.
  rcases named with script | link | metadata | js | sheet
  · simp [canonical, script, nonempty, element, Captured.openTag]
  · simp [canonical, link, nonempty, element, Captured.openTag]
  · simp [canonical, metadata, nonempty, element, Captured.openTag]
  · simp [canonical, js, element, Captured.openTag]
  · have start : ∃ tail, g.canonical ++ t = '<' :: 'l' :: tail := by
      rw [canonical, if_neg (by simp [sheet]), if_pos sheet, if_pos (css sheet)]
      exact ⟨_, rfl⟩
    obtain ⟨tail, start⟩ := start
    rw [start]
    simp [element, Captured.openTag]

/-- A plain element is its own canonical form. -/
theorem Plain.canonical_eq {g : Segment} (h : g.Plain) : g.canonical = g.text := by
  have lower : ∀ name ∈ TagKind.all.map TagKind.name,
      name.map foldLetter = name ∧ name ≠ "js" ∧ name ≠ "css" := by decide
  obtain ⟨name, js, css⟩ := lower _ h.lower
  have name : g.name = g.written := name
  rw [canonical, name, if_neg js, if_neg css]
  split
  case isTrue unclosed => simp [text, unclosed, content_eq_nil unclosed]
  case isFalse closed =>
    rcases h.exact with unclosed | exact
    · exact absurd unclosed closed
    · simp [text, element, exact]

theorem Plain.stored_eq {g : Segment} (h : g.Plain) : g.stored = g.text := by
  have letters : ∀ name ∈ TagKind.all.map TagKind.name, ¬Misspelled name := by decide
  rw [stored, if_neg (letters _ h.lower), h.canonical_eq]

end Segment

namespace Captured

theorem name?_eq_some {s name rest : Text} (h : name? s = some (name, rest)) :
    ∃ written, written.map foldLetter ∈ names ∧ name = Text.lower written ∧
      s = written ++ rest := by
  obtain ⟨known, member, h⟩ := List.exists_of_findSome?_eq_some h
  obtain ⟨rest', after, same⟩ := Option.map_eq_some_iff.mp h
  obtain ⟨written, folded, rfl⟩ := Text.afterFolded?_eq_some after
  have length : written.length = known.length := by rw [← folded, List.length_map]
  obtain ⟨rfl, rfl⟩ := Prod.mk.inj same
  rw [List.take_left' length]
  exact ⟨written, folded ▸ member, rfl, rfl⟩

/-- Only a closing tag is dropped, if anything is. -/
theorem dropCloseTag_eq (name s : Text) :
    ∃ closing, s = closing ++ dropCloseTag name s ∧
      (closing = [] ∨ closeTag? name closing = some ([], [])) := by
  unfold dropCloseTag
  cases after : Text.afterFolded? Char.toLower (closingTag name) s with
  | none => exact ⟨[], rfl, .inl rfl⟩
  | some rest =>
    obtain ⟨closing, lowered, rfl⟩ := Text.afterFolded?_eq_some after
    refine ⟨closing, rfl, .inr ?_⟩
    obtain ⟨opening, last, rfl, named, bracket⟩ := List.map_eq_append_iff.mp lowered
    obtain ⟨c, rfl, same⟩ := List.map_eq_singleton_iff.mp bracket
    obtain rfl := eq_of_toLower_eq same (by decide)
    exact Text.splitWhere?_self
      (afterCloseTag?_eq_some_iff.mpr ⟨opening, [], named, nofun, by simp⟩)

section Branches

variable {name raw : Text}

theorem ofOpenTag?_link (h : name = "link") (s : Text) :
    ofOpenTag? name raw s =
      some (⟨.link, Attributes.parse raw, [], openTag name raw, []⟩, s) :=
  if_pos h

theorem ofOpenTag?_meta (h : name = "meta") (s : Text) :
    ofOpenTag? name raw s =
      some (⟨.metadata, Attributes.parse raw, [], openTag name raw, []⟩, s) := by
  have link : name ≠ "link" := by rw [h]; decide
  exact (if_neg link).trans (if_pos h)

theorem ofOpenTag?_js (h : name = "js") (source : (Attributes.parse raw).contains "src")
    (s : Text) :
    ofOpenTag? name raw s =
      some (⟨.script, Attributes.parse raw, openTag "script" raw, [], closingTag "script"⟩,
        dropCloseTag name s) := by
  have link : name ≠ "link" := by rw [h]; decide
  have metadata : name ≠ "meta" := by rw [h]; decide
  exact (if_neg link).trans ((if_neg metadata).trans (if_pos ⟨h, source⟩))

theorem ofOpenTag?_css (h : name = "css")
    (source : (Attributes.parse raw).contains "href" ∨ (Attributes.parse raw).contains "src")
    (s : Text) :
    ofOpenTag? name raw s =
      some (⟨.link, Attributes.parse raw, [], stylesheetLink (Attributes.parse raw), []⟩,
        dropCloseTag name s) := by
  have link : name ≠ "link" := by rw [h]; decide
  have metadata : name ≠ "meta" := by rw [h]; decide
  have js : name ≠ "js" := by rw [h]; decide
  exact (if_neg link).trans ((if_neg metadata).trans
    ((if_neg fun both => js both.1).trans (if_pos ⟨h, source⟩)))

def pairedKind (name : Text) : TagKind := if name = "script" ∨ name = "js" then .script else .style

theorem ofOpenTag?_paired (link : name ≠ "link") (metadata : name ≠ "meta")
    (js : ¬(name = "js" ∧ (Attributes.parse raw).contains "src"))
    (css : ¬(name = "css" ∧
      ((Attributes.parse raw).contains "href" ∨ (Attributes.parse raw).contains "src")))
    (s : Text) :
    ofOpenTag? name raw s = (closeTag? name s).map fun (content, rest) =>
      (⟨pairedKind name, Attributes.parse raw, openTag (pairedKind name).name raw, content,
        closingTag (pairedKind name).name⟩, rest) :=
  (if_neg link).trans ((if_neg metadata).trans ((if_neg js).trans (if_neg css)))

/-- The element that an open tag begins and what follows it, by the branches of the reader. -/
inductive Begins (name raw s : Text) : Captured → Text → Prop
  | link (link : name = "link") :
    Begins name raw s ⟨.link, Attributes.parse raw, [], openTag name raw, []⟩ s
  | metadata (metadata : name = "meta") :
    Begins name raw s ⟨.metadata, Attributes.parse raw, [], openTag name raw, []⟩ s
  | js (js : name = "js") (source : (Attributes.parse raw).contains "src") :
    Begins name raw s
      ⟨.script, Attributes.parse raw, openTag "script" raw, [], closingTag "script"⟩
      (dropCloseTag name s)
  | css (css : name = "css")
    (source : (Attributes.parse raw).contains "href" ∨ (Attributes.parse raw).contains "src") :
    Begins name raw s ⟨.link, Attributes.parse raw, [], stylesheetLink (Attributes.parse raw), []⟩
      (dropCloseTag name s)
  | paired {content rest : Text} (link : name ≠ "link") (metadata : name ≠ "meta")
    (js : ¬(name = "js" ∧ (Attributes.parse raw).contains "src"))
    (css : ¬(name = "css" ∧
      ((Attributes.parse raw).contains "href" ∨ (Attributes.parse raw).contains "src")))
    (closed : closeTag? name s = some (content, rest)) :
    Begins name raw s
      ⟨pairedKind name, Attributes.parse raw, openTag (pairedKind name).name raw, content,
        closingTag (pairedKind name).name⟩ rest

/-- The branches of the reader, each with the conditions under which it is taken. -/
theorem begins_of_ofOpenTag? {s rest : Text} {tag : Captured}
    (h : ofOpenTag? name raw s = some (tag, rest)) : Begins name raw s tag rest := by
  by_cases link : name = "link"
  · rw [ofOpenTag?_link link] at h
    obtain ⟨rfl, rfl⟩ := Prod.mk.inj (Option.some.inj h)
    exact .link link
  by_cases metadata : name = "meta"
  · rw [ofOpenTag?_meta metadata] at h
    obtain ⟨rfl, rfl⟩ := Prod.mk.inj (Option.some.inj h)
    exact .metadata metadata
  by_cases js : name = "js" ∧ (Attributes.parse raw).contains "src"
  · rw [ofOpenTag?_js js.1 js.2] at h
    obtain ⟨rfl, rfl⟩ := Prod.mk.inj (Option.some.inj h)
    exact .js js.1 js.2
  by_cases css : name = "css" ∧
      ((Attributes.parse raw).contains "href" ∨ (Attributes.parse raw).contains "src")
  · rw [ofOpenTag?_css css.1 css.2] at h
    obtain ⟨rfl, rfl⟩ := Prod.mk.inj (Option.some.inj h)
    exact .css css.1 css.2
  rw [ofOpenTag?_paired link metadata js css] at h
  obtain ⟨⟨content, rest'⟩, closed, same⟩ := Option.map_eq_some_iff.mp h
  obtain ⟨rfl, rfl⟩ := Prod.mk.inj same
  exact .paired link metadata js css closed

end Branches

theorem stored_of_mem_names {g : Segment} (known : Text.lower g.written ∈ names) :
    g.stored = g.canonical ∧ g.name = Text.lower g.written := by
  have spelled : ¬Misspelled g.written := fun misspelled => lower_notMem_names misspelled known
  exact ⟨if_neg spelled, (lower_of_not_misspelled spelled).symm⟩

theorem stored_of_void {g : Segment} (unclosed : g.closing = [])
    (void : Text.lower g.written = "link" ∨ Text.lower g.written = "meta") :
    g.stored = openTag (Text.lower g.written) g.raw := by
  have kinds : ∀ name ∈ (["link", "meta"] : List Text),
      name ∈ names ∧ name ≠ "js" ∧ name ≠ "css" := by decide
  obtain ⟨known, js, css⟩ := kinds (Text.lower g.written) (by simpa using void)
  obtain ⟨stored, name⟩ := stored_of_mem_names known
  rw [stored, Segment.canonical, name, if_neg js, if_neg css, if_pos unclosed]

theorem stored_of_js {g : Segment} (js : Text.lower g.written = "js") :
    g.stored = g.element "script" := by
  obtain ⟨stored, name⟩ := stored_of_mem_names (g := g) (by rw [js]; decide)
  rw [stored, Segment.canonical, name, if_pos js]

theorem stored_of_css {g : Segment} (css : Text.lower g.written = "css") (source : g.HasSource) :
    g.stored = stylesheetLink g.attrs := by
  have js : Text.lower g.written ≠ "js" := by rw [css]; decide
  obtain ⟨stored, name⟩ := stored_of_mem_names (g := g) (by rw [css]; decide)
  rw [stored, Segment.canonical, name, if_neg js, if_pos css, if_pos source]

/-- An element with a closing tag is stored under the name of its kind. -/
theorem stored_of_closing {g : Segment} (closed : g.closing ≠ [])
    (link : Text.lower g.written ≠ "link") (metadata : Text.lower g.written ≠ "meta")
    (css : ¬(Text.lower g.written = "css" ∧ g.HasSource)) :
    g.stored = g.element (pairedKind (Text.lower g.written)).name := by
  by_cases misspelled : Misspelled g.written
  · have unknown := lower_notMem_names misspelled
    simp only [names, List.mem_cons, List.not_mem_nil, or_false, not_or] at unknown
    obtain ⟨script, _, _, _, js, _⟩ := unknown
    have kind : pairedKind (Text.lower g.written) = .style := if_neg (not_or.mpr ⟨script, js⟩)
    rw [kind]
    exact if_pos misspelled
  · have known : Text.lower g.written ∈ names := lower_of_not_misspelled misspelled ▸ g.named
    obtain ⟨stored, name⟩ := stored_of_mem_names known
    simp only [names, List.mem_cons, List.not_mem_nil, or_false, link, metadata, false_or] at known
    rw [stored, Segment.canonical, name]
    rcases known with script | style | isJs | isCss
    · have noJs : Text.lower g.written ≠ "js" := by rw [script]; decide
      have noCss : Text.lower g.written ≠ "css" := by rw [script]; decide
      have kind : pairedKind (Text.lower g.written) = .script := if_pos (.inl script)
      rw [if_neg noJs, if_neg noCss, if_neg closed, kind, script]
      rfl
    · have noJs : Text.lower g.written ≠ "js" := by rw [style]; decide
      have noCss : Text.lower g.written ≠ "css" := by rw [style]; decide
      have noScript : Text.lower g.written ≠ "script" := by rw [style]; decide
      have kind : pairedKind (Text.lower g.written) = .style := if_neg (not_or.mpr ⟨noScript, noJs⟩)
      rw [if_neg noJs, if_neg noCss, if_neg closed, kind, style]
      rfl
    · have kind : pairedKind (Text.lower g.written) = .script := if_pos (.inr isJs)
      rw [if_pos isJs, kind]
      rfl
    · have noJs : Text.lower g.written ≠ "js" := by rw [isCss]; decide
      have noScript : Text.lower g.written ≠ "script" := by rw [isCss]; decide
      have kind : pairedKind (Text.lower g.written) = .style := if_neg (not_or.mpr ⟨noScript, noJs⟩)
      have bare : ¬g.HasSource := fun source => css ⟨isCss, source⟩
      rw [if_neg noJs, if_pos isCss, if_neg bare, kind]
      rfl

section OpenTag

variable {written raw : Text} (named : written.map foldLetter ∈ names)
  (ends : endsName (raw ++ ['>'])) (opened : openTagEnd? (raw ++ ['>']) = some (raw, []))

include named ends opened

theorem exists_dropped (bare : Text.lower written ∈ (["link", "meta", "js", "css"] : List Text))
    (s : Text) :
    ∃ g : Segment, g.written = written ∧ g.raw = raw ∧ g.content = [] ∧
      s = g.content ++ g.closing ++ dropCloseTag (Text.lower written) s := by
  obtain ⟨closing, split, h⟩ := dropCloseTag_eq (Text.lower written) s
  refine ⟨⟨written, raw, [], closing, named, ends, opened, ?_⟩, rfl, rfl, rfl, split⟩
  rcases h with unclosed | closed
  · exact .inl ⟨rfl, unclosed, bare⟩
  · exact .inr closed

/-- An element is a segment, and what is stored for it is what is stored for the segment. -/
theorem ofOpenTag?_eq_some {s rest : Text} {tag : Captured}
    (h : ofOpenTag? (Text.lower written) raw s = some (tag, rest)) :
    ∃ g : Segment, g.written = written ∧ g.raw = raw ∧ s = g.content ++ g.closing ++ rest ∧
      tag.element .none = g.stored := by
  cases begins_of_ofOpenTag? h with
  | link link =>
    let g : Segment := ⟨written, raw, [], [], named, ends, opened, .inl ⟨rfl, rfl, by simp [link]⟩⟩
    have stored : g.stored = _ := stored_of_void rfl (.inl link)
    exact ⟨g, rfl, rfl, rfl, by simp [element, TagHooks.none, stored, g]⟩
  | metadata metadata =>
    let g : Segment :=
      ⟨written, raw, [], [], named, ends, opened, .inl ⟨rfl, rfl, by simp [metadata]⟩⟩
    have stored : g.stored = _ := stored_of_void rfl (.inr metadata)
    exact ⟨g, rfl, rfl, rfl, by simp [element, TagHooks.none, stored, g]⟩
  | js js =>
    obtain ⟨g, rfl, rfl, empty, split⟩ := exists_dropped named ends opened (by simp [js]) s
    refine ⟨g, rfl, rfl, split, ?_⟩
    rw [stored_of_js js]
    simp [element, TagHooks.none, Segment.element, empty]
  | css css source =>
    obtain ⟨g, rfl, rfl, empty, split⟩ := exists_dropped named ends opened (by simp [css]) s
    refine ⟨g, rfl, rfl, split, ?_⟩
    rw [stored_of_css css source]
    simp [element, TagHooks.none, Segment.attrs]
  | @paired content _ link metadata js css closed =>
    obtain ⟨closing, nonempty, split, closed⟩ := closeTag?_eq_some closed
    let g : Segment := ⟨written, raw, content, closing, named, ends, opened, .inr closed⟩
    have stored : g.stored = _ := stored_of_closing nonempty link metadata css
    exact ⟨g, rfl, rfl, split, stored.symm⟩

end OpenTag

/-- What is read as an open tag: a known name behind a bracket, and what stands before the bracket
that closes it. -/
theorem exists_of_openTag? {s rest name raw : Text} (h : openTag? s = some (name, raw, rest)) :
    ∃ written s₁, written.map foldLetter ∈ names ∧ name = Text.lower written ∧
      s = '<' :: (written ++ s₁) ∧ endsName s₁ = true ∧ openTagEnd? s₁ = some (raw, rest) := by
  unfold openTag? at h
  split at h
  case h_2 => simp at h
  case h_1 s =>
    simp only [Option.bind_eq_bind, Option.bind_eq_some_iff] at h
    obtain ⟨⟨name, s₁⟩, named, h⟩ := h
    obtain ⟨written, known, rfl, rfl⟩ := name?_eq_some named
    by_cases ends : endsName s₁
    · simp only [ends, Bool.not_true, Bool.false_eq_true, if_false, Option.bind_eq_some_iff] at h
      obtain ⟨⟨raw, s₂⟩, opened, same⟩ := h
      obtain ⟨rfl, rfl, rfl⟩ : Text.lower written = _ ∧ raw = _ ∧ s₂ = _ := by simpa using same
      exact ⟨written, s₁, known, rfl, rfl, ends, opened⟩
    · simp [ends] at h

/-- An element that is read has an open tag, and is what this tag begins. -/
theorem exists_of_read {before : Option Char} {s rest : Text} {tag : Captured}
    (h : read before s = some (tag, rest)) :
    ∃ written s₁ raw s₂, written.map foldLetter ∈ names ∧ s = '<' :: (written ++ s₁) ∧
      endsName s₁ = true ∧ openTagEnd? s₁ = some (raw, s₂) ∧
      ofOpenTag? (Text.lower written) raw s₂ = some (tag, rest) := by
  obtain ⟨⟨name, raw, s₂⟩, opened, captured⟩ := Option.bind_eq_some_iff.mp h
  obtain ⟨written, s₁, known, rfl, rfl, ends, closed⟩ := exists_of_openTag? opened
  exact ⟨written, s₁, raw, s₂, known, rfl, ends, closed, captured⟩

/-- The name ends whatever follows the open tag. -/
theorem endsName_append {raw s : Text} (ends : endsName (raw ++ '>' :: s)) (t : Text) :
    endsName (raw ++ '>' :: t) := by
  cases raw with
  | nil => rfl
  | cons c raw => exact ends

/-- What is read is a segment, and what is stored for it is its canonical form unless it is
misspelled. -/
theorem read_eq_some {before : Option Char} {s rest : Text} {tag : Captured}
    (h : read before s = some (tag, rest)) :
    ∃ g : Segment, s = g.text ++ rest ∧ tag.element .none = g.stored := by
  obtain ⟨written, s₁, raw, s₂, known, rfl, ends, opened, captured⟩ := exists_of_read h
  obtain ⟨rfl, closes⟩ := openTagEndFrom?_eq_some opened
  obtain ⟨g, rfl, rfl, rfl, stored⟩ :=
    ofOpenTag?_eq_some known (endsName_append ends []) (closes []) captured
  exact ⟨g, by simp [Segment.text, openTag], stored⟩

end Captured

end Stencil
