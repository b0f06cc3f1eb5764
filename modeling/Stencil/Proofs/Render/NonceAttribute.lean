import Stencil.Proofs.Html.Escape
import Stencil.Proofs.Render.NonceText
import Stencil.Proofs.Tag.Extraction
import Stencil.Proofs.Tag.Reading

/-!
# A nonce among the attributes of an open tag

A nonce that is put into the open tag of an element should be read as one more attribute, with all
others as they were and the same text behind the tag (`Nonced.Adds`).  `Nonced.insert_adds_iff`
tells exactly when that is so for the elements that extraction stores.  The bracket before which the
nonce is put has to be the one that closes the tag: if it stands behind the tag, so does the nonce
(`Nonced.not_adds_of_later`), and if it stands in a value, the value changes
(`Nonced.not_adds_of_earlier`).  At the bracket of the tag the nonce is an attribute of its own
unless it comes into an open value, or what is dropped before it was part of one
(`Nonced.adds_iff_of_agrees`).
-/

namespace Stencil.Nonced

open Attributes

variable {nonce inside more rest raw s : Text} {k : TagKind}

section Added

/-- Escaping changes nothing about which backslashes count, since a quote ends what they do. -/
theorem escapedAfter_escapeAttr (escaped : Bool) (s : Text) :
    escapedAfter escaped (escapeAttr s) = escapedAfter escaped s := by
  induction s generalizing escaped with
  | nil => rfl
  | cons c s ih =>
    have append (s t : Text) : escapedAfter escaped (s ++ t) =
        escapedAfter (escapedAfter escaped s) t := List.foldl_append
    rw [escapeAttr_cons, append, ih, ← List.singleton_append, append]
    congr 1
    unfold escapeAttrChar
    split
    · next same => subst same; cases escaped <;> decide
    · split
      · next same => subst same; cases escaped <;> decide
      · rfl

theorem not_quote_of_mem_escapeAttr (nonce : Text) : '"' ∉ escapeAttr nonce :=
  fun member => not_mem_quotes_of_mem_escapeAttr nonce '"' member (by decide)

def opening : Text := "nonce=\""

theorem opening_eq : opening = ['n', 'o', 'n', 'c', 'e', '=', '"'] := by decide

theorem addition_eq (nonce slash : Text) :
    addition nonce slash = ' ' :: (opening ++ (escapeAttr nonce ++ '"' :: slash)) := by
  have start : mark ++ ['"'] = ' ' :: opening := by decide
  rw [addition, start]
  simp only [List.cons_append, List.append_assoc, List.nil_append]

theorem letter_mem_addition (nonce slash : Text) : 'n' ∈ addition nonce slash := by
  rw [addition_eq, opening_eq]
  simp

theorem readFrom_opening :
    readFrom .gap opening = ([], .inQuotes "nonce" '"' (.inl rfl) [] false) := rfl

theorem readFrom_value (nonce : Text) :
    readFrom (.inQuotes "nonce" '"' (.inl rfl) [] false) (escapeAttr nonce) =
      ([], .inQuotes "nonce" '"' (.inl rfl) (escapeAttr nonce) (escapedAfter false nonce)) := by
  rw [readFrom_inQuotes (not_quote_of_mem_escapeAttr nonce), escapedAfter_escapeAttr,
    List.nil_append]

variable {place : AttributePlace} {nonce slash : Text}

/-- Outside quotes an addition is read as an attribute of its own, if no backslash hides its closing
quote. -/
theorem readFrom_addition (closed : ¬place.IsOpen) (goesOn : place ≠ .stopped)
    (slashes : slash = [] ∨ slash = [' ', '/']) (unescaped : escapedAfter false nonce = false) :
    readFrom place (addition nonce slash) =
      (place.last?.toList ++ [⟨"nonce", some (escapeAttr nonce)⟩], .gap) := by
  have behind : readFrom .gap slash = ([], .gap) := by rcases slashes with rfl | rfl <;> rfl
  rw [addition_eq, readFrom, next_space closed goesOn, readFrom_append, readFrom_opening,
    readFrom_append, readFrom_value, unescaped]
  simp [readFrom, AttributePlace.next, behind]

/-- An addition whose closing quote is hidden is read as one with another value. -/
theorem parseFrom_addition_of_escaped (closed : ¬place.IsOpen) (goesOn : place ≠ .stopped)
    (slashes : slash = [] ∨ slash = [' ', '/']) (escaped : escapedAfter false nonce = true) :
    parseFrom place (addition nonce slash) =
      place.last?.toList ++ [⟨"nonce", some (escapeAttr nonce ++ '"' :: slash)⟩] := by
  have behind : '"' ∉ slash := by rcases slashes with rfl | rfl <;> decide
  rw [addition_eq, parseFrom_cons, next_space closed goesOn, parseFrom_append, readFrom_opening,
    parseFrom_append, readFrom_value, escaped, parseFrom_cons]
  simp [AttributePlace.next, parseFrom, readFrom_inQuotes behind, AttributePlace.last?]

/-- An addition gives an attribute at the end, which has the value of the nonce unless a backslash
hides its closing quote. -/
theorem parse_addition (nonce : Text) {s : Text} (closed : ¬(placeAfter s).IsOpen)
    (ends : Ends s) (slashes : slash = [] ∨ slash = [' ', '/']) :
    ∃ value, parse (s ++ addition nonce slash) = parse s ++ [⟨"nonce", some value⟩] ∧
      (value = escapeAttr nonce ↔ escapedAfter false nonce = false) := by
  have whole : parse s = (readFrom .gap s).1 ++ (placeAfter s).last?.toList := parse_eq_parseFrom s
  rw [parse_append, whole]
  cases escapes : escapedAfter false nonce with
  | false =>
    refine ⟨escapeAttr nonce, ?_, by simp⟩
    rw [parseFrom, readFrom_addition closed ends slashes escapes]
    simp [AttributePlace.last?]
  | true =>
    refine ⟨escapeAttr nonce ++ '"' :: slash, ?_, by simp⟩
    rw [parseFrom_addition_of_escaped closed ends slashes escapes, List.append_assoc]

theorem ends_addition {s : Text} (closed : ¬(placeAfter s).IsOpen) (ends : Ends s)
    (slashes : slash = [] ∨ slash = [' ', '/']) (unescaped : escapedAfter false nonce = false) :
    Ends (s ++ addition nonce slash) := by
  rw [Ends, placeAfter_append, readFrom_addition closed ends slashes unescaped]
  simp

/-- The bracket behind an addition closes the tag. -/
theorem openTagEndFrom?_addition (slashes : slash = [] ∨ slash = [' ', '/'])
    (unescaped : escapedAfter false nonce = false) (afterEquals : Bool) (rest : Text) :
    openTagEndFrom? (.outside afterEquals) (addition nonce slash ++ '>' :: rest) =
      some (addition nonce slash, rest) := by
  have value := openTagEndFrom?_quoted (not_quote_of_mem_escapeAttr nonce)
    (escapedAfter_escapeAttr false nonce ▸ unescaped) (by decide) (slash ++ '>' :: rest)
  have behind : openTagEndFrom? (.outside false) (slash ++ '>' :: rest) = some (slash, rest) := by
    rcases slashes with rfl | rfl <;> rfl
  rw [behind, Option.map_some] at value
  rw [addition_eq, opening_eq]
  simp [openTagEndFrom?, value]

end Added

section Misread

variable {place : AttributePlace} {name begun dropped slash t x : Text}

/-- An addition inside a quoted value becomes a part of it. -/
theorem parseFrom_addition_inQuotes (name : Text) {quote : Char}
    (isQuote : quote = '"' ∨ quote = '\'') (begun : Text) (escaped : Bool) (nonce slash t : Text) :
    ∃ more others,
      parseFrom (.inQuotes name quote isQuote begun escaped) (addition nonce slash ++ t) =
        ⟨name, some (begun ++ (mark ++ more))⟩ :: others := by
  have absent : quote ∉ mark := by rcases isQuote with rfl | rfl <;> decide
  have within : (AttributePlace.inQuotes name quote isQuote (begun ++ mark)
      (escapedAfter escaped mark)).Reads name (begun ++ mark) := .quoted
  obtain ⟨more, others, read⟩ :=
    exists_parseFrom_of_reads within (['"'] ++ escapeAttr nonce ++ ['"'] ++ slash ++ t)
  refine ⟨more, others, ?_⟩
  have split : addition nonce slash ++ t =
      mark ++ (['"'] ++ escapeAttr nonce ++ ['"'] ++ slash ++ t) := by simp [addition]
  rw [split, parseFrom_append, readFrom_inQuotes absent, List.nil_append, read, List.append_assoc]

/-- An addition in a value ends it or becomes a part of it. -/
theorem parseFrom_addition_of_reads (reads : place.Reads name begun) (nonce slash t : Text) :
    ∃ more others, parseFrom place (addition nonce slash ++ t) =
      ⟨name, some (begun ++ more)⟩ :: others ∧ (more = [] ∨ mark <+: more) := by
  cases reads with
  | bare =>
    have closed : ¬(AttributePlace.inValue name begun).IsOpen := not_false
    rw [addition_eq, List.cons_append, parseFrom_cons, next_space closed nofun]
    exact ⟨[], _, by rw [List.append_nil]; rfl, .inl rfl⟩
  | @quoted quote isQuote escaped =>
    obtain ⟨more, others, read⟩ :=
      parseFrom_addition_inQuotes name isQuote begun escaped nonce slash t
    exact ⟨mark ++ more, others, read, .inr (List.prefix_append mark more)⟩

/-- What is dropped before a nonce is no letter. -/
theorem letter_notMem_dropped (all : ∀ c ∈ dropped, isSpace c = true ∨ c = '/') : 'n' ∉ dropped :=
  fun member => absurd (all 'n' member) (by decide)

theorem not_separator_of_dropped (all : ∀ c ∈ dropped, isSpace c = true ∨ c = '/') :
    ∀ c ∈ dropped, c ≠ '=' ∧ ¬(c = '"' ∨ c = '\'') := by
  intro c member
  have here := all c member
  refine ⟨?_, ?_⟩
  · rintro rfl
    exact absurd here (by decide)
  · rintro (rfl | rfl) <;> exact absurd here (by decide)

/-- What is dropped at the end of a tag does not begin a nonce. -/
theorem not_mark_prefix (all : ∀ c ∈ dropped, isSpace c = true ∨ c = '/') :
    ¬mark <+: dropped ++ '>' :: x := by
  have letters : mark = ' ' :: 'n' :: "once=" := by decide
  rw [letters]
  intro start
  match dropped with
  | [] => exact absurd (List.cons_prefix_cons.mp start).1 (by decide)
  | [c] =>
    have second := (List.cons_prefix_cons.mp start).2
    exact absurd (List.cons_prefix_cons.mp second).1 (by decide)
  | c :: d :: dropped =>
    have second := (List.cons_prefix_cons.mp start).2
    obtain rfl := (List.cons_prefix_cons.mp second).1
    exact letter_notMem_dropped all (by simp)

/-- A nonce that is added before a bracket inside a value changes the value. -/
theorem parse_addition_ne_of_bracket (ends : Ends (inside ++ '>' :: x)) (a : Attribute) :
    parse (kept inside ++ addition nonce slash ++ '>' :: x) ≠
      parse (inside ++ '>' :: x) ++ [a] := by
  obtain ⟨dropped, whole, all⟩ := exists_kept inside
  have goesOn : ((placeAfter inside).next '>').2 ≠ .stopped := by
    intro stopped
    refine ends ?_
    rw [placeAfter_append, readFrom, stopped, readFrom_stopped]
  -- The bracket belongs to a value, which began before what is dropped.
  obtain ⟨name, value, reads, none, reads'⟩ := reads_of_bracket goesOn
  have behind : placeAfter inside = (readFrom (placeAfter (kept inside)) dropped).2 := by
    rw [← placeAfter_append, ← whole]
  obtain ⟨begun, began, rfl, nothing⟩ := reads_of_readFrom (not_separator_of_dropped all)
    (behind ▸ reads)
  obtain ⟨more, others, read⟩ := exists_parseFrom_of_reads reads' x
  obtain ⟨more', others', read', misread⟩ :=
    parseFrom_addition_of_reads began nonce slash ('>' :: x)
  have before : parse (inside ++ '>' :: x) = (readFrom .gap (kept inside)).1 ++
      ⟨name, some (begun ++ dropped ++ ['>'] ++ more)⟩ :: others := by
    have completed : (readFrom .gap inside).1 = (readFrom .gap (kept inside)).1 := by
      conv_lhs => rw [whole, readFrom_append]
      change _ ++ (readFrom (placeAfter (kept inside)) dropped).1 = _
      rw [nothing, List.append_nil]
    rw [parse_append, completed, parseFrom_cons, none, read]
    rfl
  have after : parse (kept inside ++ addition nonce slash ++ '>' :: x) =
      (readFrom .gap (kept inside)).1 ++ ⟨name, some (begun ++ more')⟩ :: others' := by
    rw [List.append_assoc, parse_append, read']
  rw [before, after]
  intro same
  rw [List.append_assoc] at same
  have value := (List.cons.inj (List.append_cancel_left same)).1
  obtain rfl : more' = dropped ++ '>' :: more := by simpa using value
  rcases misread with empty | start
  · simp at empty
  · exact not_mark_prefix all start

/-- A nonce that is added inside a value between quotes changes the value. -/
theorem parse_addition_ne_of_isOpen (isOpen : (placeAfter (kept raw)).IsOpen) (a : Attribute) :
    parse (kept raw ++ addition nonce slash) ≠ parse raw ++ [a] := by
  obtain ⟨dropped, whole, all⟩ := exists_kept raw
  cases place : placeAfter (kept raw) with
  | gap => simp [place, AttributePlace.IsOpen] at isOpen
  | inName name => simp [place, AttributePlace.IsOpen] at isOpen
  | inValue name value => simp [place, AttributePlace.IsOpen] at isOpen
  | stopped => simp [place, AttributePlace.IsOpen] at isOpen
  | inQuotes name quote isQuote begun escaped =>
    have absent : quote ∉ dropped :=
      fun member => (not_separator_of_dropped all quote member).2 isQuote
    obtain ⟨more, others, read⟩ :=
      parseFrom_addition_inQuotes name isQuote begun escaped nonce slash []
    have before : parse raw =
        (readFrom .gap (kept raw)).1 ++ [⟨name, some (begun ++ dropped)⟩] := by
      conv_lhs => rw [whole, parse_append, place, parseFrom, readFrom_inQuotes absent]
      rfl
    have after : parse (kept raw ++ addition nonce slash) =
        (readFrom .gap (kept raw)).1 ++ ⟨name, some (begun ++ (mark ++ more))⟩ :: others := by
      rw [parse_append, place, ← read, List.append_nil]
    rw [before, after, List.append_assoc]
    intro same
    have value := (List.cons.inj (List.append_cancel_left same)).1
    obtain rfl : mark ++ more = dropped := by simpa using value
    exact letter_notMem_dropped all (List.mem_append_left _ (by decide))

/-- An addition brings letters of its own into the attributes. -/
theorem parse_addition_ne (ends : Ends (inside ++ t))
    (ends' : Ends (kept inside ++ addition nonce slash ++ t)) :
    parse (kept inside ++ addition nonce slash ++ t) ≠ parse (inside ++ t) := by
  intro same
  have letters {s : Text} (ends : Ends s) :
      (Attributes.written (parse s)).count 'n' = s.count 'n' := by
    rw [parse_eq_parseFrom, count_written (by decide) (by decide) ends]
    simp [AttributePlace.last?]
  have counts := letters ends'
  rw [same, letters ends] at counts
  obtain ⟨dropped, whole, all⟩ := exists_kept inside
  have none := List.count_eq_zero.mpr (letter_notMem_dropped all)
  have some : 0 < (addition nonce slash).count 'n' :=
    List.count_pos_iff.mpr (letter_mem_addition nonce slash)
  have split := congrArg (List.count 'n') whole
  simp only [List.count_append] at counts split
  omega

end Misread

section Adding

/-- The attributes of an open tag with a nonce: those that it has without it, and the nonce behind
them if none of them is one. -/
def withNonce (nonce : Text) (attrs : Attributes) : Attributes :=
  if attrs.contains "nonce" then attrs else attrs ++ [⟨"nonce", some (escapeAttr nonce)⟩]

/-- A nonce only adds its attribute to an open tag with this text inside and this text behind it,
so that the rest of the element is still behind the tag. -/
def Adds (nonce : Text) (k : TagKind) (raw rest : Text) : Prop :=
  ∃ raw', insert nonce ('<' :: (k.name ++ (raw ++ '>' :: rest))) =
      '<' :: (k.name ++ (raw' ++ '>' :: rest)) ∧
    openTagEnd? (raw' ++ '>' :: rest) = some (raw', rest) ∧ Ends raw' ∧
    parse raw' = withNonce nonce (parse raw)

/-- Where a nonce is added as an attribute of its own. -/
structure Fits (nonce raw rest : Text) : Prop where
  /-- Both ways to read an open tag end it at the same bracket. -/
  agrees : splitBracket? .outside (raw ++ '>' :: rest) = some (raw, '>' :: rest)
  /-- Nothing in the tag looks like a nonce. -/
  unmarked : ¬mark <:+: Text.lower raw
  /-- No value between quotes is left open. -/
  closed : ¬(placeAfter (kept raw)).IsOpen
  /-- What is dropped at the end is no part of an attribute. -/
  same : parse (kept raw) = parse raw
  /-- No backslash hides the quote behind the nonce. -/
  unescaped : escapedAfter false nonce = false

theorem withNonce_ne_of_not_contains {attrs : Attributes} (h : ¬attrs.contains "nonce") :
    attrs ≠ withNonce nonce attrs := by
  rw [withNonce, if_neg h]
  simp

/-- Where the element is left alone, nothing else is asked for exactly if it has a nonce. -/
theorem adds_iff_of_leavesAlone (opened : openTagEnd? (raw ++ '>' :: rest) = some (raw, rest))
    (ends : Ends raw) (alone : LeavesAlone (raw ++ '>' :: rest)) :
    Adds nonce k raw rest ↔ (parse raw).contains "nonce" := by
  rw [Adds, insert_of_leavesAlone alone]
  constructor
  · rintro ⟨raw', same, -, -, parsed⟩
    obtain rfl : raw = raw' := by simpa using same
    by_contra absent
    exact withNonce_ne_of_not_contains absent parsed
  · intro present
    exact ⟨raw, rfl, opened, ends, (if_pos present).symm⟩

section Unmarked

variable {x : Text} (found : splitBracket? .outside (raw ++ '>' :: rest) = some (inside, more))
  (unmarked : ¬mark <:+: Text.lower inside)

include found unmarked

theorem adds_iff_of_unmarked :
    Adds nonce k raw rest ↔
      ∃ raw', kept inside ++ addition nonce (slash inside) ++ more = raw' ++ '>' :: rest ∧
        openTagEnd? (raw' ++ '>' :: rest) = some (raw', rest) ∧ Ends raw' ∧
        parse raw' = withNonce nonce (parse raw) := by
  rw [Adds, insert_of_unmarked found unmarked]
  simp only [List.cons.injEq, true_and, List.append_cancel_left_eq]

/-- If the bracket is found too late, the nonce stands behind the tag. -/
theorem not_adds_of_later (opened : openTagEnd? (raw ++ '>' :: rest) = some (raw, rest))
    (later : inside = raw ++ '>' :: x) : ¬Adds nonce k raw rest := by
  rw [adds_iff_of_unmarked found unmarked]
  rintro ⟨raw', same, opened', -, -⟩
  obtain ⟨dropped, whole, all⟩ := exists_kept inside
  have noBracket : '>' ∉ dropped := fun member => absurd (all '>' member) (by decide)
  -- What is dropped lies behind the tag, and so the tag ends where it ended.
  obtain ⟨y, keeps⟩ : ∃ y, kept inside = raw ++ '>' :: y := by
    rcases List.append_eq_append_iff.mp (whole.symm.trans later) with
      ⟨_, -, behind⟩ | ⟨between, keeps, behind⟩
    · exact absurd (behind ▸ List.mem_append_right _ List.mem_cons_self) noBracket
    · cases between with
      | nil =>
        obtain rfl : '>' :: x = dropped := behind
        exact absurd List.mem_cons_self noBracket
      | cons c y =>
        obtain ⟨rfl, -⟩ := List.cons.inj behind
        exact ⟨y, keeps⟩
  have ended : raw' ++ '>' :: rest =
      raw ++ '>' :: (y ++ addition nonce (slash inside) ++ more) := by
    rw [← same, keeps]
    simp
  have again : openTagEnd? (raw ++ '>' :: (y ++ addition nonce (slash inside) ++ more)) =
      some (raw, y ++ addition nonce (slash inside) ++ more) := (openTagEndFrom?_eq_some opened).2 _
  rw [ended, again] at opened'
  have behind : y ++ addition nonce (slash inside) ++ more = rest :=
    (Prod.mk.inj (Option.some.inj opened')).2
  have split := (splitBracket?_eq_some found).1
  rw [whole, keeps, ← behind] at split
  obtain rfl : addition nonce (slash inside) = dropped := by simpa using split
  exact letter_notMem_dropped all (letter_mem_addition nonce _)

/-- If the bracket is found too early, a value changes. -/
theorem not_adds_of_earlier (ends : Ends raw) (earlier : raw = inside ++ '>' :: x) :
    ¬Adds nonce k raw rest := by
  rw [adds_iff_of_unmarked found unmarked]
  rintro ⟨raw', same, -, ends', parsed⟩
  have split := (splitBracket?_eq_some found).1
  rw [earlier] at split ends parsed
  obtain rfl : more = '>' :: (x ++ '>' :: rest) := by simpa using split.symm
  obtain rfl : kept inside ++ addition nonce (slash inside) ++ '>' :: x = raw' :=
    List.append_cancel_right (Eq.trans (by simp) same)
  rw [withNonce] at parsed
  split_ifs at parsed
  · exact parse_addition_ne ends ends' parsed
  · exact parse_addition_ne_of_bracket ends _ parsed

end Unmarked

/-- At the bracket of the tag, a nonce is added as an attribute of its own exactly if there is none
and it fits. -/
theorem adds_iff_of_agrees (opened : openTagEnd? (raw ++ '>' :: rest) = some (raw, rest))
    (ends : Ends raw)
    (agrees : splitBracket? .outside (raw ++ '>' :: rest) = some (raw, '>' :: rest))
    (unmarked : ¬mark <:+: Text.lower raw) :
    Adds nonce k raw rest ↔ ¬(parse raw).contains "nonce" ∧ Fits nonce raw rest := by
  obtain ⟨dropped, whole, all⟩ := exists_kept raw
  have keptEnds : Ends (kept raw) := ends_of_append (whole ▸ ends)
  have atBracket : Adds nonce k raw rest ↔
      openTagEnd? (kept raw ++ addition nonce (slash raw) ++ '>' :: rest) =
          some (kept raw ++ addition nonce (slash raw), rest) ∧
        Ends (kept raw ++ addition nonce (slash raw)) ∧
        parse (kept raw ++ addition nonce (slash raw)) = withNonce nonce (parse raw) := by
    rw [adds_iff_of_unmarked agrees unmarked]
    simp only [List.append_left_inj, exists_eq_left']
  rw [atBracket]
  constructor
  · rintro ⟨-, ends', parsed⟩
    have absent : ¬(parse raw).contains "nonce" := by
      intro present
      rw [withNonce, if_pos present] at parsed
      refine parse_addition_ne (by rwa [List.append_nil] : Ends (raw ++ []))
        (by rwa [List.append_nil] : Ends (kept raw ++ addition nonce (slash raw) ++ [])) ?_
      rwa [List.append_nil, List.append_nil]
    rw [withNonce, if_neg absent] at parsed
    have closed : ¬(placeAfter (kept raw)).IsOpen :=
      fun isOpen => parse_addition_ne_of_isOpen isOpen _ parsed
    obtain ⟨value, added, hidden⟩ := parse_addition nonce closed keptEnds (slash_eq raw)
    rw [added] at parsed
    obtain ⟨same, last⟩ := List.append_inj' parsed rfl
    have value_eq : value = escapeAttr nonce := by simpa using last
    exact ⟨absent, agrees, unmarked, closed, same, hidden.mp value_eq⟩
  · rintro ⟨absent, fits⟩
    refine ⟨?_, ends_addition fits.closed keptEnds (slash_eq raw) fits.unescaped, ?_⟩
    · have opened : openTagEndFrom? (.outside false) (kept raw ++ (dropped ++ '>' :: rest)) =
          some (kept raw ++ dropped, rest) := by
        rw [← List.append_assoc, ← whole]
        exact opened
      rw [List.append_assoc]
      exact openTagEndFrom?_replace nofun
        (fun c member => (not_separator_of_dropped all c member).2) opened
        fun afterEquals => openTagEndFrom?_addition (slash_eq raw) fits.unescaped afterEquals rest
    · obtain ⟨value, added, hidden⟩ := parse_addition nonce fits.closed keptEnds
        (slash_eq raw)
      rw [added, fits.same, hidden.mpr fits.unescaped, withNonce, if_neg absent]

/-- A nonce only adds its attribute, or leaves a tag that has one as it is, exactly under these
conditions. -/
theorem adds_iff (opened : openTagEnd? (raw ++ '>' :: rest) = some (raw, rest))
    (ends : Ends raw) :
    Adds nonce k raw rest ↔
      if (parse raw).contains "nonce" then LeavesAlone (raw ++ '>' :: rest)
      else Fits nonce raw rest := by
  by_cases alone : LeavesAlone (raw ++ '>' :: rest)
  · rw [adds_iff_of_leavesAlone opened ends alone]
    split_ifs with present
    · exact iff_of_true present alone
    · exact iff_of_false present fun fits => fits.unmarked (alone _ _ fits.agrees)
  · obtain ⟨inside, more, found, unmarked⟩ : ∃ inside more,
        splitBracket? .outside (raw ++ '>' :: rest) = some (inside, more) ∧
          ¬mark <:+: Text.lower inside := by simpa [LeavesAlone] using alone
    have elsewhere (differs : inside ≠ raw) (fails : ¬Adds nonce k raw rest) :
        Adds nonce k raw rest ↔
          if (parse raw).contains "nonce" then LeavesAlone (raw ++ '>' :: rest)
          else Fits nonce raw rest := by
      have misfit : ¬Fits nonce raw rest := fun fits =>
        differs (Prod.mk.inj (Option.some.inj (found.symm.trans fits.agrees))).1
      split_ifs
      · exact iff_of_false fails alone
      · exact iff_of_false fails misfit
    rcases splitBracket?_cases found with ⟨rfl, rfl⟩ | ⟨x, later⟩ | ⟨x, earlier⟩
    · rw [adds_iff_of_agrees opened ends found unmarked]
      split_ifs with present
      · exact iff_of_false (fun both => both.1 present) alone
      · exact and_iff_right present
    · exact elsewhere (by simp [later]) (not_adds_of_later found unmarked opened later)
    · exact elsewhere (by simp [earlier]) (not_adds_of_earlier found unmarked ends earlier)

/-- The nonce of an element that extraction stores is added as an attribute of its own, with nothing
else changed, exactly if it fits; and an element that has a nonce is left as it is exactly if the
nonce is recognised, or no bracket found. -/
theorem insert_adds_iff (nonce : Text) {source element : Text} {k : TagKind}
    (stored : element ∈ (extract .none source).2.entries k) :
    ∃ s, element = '<' :: (k.name ++ s) ∧
      ∀ raw rest, openTagEnd? s = some (raw, rest) → Ends raw →
        (Adds nonce k raw rest ↔
          if (parse raw).contains "nonce" then LeavesAlone s else Fits nonce raw rest) := by
  obtain ⟨s, begins⟩ := exists_eq_of_mem_entries stored
  refine ⟨s, begins, fun raw rest opened ends => ?_⟩
  obtain ⟨rfl, -⟩ := openTagEndFrom?_eq_some opened
  exact adds_iff opened ends

/-- A script that gets its nonce. -/
theorem insert_adds_iff_src :
    ("<script src=\"a.js\"></script>" : Text) ∈
      (extract .none "<script src=\"a.js\"></script>").2.entries .script ∧
    Adds "n" .script " src=\"a.js\"" "</script>" := by
  have stored : ("<script src=\"a.js\"></script>" : Text) ∈
      (extract .none "<script src=\"a.js\"></script>").2.entries .script := by decide
  refine ⟨stored, ?_⟩
  obtain ⟨s, begins, exactly⟩ := insert_adds_iff "n" stored
  have split : ("<script" : Text) ++ " src=\"a.js\"></script>" = "<script" ++ s := begins
  obtain rfl := List.append_cancel_left split
  have kept_eq : kept " src=\"a.js\"" = " src=\"a.js\"" := by decide
  have fits : Fits "n" " src=\"a.js\"" "</script>" :=
    ⟨by decide, by decide, by rw [kept_eq]; exact not_false, by rw [kept_eq], by decide⟩
  have absent : ¬(parse " src=\"a.js\"").contains "nonce" := by rw [parse_eq_parseFrom]; decide
  refine (exactly " src=\"a.js\"" "</script>" (by decide) nofun).mpr ?_
  rw [if_neg absent]
  exact fits

/-- A script that gets none, since a value has what looks like one. -/
theorem not_adds_of_markInValue :
    ("<script data-a=\"b nonce=c\">x</script>" : Text) ∈
      (extract .none "<script data-a=\"b nonce=c\">x</script>").2.entries .script ∧
    openTagEnd? " data-a=\"b nonce=c\">x</script>" =
      some ((" data-a=\"b nonce=c\"" : Text), ("x</script>" : Text)) ∧
    Ends " data-a=\"b nonce=c\"" ∧ ¬(parse " data-a=\"b nonce=c\"").contains "nonce" ∧
    ¬Adds "n" .script " data-a=\"b nonce=c\"" "x</script>" := by
  have opened : openTagEnd? " data-a=\"b nonce=c\">x</script>" =
      some ((" data-a=\"b nonce=c\"" : Text), ("x</script>" : Text)) := by decide
  have absent : ¬(parse " data-a=\"b nonce=c\"").contains "nonce" := by
    rw [parse_eq_parseFrom]; decide
  have ends : Ends " data-a=\"b nonce=c\"" := nofun
  have alone : LeavesAlone " data-a=\"b nonce=c\">x</script>" := by
    intro inside more found
    have bracket : splitBracket? .outside " data-a=\"b nonce=c\">x</script>" =
        some ((" data-a=\"b nonce=c\"" : Text), (">x</script>" : Text)) := by decide
    obtain ⟨rfl, -⟩ := Prod.mk.inj (Option.some.inj (bracket.symm.trans found))
    decide
  exact ⟨by decide, opened, ends, absent,
    fun adds => absent ((adds_iff_of_leavesAlone opened ends alone).mp adds)⟩

end Adding

end Stencil.Nonced
