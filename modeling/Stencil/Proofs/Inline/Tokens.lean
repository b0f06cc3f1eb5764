import Stencil.Inline.BareUrl
import Stencil.Inline.Embed
import Stencil.Proofs.Html.Escape
import Stencil.Proofs.Text.Token

/-!
# Tokens within lines

Emphasis, embeds, links and bare URLs keep every token of a text.  No find of theirs begins or ends
inside a token, and what a find is replaced with holds the tokens of all its parts: phrases, link
texts, targets, windows, sources and attributes.
-/

namespace Stencil

variable {w s : Text}

namespace Markup

theorem readBetween_eq_some {opening closing s rest : Text} {inner : Char → Bool}
    (h : readBetween opening inner closing s = some rest) :
    ∃ between, s = opening ++ between ++ closing ++ rest := by
  obtain ⟨tail, opened, closed⟩ := Option.bind_eq_some_iff.mp h
  refine ⟨tail.takeWhile inner, ?_⟩
  rw [Text.after?_eq_some opened, List.append_assoc, List.append_assoc,
    ← List.append_assoc _ closing, ← Text.eq_of_after?_dropWhile closed]

theorem afterPlaceholder?_eq_some {s rest : Text} (h : afterPlaceholder? s = some rest) :
    ∃ between, s = '\x7b' :: (between ++ '\x7d' :: rest) := by
  rcases Option.or_eq_some_iff.mp h with three | ⟨_, two⟩
  · obtain ⟨between, rfl⟩ := readBetween_eq_some three
    exact ⟨['\x7b', '\x7b'] ++ between ++ ['\x7d', '\x7d'], by simp⟩
  · obtain ⟨between, rfl⟩ := readBetween_eq_some two
    exact ⟨['\x7b'] ++ between ++ ['\x7d'], by simp⟩

theorem dropSlash_eq (s : Text) : ∃ slash, s = slash ++ dropSlash s := by
  unfold dropSlash
  split
  · exact ⟨['/'], rfl⟩
  · exact ⟨[], rfl⟩

/-- A tag stands between brackets. -/
theorem afterTag?_eq_some {s rest : Text} (h : afterTag? s = some rest) :
    ∃ between, s = '<' :: (between ++ '>' :: rest) := by
  obtain ⟨inside, opened, h⟩ := Option.bind_eq_some_iff.mp h
  obtain ⟨slash, split⟩ := dropSlash_eq inside
  split at h
  · rename_i c tail named
    split at h
    · obtain ⟨run, rfl⟩ : ∃ run, tail = run ++ ['>'] ++ rest :=
        ⟨_, Text.eq_of_after?_dropWhile h⟩
      refine ⟨slash ++ c :: run, ?_⟩
      rw [Text.after?_eq_some opened, split, named]
      simp
    · simp at h
  · simp at h

def firsts : List Char := ['\x7b', '<']

def lasts : List Char := ['\x7d', '>']

theorem after?_eq_some {s rest : Text} (h : after? s = some rest) :
    ∃ first middle last, s = first :: (middle ++ last :: rest) ∧ first ∈ firsts ∧ last ∈ lasts := by
  rcases Option.or_eq_some_iff.mp h with placeholder | ⟨_, tag⟩
  · obtain ⟨between, rfl⟩ := afterPlaceholder?_eq_some placeholder
    exact ⟨_, between, _, rfl, by decide, by decide⟩
  · obtain ⟨between, rfl⟩ := afterTag?_eq_some tag
    exact ⟨_, between, _, rfl, by decide, by decide⟩

theorem delimited_read : Reader.Delimited read firsts lasts := by
  intro before s value rest found
  obtain ⟨rest', after, same⟩ := Option.map_eq_some_iff.mp found
  obtain ⟨rfl, rfl⟩ := Prod.mk.inj same
  exact after?_eq_some after

/-- The placeholder of an element is a tag. -/
theorem afterTag?_placeholder (k : TagKind) (n : Nat) (rest : Text) :
    afterTag? (k.placeholder n ++ rest) = some rest := by
  have name : ∀ c ∈ k.name ++ [':'] ++ Text.ofNat n, isTagChar c = true := by
    have digit : ∀ c, isDigit c = true → isTagChar c = true := by
      intro c digit
      have other {d : Char} (no : isDigit d = false) : c ≠ d := by
        rintro rfl
        simp [no] at digit
      simp [isTagChar, @other '<' (by decide), @other '>' (by decide), @other '\n' (by decide)]
    simp only [List.forall_mem_append]
    exact ⟨⟨by cases k <;> decide, by decide⟩,
      fun c member => digit c (Text.isDigit_of_mem_ofNat member)⟩
  have split : k.placeholder n ++ rest =
      '<' :: '@' :: (k.name ++ [':'] ++ Text.ofNat n ++ '>' :: rest) := by
    simp [TagKind.placeholder]
  rw [split, afterTag?]
  have closed : (k.name ++ [':'] ++ Text.ofNat n ++ '>' :: rest).dropWhile isTagChar =
      '>' :: rest := by
    rw [List.dropWhile_append_of_pos name]
    rfl
  change Text.after? ['>'] (List.dropWhile isTagChar _) = some rest
  rw [closed]
  rfl

end Markup

namespace Emphasis

def firsts : List Char := ']' :: Markup.firsts

theorem delimited_readSheltered :
    Reader.Delimited readSheltered firsts (')' :: Markup.lasts) := by
  intro before s value rest found
  obtain ⟨rest', after, same⟩ := Option.map_eq_some_iff.mp found
  obtain ⟨rfl, rfl⟩ := Prod.mk.inj same
  rcases Option.or_eq_some_iff.mp after with markup | ⟨_, target⟩
  · obtain ⟨first, middle, last, split, begins, ends⟩ := Markup.after?_eq_some markup
    exact ⟨first, middle, last, split, List.mem_cons_of_mem _ begins, List.mem_cons_of_mem _ ends⟩
  · obtain ⟨between, rfl⟩ := Markup.readBetween_eq_some target
    exact ⟨']', '(' :: between, ')', by simp, List.mem_cons_self, List.mem_cons_self⟩

namespace Style

variable {style : Style}

/-- A phrase is read from between the marks of its style. -/
theorem read_eq_some {before : Option Char} {phrase rest : Text}
    (h : style.read before s = some (phrase, rest)) :
    s = style.mark ++ phrase ++ style.mark ++ rest := by
  obtain ⟨tail, opened, h⟩ := Option.bind_eq_some_iff.mp h
  dsimp only at h
  split at h
  · simp at h
  · obtain ⟨rest', closed, same⟩ := Option.bind_eq_some_iff.mp h
    obtain ⟨rfl, rfl⟩ := Prod.mk.inj (Option.some.inj same)
    rw [Text.after?_eq_some opened, List.append_assoc, List.append_assoc,
      ← List.append_assoc _ style.mark, ← Text.eq_of_after?_dropWhile closed]

theorem delimited_read (often : 0 < style.times) :
    Reader.Delimited style.read [style.sign] [style.sign] := by
  intro before s phrase rest found
  obtain ⟨more, times⟩ := Nat.exists_eq_add_one_of_ne_zero often.ne'
  have begins : style.mark = style.sign :: List.replicate more style.sign := by
    rw [mark, times, List.replicate_succ]
  have ends : style.mark = List.replicate more style.sign ++ [style.sign] := by
    rw [mark, times, List.replicate_succ']
  refine ⟨style.sign, List.replicate more style.sign ++ phrase ++ List.replicate more style.sign,
    style.sign, ?_, List.mem_cons_self, List.mem_cons_self⟩
  rw [read_eq_some found]
  nth_rewrite 1 [begins]
  rw [ends]
  simp

/-- Emphasis in a style keeps tokens, since a phrase has those of its find. -/
theorem infix_apply (often : 0 < style.times) (foreign : IsToken.isForeign style.sign = true)
    (token : IsToken w) (h : w <:+: s) : w <:+: style.apply s := by
  obtain ⟨inner, opener, closer⟩ := IsToken.isForeign_iff.mp foreign
  have spares : style.read.Spares w :=
    token.spared (delimited_read often) (by simp [inner, closer]) (by simp [inner, opener])
  refine Text.infix_substitute spares token.ne_nil h
    fun before source phrase rest found inside => ?_
  have mark : ∀ c ∈ style.mark, IsToken.isForeign c = true := fun c member => by
    rwa [List.eq_of_mem_replicate member]
  have split : source = style.mark ++ phrase ++ style.mark :=
    List.append_cancel_right (read_eq_some found)
  exact (token.infix_between mark mark (split ▸ inside)).trans ⟨_, _, rfl⟩

end Style

theorem infix_applyAll (token : IsToken w) (h : w <:+: s) : w <:+: applyAll s := by
  have fine : ∀ style ∈ styles, 0 < style.times ∧ IsToken.isForeign style.sign = true := by decide
  unfold applyAll
  generalize styles = all at fine ⊢
  induction all generalizing s with
  | nil => exact h
  | cons style all ih =>
    obtain ⟨⟨often, foreign⟩, rest⟩ := List.forall_mem_cons.mp fine
    exact ih (style.infix_apply often foreign token h) rest

theorem not_mem_firsts {kind : StandIn} (known : kind ∈ allStandIns) (n : Nat) :
    ∀ c ∈ kind.token n, c ∉ firsts := by
  have outside : ∀ c ∈ firsts, isDigit c = false ∧ c ∉ allStandIns.map StandIn.opening ∧
      c ∉ allStandIns.map StandIn.closing := by decide
  intro c member first
  obtain ⟨digit, opening, closing⟩ := outside c first
  exact StandIn.not_mem_token known digit opening closing n member

/-- Emphasis keeps tokens, in what it shelters and elsewhere. -/
theorem infix_emphasize (token : IsToken w) (kept : ∀ c ∈ w, isReserved c = false)
    (few : s.countP (· ∈ firsts) ≤ Text.maxIndex) (h : w <:+: s) : w <:+: emphasize s := by
  have known : ∀ kind ∈ [standIn], kind ∈ allStandIns := by decide
  have spares : readSheltered.Spares w :=
    token.spared delimited_readSheltered (by decide) (by decide)
  have filtered : w <:+: s.filter fun c => !isReserved c :=
    Text.infix_filter h fun c member => by simp [kept c member]
  have scanned := Text.kept_scan spares token.ne_nil filtered
  rcases StandIn.infix_place scanned (fun _ _ _ inside => inside) 0 with
    outside | ⟨i, part, there, inside, placed⟩
  · refine StandIn.infix_fill known token (fun c first => ?_) (infix_applyAll token outside)
    have other := kept c (List.mem_of_mem_head? first)
    simp only [isReserved, Bool.or_eq_false_iff, beq_eq_false_iff_ne] at other
    simpa using other.1
  · have stands : standIn ∈ allStandIns := by decide
    have index : i < (s.filter fun c => !isReserved c).countP (· ∈ firsts) :=
      StandIn.lt_countP_of_place delimited_readSheltered (fun _ => id) (not_mem_firsts stands) there
    have fewer : (s.filter fun c => !isReserved c).countP (· ∈ firsts) ≤ s.countP (· ∈ firsts) :=
      List.filter_sublist.countP_le
    rw [Nat.zero_add] at placed
    refine inside.trans (StandIn.infix_fill_of_token known rfl (by omega) ?_
      (infix_applyAll (.standIn stands i) placed))
    simpa using there

end Emphasis

/-- Text in braces as it is written, if there is any. -/
def braced : Option Text → Text
  | none => []
  | some inner => '\x7b' :: (inner ++ ['\x7d'])

/-- Reading braces loses nothing of the text. -/
theorem bracedSuffix_eq {rest : Text} {inner? : Option Text} (h : bracedSuffix s = (inner?, rest)) :
    s = braced inner? ++ rest := by
  unfold bracedSuffix at h
  split at h
  · rename_i t
    split at h <;> rename_i closed
    · obtain ⟨rfl, rfl⟩ := Prod.mk.inj h
      rw [braced, List.cons_append, ← Text.eq_of_after?_dropWhile closed]
    · obtain ⟨rfl, rfl⟩ := Prod.mk.inj h
      rfl
  · obtain ⟨rfl, rfl⟩ := Prod.mk.inj h
    rfl

/-- A text in brackets, a text in parentheses, and braces that may follow. -/
def bracketed (opening first second : Text) (inner? : Option Text) : Text :=
  opening ++ first ++ ']' :: '(' :: (second ++ ')' :: braced inner?)

/-- A text that is read sign by sign is such a form and what follows it. -/
theorem eq_bracketed {p q : Char → Bool} {opening inside behind after : Text}
    (opened : Text.after? opening s = some inside)
    (turned : Text.after? [']', '('] (inside.dropWhile p) = some behind)
    (closed : Text.after? [')'] (behind.dropWhile q) = some after) :
    s = bracketed opening (inside.takeWhile p) (behind.takeWhile q) (bracedSuffix after).1 ++
      (bracedSuffix after).2 := by
  have suffix : after = braced (bracedSuffix after).1 ++ (bracedSuffix after).2 :=
    bracedSuffix_eq rfl
  calc s = opening ++ inside := Text.after?_eq_some opened
    _ = opening ++
        (inside.takeWhile p ++ [']', '('] ++ (behind.takeWhile q ++ [')'] ++ after)) := by
      rw [← Text.eq_of_after?_dropWhile closed, ← Text.eq_of_after?_dropWhile turned]
    _ = _ := by
      nth_rewrite 1 [suffix]
      simp [bracketed]

/-- What a text ends with that goes on with braces, if it does. -/
theorem exists_last (c : Char) (inner? : Option Text) :
    ∃ middle last, c :: braced inner? = middle ++ [last] ∧ last ∈ [c, '\x7d'] := by
  cases inner? with
  | none => exact ⟨[], c, rfl, by simp⟩
  | some inner => exact ⟨c :: '\x7b' :: inner, '\x7d', by simp [braced], by simp⟩

/-- A reader of such a form is delimited. -/
theorem delimited_of_bracketed {α : Type} {read : Reader α} {sign : Char} {more : Text}
    (reads : ∀ before s value rest, read before s = some (value, rest) →
      ∃ first second inner?, s = bracketed (sign :: more) first second inner? ++ rest) :
    Reader.Delimited read [sign] [')', '\x7d'] := by
  intro before s value rest found
  obtain ⟨first, second, inner?, rfl⟩ := reads before s value rest found
  obtain ⟨middle, last, split, ends⟩ := exists_last ')' inner?
  refine ⟨sign, more ++ first ++ ']' :: '(' :: (second ++ middle), last, ?_, List.mem_cons_self,
    ends⟩
  rw [bracketed, split]
  simp

/-- A token in such a form lies in one of the three texts. -/
theorem infix_of_bracketed {opening first second : Text} {inner? : Option Text}
    (token : IsToken w) (foreign : ∀ c ∈ opening, IsToken.isForeign c = true)
    (h : w <:+: bracketed opening first second inner?) :
    w <:+: first ∨ w <:+: second ∨ ∃ inner, inner? = some inner ∧ w <:+: inner := by
  have absent {c : Char} (foreign : IsToken.isForeign c = true) : c ∉ w := token.not_mem foreign
  rw [bracketed] at h
  rcases Text.infix_append_cons (absent (by decide)) h with inFirst | h
  · left
    exact token.infix_between foreign (List.forall_mem_nil _) (by simpa using inFirst)
  · rcases @Text.infix_append_cons w [] _ '(' (absent (by decide)) h with nothing | h
    · exact absurd (List.eq_nil_of_infix_nil nothing) token.ne_nil
    · right
      rcases Text.infix_append_cons (absent (by decide)) h with inSecond | h
      · exact .inl inSecond
      · right
        cases inner? with
        | none => exact absurd (List.eq_nil_of_infix_nil h) token.ne_nil
        | some inner =>
          exact ⟨inner, rfl, @IsToken.infix_between w token ['\x7b'] ['\x7d'] inner (by decide)
            (by decide) h⟩

theorem lookup_eq_none_of_mem {β : Type} {table : List (Text × β)} {key : Text} {c : Char}
    (outside : ∀ entry ∈ table, c ∉ entry.1) (h : c ∈ key) : table.lookup key = none := by
  rw [List.lookup_eq_none_iff]
  intro entry member
  rw [bne_iff_ne]
  rintro rfl
  exact outside entry member h

namespace Embed

/-- What reads as an embed is its kind, its sources and its attributes, each in its brackets. -/
theorem read_eq_some {before : Option Char} {rest : Text} {e : Embed}
    (h : read before s = some (e, rest)) :
    ∃ kind, s = bracketed ['!', '['] kind e.sources e.attributes ++ rest ∧
      e.kind = Text.lower (Text.trim kind) := by
  obtain ⟨inside, opened, h⟩ := Option.bind_eq_some_iff.mp h
  obtain ⟨behind, turned, h⟩ := Option.bind_eq_some_iff.mp h
  obtain ⟨after, closed, same⟩ := Option.bind_eq_some_iff.mp h
  obtain ⟨rfl, rfl⟩ := Prod.mk.inj (Option.some.inj same)
  exact ⟨inside.takeWhile isBracketChar, eq_bracketed opened turned closed, rfl⟩

theorem infix_escapeQuotes (token : IsToken w) (h : w <:+: s) : w <:+: Link.escapeQuotes s := by
  have quote : '"' ∉ w := token.not_mem (by decide)
  refine Text.infix_flatMap h fun c member => if_neg ?_
  rintro rfl
  exact quote member

theorem infix_extraAttributes (token : IsToken w) (h : w <:+: s) :
    w <:+: extraAttributes (some s) := by
  have trimmed := token.infix_trim h
  have some : ¬(Text.trim s).isEmpty := fun empty =>
    token.ne_nil (List.eq_nil_of_infix_nil (List.isEmpty_iff.mp empty ▸ trimmed))
  rw [extraAttributes, if_neg some]
  exact trimmed.trans (List.suffix_cons _ _).isInfix

/-- A kind in which there is a token is no kind of a medium. -/
theorem medium?_eq_none {e : Embed} {kind : Text} (token : IsToken w) (h : w <:+: kind)
    (same : e.kind = Text.lower (Text.trim kind)) : e.medium? = none := by
  have lowered : w.map Char.toLower <:+: e.kind := same ▸ (token.infix_trim h).map Char.toLower
  obtain ⟨c, tail, rfl⟩ := List.exists_cons_of_ne_nil token.ne_nil
  have opener : c ∈ IsToken.openers := token.mem_openers_of_head c rfl
  have unchanged : ∀ c ∈ IsToken.openers, c.toLower = c := by decide
  have outside : ∀ c ∈ IsToken.openers, ∀ entry ∈ Medium.kinds, c ∉ entry.1 := by decide
  refine lookup_eq_none_of_mem (outside c opener) (lowered.subset ?_)
  rw [List.map_cons, unchanged c opener]
  exact List.mem_cons_self

theorem exists_source {e : Embed} (token : IsToken w) (h : w <:+: e.sources) :
    ∃ source ∈ e.sourceList, w <:+: source := by
  obtain ⟨line, member, inside⟩ :=
    Text.exists_infix_of_splitOn h token.ne_nil (token.not_mem (c := '\n') (by decide))
  have trimmed := token.infix_trim inside
  refine ⟨Link.escapeQuotes (Text.trim line), ?_, infix_escapeQuotes token trimmed⟩
  refine List.mem_map_of_mem (List.mem_filter.mpr ⟨List.mem_map_of_mem member, ?_⟩)
  have some : Text.trim line ≠ [] := fun nothing =>
    token.ne_nil (List.eq_nil_of_infix_nil (nothing ▸ trimmed))
  simpa using some

section

variable {m : Medium} {source first last attributes kind : Text} {others : List Text}

theorem infix_singleHtml (h : w <:+: source ∨ w <:+: attributes) :
    w <:+: singleHtml m source attributes := by
  unfold singleHtml
  split <;> rcases h with h | h <;> exact Text.infix_of_part h

/-- A token has no character that JSON spells otherwise. -/
theorem infix_quoted (token : IsToken w) (h : w <:+: s) : w <:+: Json.quoted s := by
  have plain : ∀ c ∈ w, Json.quotedChar c = [c] := by
    intro c member
    have other {d : Char} (foreign : IsToken.isForeign d = true) : c ≠ d := by
      rintro rfl
      exact token.not_mem foreign member
    have printed : ¬c.toNat < 32 := Nat.not_lt.mpr (token.le_toNat c member)
    simp [Json.quotedChar, printed, @other '"' (by decide), @other '\\' (by decide),
      @other '\n' (by decide), @other '\r' (by decide), @other '\t' (by decide),
      @other '\x08' (by decide), @other '\x0c' (by decide)]
  exact Text.infix_append_of_left (Text.infix_append_of_right _ (Text.infix_flatMap h plain)) _

theorem infix_sourceArray (token : IsToken w) (member : source ∈ others) (h : w <:+: source) :
    w <:+: sourceArray others := by
  have apostrophe : '\'' ∉ w := token.not_mem (by decide)
  refine Text.infix_flatMap (s := _) ?_ fun c member => if_neg ?_
  · refine Text.infix_append_of_left (Text.infix_append_of_right _ ?_) _
    exact (infix_quoted token h).trans (Text.infix_join (List.mem_map_of_mem member))
  · rintro rfl
    exact apostrophe member

/-- A token in one of the sources or in the attributes is in the element for them. -/
theorem infix_severalHtml (token : IsToken w)
    (h : (∃ source ∈ first :: others, w <:+: source) ∨ w <:+: attributes) :
    w <:+: severalHtml m kind first others last attributes := by
  have among {f : Text → Text} (keeps : ∀ source, w <:+: source → w <:+: f source)
      (h : ∃ source ∈ first :: others, w <:+: source) : w <:+: (first :: others).flatMap f := by
    obtain ⟨source, member, inside⟩ := h
    exact Text.infix_flatMap_of_mem member (keeps source inside)
  have picture (source : Text) (h : w <:+: source) : w <:+: pictureSourceHtml kind source := by
    unfold pictureSourceHtml
    exact Text.infix_of_part h
  have played (source : Text) (h : w <:+: source) : w <:+: sourceHtml m kind source := by
    unfold sourceHtml
    exact Text.infix_of_part h
  unfold severalHtml
  rcases h with h | h
  · split
    · exact Text.infix_of_part (among picture h)
    · exact Text.infix_of_part (among played h)
    · exact Text.infix_of_part (among played h)
    · -- A frame shows the first source, and the script has the others.
      obtain ⟨source, member, h⟩ := h
      rcases List.mem_cons.mp member with rfl | later
      · exact Text.infix_of_part h
      · exact Text.infix_of_part (infix_sourceArray token later h)
  · split <;> exact Text.infix_of_part h

end

/-- What is written for an embed goes by its medium and by whether it has one source or more. -/
theorem html?_eq_some {e : Embed} {html : Text} (there : e.html? = some html) :
    ∃ m, e.medium? = some m ∧
      ((∃ source, e.sourceList = [source] ∧ html = singleHtml m source e.attributeText) ∨
        ∃ first second rest, e.sourceList = first :: second :: rest ∧
          html = severalHtml m e.kind first (second :: rest) ((second :: rest).getLastD first)
            e.attributeText) := by
  unfold html? at there
  split at there
  · simp at there
  · simp at there
  · rename_i m source known only
    exact ⟨m, known, .inl ⟨source, only, (Option.some.inj there).symm⟩⟩
  · rename_i m first second rest known several
    exact ⟨m, known, .inr ⟨first, second, rest, several, (Option.some.inj there).symm⟩⟩

/-- An embed as HTML has the tokens of its sources and of its attributes. -/
theorem infix_html {e : Embed} {html : Text} (token : IsToken w) (there : e.html? = some html)
    (h : (∃ source ∈ e.sourceList, w <:+: source) ∨ w <:+: e.attributeText) : w <:+: html := by
  obtain ⟨m, -, ⟨source, only, rfl⟩ | ⟨first, second, rest, several, rfl⟩⟩ := html?_eq_some there
  · rw [only] at h
    exact infix_singleHtml (by simpa using h)
  · rw [several] at h
    exact infix_severalHtml token h

theorem delimited_read : Reader.Delimited read ['!'] [')', '\x7d'] :=
  delimited_of_bracketed fun _ _ _ _ found => by
    obtain ⟨kind, split, _⟩ := read_eq_some found
    exact ⟨_, _, _, split⟩

end Embed

/-- Embeds keep tokens: an unknown kind keeps the embed as it is. -/
theorem infix_embeds (token : IsToken w) (h : w <:+: s) : w <:+: embeds s := by
  have spares : Embed.read.Spares w :=
    token.spared Embed.delimited_read (by decide) (by decide)
  refine Text.infix_substitute spares token.ne_nil h fun before source e rest found inside => ?_
  cases html : e.html? with
  | none => exact inside
  | some html =>
    obtain ⟨kind, split, lowered⟩ := Embed.read_eq_some found
    have whole := List.append_cancel_right split
    rcases infix_of_bracketed token (by decide) (whole ▸ inside) with h | h | ⟨inner, braces, h⟩
    · have unknown := Embed.medium?_eq_none token h lowered
      simp [Embed.html?, unknown] at html
    · exact Embed.infix_html token html (.inl (Embed.exists_source token h))
    · refine Embed.infix_html token html (.inr ?_)
      rw [Embed.attributeText, braces]
      exact Embed.infix_extraAttributes token h

namespace Link

/-- What reads as a link is its three parts, each between its brackets. -/
theorem read_eq_some {before : Option Char} {rest : Text} {link : Link}
    (h : read before s = some (link, rest)) :
    s = bracketed ['['] link.text link.target link.window ++ rest := by
  obtain ⟨inside, opened, h⟩ := Option.bind_eq_some_iff.mp h
  obtain ⟨behind, turned, h⟩ := Option.bind_eq_some_iff.mp h
  obtain ⟨after, closed, same⟩ := Option.bind_eq_some_iff.mp h
  obtain ⟨rfl, rfl⟩ := Prod.mk.inj (Option.some.inj same)
  exact eq_bracketed opened turned closed

theorem delimited_read : Reader.Delimited read ['['] [')', '\x7d'] :=
  delimited_of_bracketed fun _ _ _ _ found => ⟨_, _, _, read_eq_some found⟩

/-- What is escaped between markup keeps tokens: the placeholder of an element is markup. -/
theorem infix_escapeText (token : IsToken w) (h : w <:+: s) : w <:+: escapeText s := by
  have spares : Markup.read.Spares w :=
    token.spared Markup.delimited_read (by decide) (by decide)
  have escapes : escapeText s = escapeHtml (Text.parts (Text.scan Markup.read s)).1 ++
      (Text.parts (Text.scan Markup.read s)).2.flatMap fun part =>
        part.1.1 ++ escapeHtml part.2 := rfl
  rw [escapes]
  rcases Text.kept_scan spares token.ne_nil h with ⟨left, right, before, rest, pieces, nothing⟩ |
    ⟨source, value, member, inside⟩
  · have plain : ∀ c ∈ w, c ∉ escapedChars := by
      cases token with
      | placeholder k n =>
        rw [Markup.read, Markup.after?, Markup.afterTag?_placeholder] at nothing
        simp at nothing
      | standIn known n =>
        have apart : ∀ c ∈ escapedChars, isDigit c = false ∧
            c ∉ allStandIns.map StandIn.opening ∧ c ∉ allStandIns.map StandIn.closing := by decide
        intro c member escaped
        obtain ⟨digit, opening, closing⟩ := apart c escaped
        exact StandIn.not_mem_token known digit opening closing n member
    obtain ⟨t, member, inside⟩ := Text.exists_infix_around (w := w) left right
    have escaped := infix_escapeHtml inside plain
    rw [← pieces, Text.around] at member
    rcases List.mem_cons.mp member with rfl | later
    · exact Text.infix_append_of_left escaped _
    · obtain ⟨part, there, rfl⟩ := List.mem_map.mp later
      exact Text.infix_append_of_right _
        (Text.infix_flatMap_of_mem there (Text.infix_append_of_right _ escaped))
  · obtain ⟨part, there, rfl⟩ := Text.exists_part_of_mem member
    exact Text.infix_append_of_right _
      (Text.infix_flatMap_of_mem there (Text.infix_append_of_left inside _))

theorem infix_windowName (token : IsToken w) (h : w <:+: s) : w <:+: windowName s := by
  obtain ⟨c, tail, rfl⟩ := List.exists_cons_of_ne_nil token.ne_nil
  have outside : ∀ c ∈ IsToken.openers, ∀ entry ∈ windowNames, c ∉ entry.1 := by decide
  have unnamed := lookup_eq_none_of_mem (outside c (token.mem_openers_of_head c rfl))
    (h.subset List.mem_cons_self)
  rwa [windowName, unnamed]

theorem infix_windowAttribute (token : IsToken w) (h : w <:+: s) :
    w <:+: windowAttribute (some s) := by
  unfold windowAttribute
  dsimp only
  refine Text.infix_append_of_left ?_ _
  exact Text.infix_append_of_right _ (infix_windowName token (token.infix_trim h))

theorem infix_html {link : Link} (token : IsToken w)
    (h : w <:+: link.text ∨ w <:+: link.target ∨ ∃ inner, link.window = some inner ∧ w <:+: inner) :
    w <:+: link.html := by
  unfold html
  rcases h with h | h | ⟨inner, window, h⟩
  · exact Text.infix_of_part (infix_escapeText token h)
  · exact Text.infix_of_part (Embed.infix_escapeQuotes token h)
  · have h : w <:+: windowAttribute link.window := window ▸ infix_windowAttribute token h
    exact Text.infix_of_part h

end Link

theorem infix_links (token : IsToken w) (h : w <:+: s) : w <:+: links s := by
  have spares : Link.read.Spares w := token.spared Link.delimited_read (by decide) (by decide)
  refine Text.infix_substitute spares token.ne_nil h fun before source link rest found inside => ?_
  split
  · exact inside
  · have whole := List.append_cancel_right (Link.read_eq_some found)
    exact Link.infix_html token (infix_of_bracketed token (by decide) (whole ▸ inside))

namespace BareUrl

theorem afterScheme?_eq_some {rest : Text} (h : afterScheme? s = some rest) :
    ∃ scheme, s = 'h' :: scheme ++ rest ∧ ∀ c ∈ IsToken.openers, c ∉ 'h' :: scheme := by
  rcases Option.or_eq_some_iff.mp h with secure | ⟨_, plain⟩
  · exact ⟨"ttps://".toList, Text.after?_eq_some secure, by decide⟩
  · exact ⟨"ttp://".toList, Text.after?_eq_some plain, by decide⟩

theorem tail_prefix (s : Text) : tail s <+: s :=
  (Text.dropEndWhile_prefix _ _).trans (List.takeWhile_prefix _)

/-- A URL has no character that begins a token. -/
theorem read_eq_some {before : Option Char} {rest : Text} {isLink : Bool}
    (h : read before s = some (isLink, rest)) :
    ∃ url, s = 'h' :: url ++ rest ∧ ∀ c ∈ IsToken.openers, c ∉ 'h' :: url := by
  have strange : ∀ c ∈ IsToken.openers, isHostChar c = false ∧ isTailChar c = false := by
    decide +kernel
  obtain ⟨behind, schemed, h⟩ := Option.bind_eq_some_iff.mp h
  split at h
  · simp at h
  · obtain ⟨_, rfl⟩ := Prod.mk.inj (Option.some.inj h)
    obtain ⟨scheme, rfl, outside⟩ := afterScheme?_eq_some schemed
    obtain ⟨after, split⟩ := tail_prefix (behind.dropWhile isHostChar)
    refine ⟨scheme ++ behind.takeWhile isHostChar ++ tail (behind.dropWhile isHostChar), ?_,
      fun c opener member => ?_⟩
    · nth_rewrite 1 [← List.takeWhile_append_dropWhile (p := isHostChar) (l := behind)]
      nth_rewrite 1 [← split]
      nth_rewrite 4 [← split]
      simp
    · rw [← List.cons_append, ← List.cons_append] at member
      rcases List.mem_append.mp member with member | member
      · rcases List.mem_append.mp member with member | member
        · exact outside c opener member
        · exact absurd (List.mem_takeWhile_imp member) (by simp [(strange c opener).1])
      · have tailed := (Text.dropEndWhile_prefix _ _).subset member
        exact absurd (List.mem_takeWhile_imp tailed) (by simp [(strange c opener).2])

theorem spares_read (token : IsToken w) : read.Spares w := by
  intro before s isLink rest found
  obtain ⟨url, rfl, outside⟩ := read_eq_some found
  refine ⟨'h' :: url, rfl, by simp, ?_, .inl fun c first => ?_⟩
  · simpa using token.not_mem_tail (c := 'h') (by decide) (by decide)
  · exact outside c (token.mem_openers_of_head c first)

end BareUrl

theorem infix_bareUrls (token : IsToken w) (h : w <:+: s) : w <:+: bareUrls s := by
  refine Text.infix_substitute (BareUrl.spares_read token) token.ne_nil h
    fun before source isLink rest found inside => ?_
  split
  · unfold BareUrl.html
    exact Text.infix_of_part inside
  · exact inside

end Stencil
