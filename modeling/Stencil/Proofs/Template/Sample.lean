import Stencil.Proofs.Inline.Rise
import Stencil.Proofs.Tag.Extraction
import Stencil.Proofs.Tag.Reading
import Stencil.Proofs.Template.Opaque
import Stencil.Proofs.Template.SingleLine
import Stencil.Template.Compile

/-!
# A sample of code

A source that is nothing but code between two back quotes goes through the stages in three steps.
Taking out elements, first those of the table and then `pre` and `code`, leaves code between back
quotes (`Code.Marked.exists_eq_quoted`), since no element reaches a back quote that ends the source.
The code that is left becomes one stand-in, and that goes through all the replacements as a
paragraph (`Code.transform_of_protect`).  Putting the parts back shows the code, escaped, with the
elements in it as they were written (`compile_quoted_eq`).  If nothing goes into the table, the code
is shown as a whole exactly if there is no `pre` and no `code` in it either (`compile?_quoted`).
-/

namespace Stencil

variable {α : Type} {s : Text}

namespace Code

/-! ## A stand-in on its own -/

section

variable (k : Nat)

theorem not_mem_inline_token {c : Char} (other : isDigit c = false ∧
    c ∉ allStandIns.map StandIn.opening ∧ c ∉ allStandIns.map StandIn.closing) :
    c ∉ inline.token k :=
  StandIn.not_mem_token (by decide) other.1 other.2.1 other.2.2 k

theorem scan_inline_token {read : Reader α} {firsts lasts : List Char}
    (delimited : read.Delimited firsts lasts)
    (others : ∀ c ∈ firsts, isDigit c = false ∧ c ∉ allStandIns.map StandIn.opening ∧
      c ∉ allStandIns.map StandIn.closing) :
    Text.scan read (inline.token k) = (inline.token k).map .plain :=
  delimited.scan_eq_plain fun _ member first => not_mem_inline_token k (others _ first) member

theorem finds_inline_token {read : Reader α} {firsts lasts : List Char}
    (delimited : read.Delimited firsts lasts)
    (others : ∀ c ∈ firsts, isDigit c = false ∧ c ∉ allStandIns.map StandIn.opening ∧
      c ∉ allStandIns.map StandIn.closing) : Text.finds read (inline.token k) = [] :=
  Text.finds_of_scan_eq_plain (scan_inline_token k delimited others)

/-- A stand-in on its own has nothing to emphasise. -/
theorem emphasize_inline_token : Emphasis.emphasize (inline.token k) = inline.token k := by
  have plain : ∀ c ∈ inline.token k, c ∉ Emphasis.firsts := Emphasis.not_mem_firsts (by decide) k
  have few : (inline.token k).countP (· ∈ Emphasis.firsts) = 0 := by
    simpa [List.countP_eq_zero] using plain
  refine (Emphasis.liftsAt_emphasize (not_isReserved_token (by decide) k)
    (few ▸ Nat.zero_le _)).eq_self ?_
  rw [Emphasis.sheltered_eq_self plain]
  have signs : ∀ style ∈ Emphasis.styles, 0 < style.times ∧ isDigit style.sign = false ∧
      style.sign ∉ allStandIns.map StandIn.opening ∧
      style.sign ∉ allStandIns.map StandIn.closing := by decide
  intro style known
  obtain ⟨often, other⟩ := signs style known
  exact finds_inline_token k (style.delimited_read often) (by simpa using other)

theorem beforeEmbeds_inline_token : beforeEmbeds (inline.token k) = inline.token k := by
  have forms_eq : forms (inline.token k) = inline.token k := by
    rw [forms, Text.substitute, scan_inline_token k (Element.delimited_read "form") (by decide),
      Text.ofPieces_map_plain]
  obtain ⟨t, begins⟩ : ∃ t, inline.token k = inline.opening :: t := ⟨_, rfl⟩
  have oneLine : '\n' ∉ inline.token k := not_mem_inline_token k (by decide)
  rw [beforeEmbeds, forms_eq, emphasize_inline_token, begins]
  exact wholeLines_eq_self (begins ▸ oneLine) (by decide)

theorem embedScripts_inline_token : embedScripts (inline.token k) = [] := by
  rw [embedScripts, finds_inline_token k Embed.delimited_read (by decide)]
  simp

/-- A stand-in on its own is wrapped as a paragraph, and no other stage takes it up. -/
theorem fromEmbeds_inline_token :
    fromEmbeds (inline.token k) = "<p>" ++ inline.token k ++ "</p>" := by
  have embedded := (liftsAt_embeds (inline.token k)).eq_self (by
    rw [finds_inline_token k Embed.delimited_read (by decide)]
    simp)
  have linked := (liftsAt_links (inline.token k)).eq_self (by
    rw [finds_inline_token k Link.delimited_read (by decide)]
    simp)
  have noUrl : Text.finds BareUrl.read (inline.token k) = [] :=
    Text.finds_of_scan_eq_plain (Text.scan_eq_plain fun t tail _ before => by
      cases found : BareUrl.read before t with
      | none => rfl
      | some answer =>
        obtain ⟨url, rfl, _⟩ := BareUrl.read_eq_some found
        exact absurd (tail.subset List.mem_cons_self) (not_mem_inline_token k (by decide)))
  have bare := (liftsAt_bareUrls (inline.token k)).eq_self (by simp [noUrl])
  obtain ⟨t, begins⟩ : ∃ t, inline.token k = inline.opening :: t := ⟨_, rfl⟩
  have oneLine : '\n' ∉ inline.token k := not_mem_inline_token k (by decide)
  rw [fromEmbeds, embedded, linked, bare, begins]
  exact paragraphs_eq (begins ▸ oneLine) (by decide) (by simp [Paragraph.startsText])

end

/-! ## Taking out elements -/

/-- Whether a text may stand between back quotes. -/
structure IsSample (b : Text) : Prop where
  some : b ≠ []
  inner : ∀ c ∈ b, isInlineChar c = true

theorem isInlineChar_of_isToken {w : Text} (token : IsToken w) :
    ∀ c ∈ w, isInlineChar c = true := by
  intro c member
  have noQuote : c ≠ '\x60' := by
    rintro rfl
    exact token.not_mem (by decide) member
  have noBreak : c ≠ '\n' := by
    rintro rfl
    exact token.not_mem (by decide) member
  simp [isInlineChar, noQuote, noBreak]

/-- What ends otherwise than a text is not longer than the text without its end. -/
theorem exists_of_append_eq_concat {source rest b : Text} {c d : Char}
    (last : source.getLast? = some d) (other : d ≠ c) (whole : source ++ rest = b ++ [c]) :
    ∃ more, b = source ++ more ∧ rest = more ++ [c] := by
  rcases List.append_eq_append_iff.mp whole with cut | ⟨more, rfl, quote⟩
  · exact cut
  · rcases List.append_eq_singleton_iff.mp quote.symm with ⟨rfl, behind⟩ | ⟨rfl, -⟩
    · exact ⟨[], by simp, behind⟩
    · simp [other.symm] at last

/-- Whether a text is some pieces with a token in the place of every find. -/
inductive Marked : List (Piece α) → Text → Prop where
  | nil : Marked [] []
  | plain (c : Char) {pieces : List (Piece α)} {t : Text} (rest : Marked pieces t) :
    Marked (.plain c :: pieces) (c :: t)
  | found {source w : Text} {value : α} {pieces : List (Piece α)} {t : Text} (token : IsToken w)
    (rest : Marked pieces t) : Marked (.found source value :: pieces) (w ++ t)

namespace Marked

theorem place {kind : StandIn} (known : kind ∈ allStandIns) (write : Text → α → Text) (n : Nat)
    (pieces : List (Piece α)) : Marked pieces (kind.place write n pieces).1 := by
  induction pieces generalizing n with
  | nil => exact .nil
  | cons piece pieces ih =>
    cases piece with
    | plain c => exact .plain c (ih n)
    | found source value => exact .found (.standIn known n) (ih (n + 1))

theorem collect (hooks : TagHooks) (table : TagTable) (pieces : List (Piece Captured)) :
    Marked pieces (Captured.collect hooks table pieces).1 := by
  induction pieces generalizing table with
  | nil => exact .nil
  | cons piece pieces ih =>
    cases piece with
    | plain c => exact .plain c (ih table)
    | found source tag => exact .found (.placeholder _ _) (ih _)

/-- No find reaches a back quote at the end, if finds end with a bracket. -/
theorem exists_eq_concat {pieces : List (Piece α)} {t b : Text} (marked : Marked pieces t)
    (ends : ∀ source value, .found source value ∈ pieces → source.getLast? = some '>')
    (whole : pieces.flatMap Piece.source = b ++ ['\x60'])
    (inner : ∀ c ∈ b, isInlineChar c = true) :
    ∃ x, t = x ++ ['\x60'] ∧ (b ≠ [] → x ≠ []) ∧ ∀ c ∈ x, isInlineChar c = true := by
  induction marked generalizing b with
  | nil => simp at whole
  | @plain c pieces t rest ih =>
    have later : ∀ source value, .found source value ∈ pieces → source.getLast? = some '>' :=
      fun source value member => ends source value (List.mem_cons_of_mem _ member)
    cases b with
    | nil =>
      obtain ⟨rfl, none⟩ : c = '\x60' ∧ pieces.flatMap Piece.source = [] := by
        simpa [Piece.source] using whole
      refine ⟨[], ?_, fun some => absurd rfl some, by simp⟩
      cases rest with
      | nil => rfl
      | plain d rest => simp [Piece.source] at none
      | @found source =>
        have last := later source _ List.mem_cons_self
        obtain ⟨rfl, _⟩ : source = [] ∧ _ := List.append_eq_nil_iff.mp none
        simp at last
    | cons d b =>
      obtain ⟨rfl, behind⟩ := List.cons.inj (whole : c :: _ = d :: (b ++ ['\x60']))
      obtain ⟨here, inner⟩ := List.forall_mem_cons.mp inner
      obtain ⟨x, rfl, _, clean⟩ := ih later behind inner
      exact ⟨c :: x, rfl, fun _ => List.cons_ne_nil _ _, List.forall_mem_cons.mpr ⟨here, clean⟩⟩
  | @found source w value pieces t token rest ih =>
    obtain ⟨more, rfl, behind⟩ := exists_of_append_eq_concat
      (ends source value List.mem_cons_self) (by decide)
      (whole : source ++ pieces.flatMap Piece.source = b ++ ['\x60'])
    obtain ⟨x, rfl, _, clean⟩ := ih (fun source value member =>
      ends source value (List.mem_cons_of_mem _ member)) behind
      (List.forall_mem_append.mp inner).2
    exact ⟨w ++ x, by simp, fun _ => List.append_ne_nil_of_left_ne_nil token.ne_nil x,
      List.forall_mem_append.mpr ⟨isInlineChar_of_isToken token, clean⟩⟩

/-- Code between back quotes is left as such. -/
theorem exists_eq_quoted {read : Reader α} {b t : Text} (sample : IsSample b)
    (delimited : read.Delimited ['<'] ['>']) (marked : Marked (Text.scan read (quoted b)) t) :
    ∃ x, t = quoted x ∧ IsSample x := by
  have nothing : read none (quoted b) = none := by
    cases found : read none (quoted b) with
    | none => rfl
    | some answer =>
      obtain ⟨first, middle, last, split, opens, _⟩ :=
        delimited none _ answer.1 answer.2 found
      obtain ⟨rfl, _⟩ := List.cons.inj split
      exact absurd opens (by decide)
  have ends : ∀ source value, .found source value ∈ Text.scan read (quoted b) →
      source.getLast? = some '>' := fun source value member => by
    obtain ⟨first, middle, last, rfl, _, closes⟩ := delimited.source member
    rw [← List.cons_append, List.getLast?_concat, List.mem_singleton.mp closes]
  have begins : Text.scan read (quoted b) =
      .plain '\x60' :: Text.scanFrom read (some '\x60') 0 (b ++ ['\x60']) := by
    rw [quoted] at nothing ⊢
    rw [Text.scan, Text.scanFrom, nothing]
  rw [begins] at marked ends
  cases marked with
  | plain c rest =>
    obtain ⟨x, rfl, some, inner⟩ := rest.exists_eq_concat
      (fun source value member => ends source value (List.mem_cons_of_mem _ member))
      (Text.sources_scanFrom read (some '\x60') 0 _) sample.inner
    exact ⟨x, rfl, some sample.some, inner⟩

end Marked

end Code

namespace Captured

theorem extract_of_finds {hooks : TagHooks} (none : Text.finds read s = []) :
    extract hooks s = (s, .empty) := by
  rw [extract, Text.scan_eq_plain_of_finds none, collect_map_plain]

theorem tagsEnd_map_plain_iff (s : Text) :
    tagsEnd (s.map .plain) = true ↔ ∀ back, back <:+ s →
      ∀ name raw rest, openTag? back = some (name, raw, rest) → Attributes.Ends raw := by
  induction s with
  | nil => simp [tagsEnd, openTag?]
  | cons c s ih =>
    have sources : (.plain c :: s.map .plain : List (Piece Captured)).flatMap Piece.source =
        c :: s := by
      simp [Piece.source, List.flatMap_map]
    rw [List.map_cons, tagsEnd, sources, Bool.and_eq_true, ih, Option.all_eq_true]
    simp only [List.suffix_cons_iff, forall_eq_or_imp, Attributes.ends_iff, Prod.forall]

/-- Where no element is taken out, every open tag has to be read to its end. -/
theorem extractEnds_iff_of_finds (none : Text.finds read s = []) :
    extractEnds s = true ↔ ∀ back, back <:+ s →
      ∀ name raw rest, openTag? back = some (name, raw, rest) → Attributes.Ends raw := by
  rw [extractEnds, Text.scan_eq_plain_of_finds none, tagsEnd_map_plain_iff]

end Captured

namespace Code

theorem not_isReserved_of_isDigit {c : Char} (digit : isDigit c = true) : isReserved c = false := by
  have high : c ≤ '9' := by simpa using (Bool.and_eq_true_iff.mp digit).2
  by_contra reserved
  have low : '\ue000' ≤ c := by
    have inside : isReserved c = true := by simpa using reserved
    simpa using (Bool.and_eq_true_iff.mp inside).1
  exact absurd (Char.le_trans low high) (by decide)

/-- Extraction brings no characters of stand-ins. -/
theorem not_isReserved_extract {hooks : TagHooks} {s : Text}
    (clear : ∀ c ∈ s, isReserved c = false) : ∀ c ∈ (extract hooks s).1, isReserved c = false := by
  intro c member
  rcases Captured.mem_collect member with source | ⟨k, n, mark⟩
  · rw [Text.sources_scan] at source
    exact clear c source
  · have all : ∀ c ∈ k.placeholder n, isReserved c = false := by
      simp only [TagKind.placeholder, List.forall_mem_append]
      exact ⟨⟨⟨⟨by decide, by cases k <;> decide⟩, by decide⟩, fun c member =>
        not_isReserved_of_isDigit (Text.isDigit_of_mem_ofNat member)⟩, by decide⟩
    exact all c mark

section

variable {b : Text} (sample : IsSample b)

include sample

theorem exists_presTaken_quoted : ∃ x, (presTaken (quoted b)).text = quoted x ∧ IsSample x :=
  Marked.exists_eq_quoted sample (Element.delimited_read "pre") (.place (by decide) _ _ _)

theorem exists_elementsTaken_quoted :
    ∃ x, (elementsTaken (quoted b)).text = quoted x ∧ IsSample x := by
  obtain ⟨x, text, inner⟩ := exists_presTaken_quoted sample
  refine Marked.exists_eq_quoted inner (Element.delimited_read "code") ?_
  rw [← text]
  exact .place (by decide) _ _ _

theorem not_infix_fence_quoted : ¬fence <:+: quoted b := by
  intro h
  have none : b.count '\x60' = 0 := List.count_eq_zero.mpr fun member => by
    simpa [isInlineChar] using sample.inner _ member
  have two : (quoted b).count '\x60' = 2 := by simp [quoted, none]
  have three := h.sublist.count_le '\x60'
  rw [two] at three
  exact absurd three (by decide)

/-- The code in a sample is taken out as a whole, after the elements in it. -/
theorem exists_protect_quoted (clear : ∀ c ∈ quoted b, isReserved c = false) :
    ∃ x, (elementsTaken (quoted b)).text = quoted x ∧ IsSample x ∧
      protect (quoted b) = ⟨inline.token (elementsTaken (quoted b)).parts.length,
        (elementsTaken (quoted b)).parts ++ [inlineHtml x]⟩ := by
  obtain ⟨y, pres, plain⟩ := exists_presTaken_quoted sample
  obtain ⟨x, elements, inner⟩ := exists_elementsTaken_quoted sample
  have noBlock : Text.finds readBlock (presTaken (quoted b)).text = [] :=
    finds_readBlock_eq_nil (pres ▸ not_infix_fence_quoted plain)
  obtain ⟨before, scanned⟩ := Text.scanFrom_found readInline (p := quoted x) (w := [])
    (List.cons_ne_nil _ _) (readInline_quoted inner.some inner.inner none [])
  rw [List.append_nil] at scanned
  refine ⟨x, elements, inner, ?_⟩
  rw [protect_eq_take clear, blocksTaken_eq noBlock]
  change (elementsTaken (quoted b)).take inline readInline _ = _
  rw [Protected.take, elements, Text.scan, scanned]
  simp [Text.scanFrom, StandIn.place]

end

/-- A source that is protected as one stand-in is a paragraph. -/
theorem transform_of_protect {k : Nat} {parts : List Text}
    (taken : protect s = ⟨inline.token k, parts⟩) :
    transform s = ⟨restore parts ("<p>" ++ inline.token k ++ "</p>"), []⟩ := by
  rw [transform]
  simp only [taken, beforeEmbeds_inline_token, fromEmbeds_inline_token, embedScripts_inline_token]

theorem inlineHtml_eq (code : Text) :
    inlineHtml code = "<code>" ++ (escapeHtml code ++ "</code>") :=
  List.append_assoc _ _ _

/-- What code within a line is filled with, if it can be numbered. -/
theorem restore_paragraph (parts : List Text) (x : Text) :
    restore (parts ++ [inlineHtml x]) ("<p>" ++ inline.token parts.length ++ "</p>") =
      "<p>" ++ (if parts.length ≤ Text.maxIndex
        then "<code>" ++ restore parts (escapeHtml x) ++ "</code>" else []) ++ "</p>" := by
  have unopened : ∀ t ∈ (["<p>", "</p>", "<code>", "</code>"] : List Text), ∀ c ∈ t,
      c ∉ standIns.map StandIn.opening := by decide
  have html : StandIn.fill standIns (filledParts parts) (inlineHtml x) =
      "<code>" ++ restore parts (escapeHtml x) ++ "</code>" := by
    have parted : Parted (escapeHtml x) "</code>" := .of_head (by decide) (by decide)
    rw [inlineHtml_eq, StandIn.fill_append_of_unopened (unopened _ (by simp)),
      StandIn.fill_append mem_allStandIns parted,
      StandIn.fill_plain (unopened "</code>" (by simp)), List.append_assoc]
    rfl
  have there : (filledParts (parts ++ [inlineHtml x]))[parts.length]? =
      some ("<code>" ++ restore parts (escapeHtml x) ++ "</code>") := by
    rw [filledParts_append, html, Array.getElem?_push, size_filledParts, if_pos rfl]
  rw [restore, List.append_assoc, StandIn.fill_append_of_unopened (unopened _ (by simp)),
    StandIn.fill_append_token mem_allStandIns (by decide), Text.index?_ofNat_eq,
    StandIn.fill_plain (unopened "</p>" (by simp)), ← List.append_assoc]
  by_cases fits : parts.length ≤ Text.maxIndex
  · simp [fits, there]
  · simp [fits]

/-- Every find has a stand-in with the number under which its source is kept. -/
theorem exists_token_of_place (kind : StandIn) {pieces : List (Piece α)} {source : Text} {value : α}
    (member : .found source value ∈ pieces) (n : Nat) :
    ∃ i, (kind.place (fun source _ => source) n pieces).2[i]? = some source ∧
      kind.token (n + i) <:+: (kind.place (fun source _ => source) n pieces).1 := by
  induction pieces generalizing n with
  | nil => simp at member
  | cons piece pieces ih =>
    cases piece with
    | plain c =>
      obtain ⟨i, there, token⟩ := ih (by simpa using member) n
      exact ⟨i, there, token.trans (List.suffix_cons c _).isInfix⟩
    | found other value' =>
      rcases List.mem_cons.mp member with same | later
      · obtain ⟨rfl, rfl⟩ := Piece.found.inj same
        exact ⟨0, rfl, (List.prefix_append _ _).isInfix⟩
      · obtain ⟨i, there, token⟩ := ih later (n + 1)
        refine ⟨i + 1, there, ?_⟩
        rw [Nat.add_comm i 1, ← Nat.add_assoc]
        exact token.trans (List.suffix_append _ _).isInfix

/-- Where something is found, a part is taken out and its stand-in left. -/
theorem exists_token_of_take {read : Reader α} {p : Protected} (kind : StandIn)
    (delimited : read.Delimited ['<'] ['>']) (some : Text.finds read p.text ≠ []) :
    ∃ i part, (p.take kind read fun source _ => source).parts[i]? = .some part ∧ '<' ∈ part ∧
      kind.token i <:+: (p.take kind read fun source _ => source).text := by
  obtain ⟨value, found⟩ := List.exists_mem_of_ne_nil _ some
  obtain ⟨source, member⟩ := Text.mem_finds.mp found
  obtain ⟨first, middle, last, begins, opens, _⟩ := delimited.source member
  have bracket : '<' ∈ source := by
    rw [begins, ← List.mem_singleton.mp opens]
    exact List.mem_cons_self
  obtain ⟨i, there, token⟩ := exists_token_of_place kind member p.parts.length
  refine ⟨p.parts.length + i, source, ?_, bracket, token⟩
  refine (List.getElem?_append_right (Nat.le_add_right _ _)).trans ?_
  rwa [Nat.add_sub_cancel_left]

/-- A part with a bracket still has it when it is filled. -/
theorem hasFilled_bracket {parts : List Text} {i : Nat} {part : Text}
    (there : parts[i]? = some part) (bracket : '<' ∈ part) : HasFilled parts i ['<'] := by
  refine ⟨_, getElem?_filledParts there, ?_⟩
  obtain ⟨front, back, rfl⟩ := List.append_of_mem bracket
  have parted : Parted front ('<' :: back) := .of_head (by decide) (by decide)
  rw [StandIn.fill_append mem_allStandIns parted, StandIn.fill_cons (by decide)]
  exact (List.prefix_append ['<'] _).isInfix.trans (List.suffix_append _ _).isInfix

theorem infix_of_quoted {w x : Text} (unquoted : '\x60' ∉ w) (h : w <:+: quoted x) : w <:+: x := by
  have marks {c : Char} (first : c ∈ w) : c ∉ ['\x60'] := fun quote =>
    unquoted (List.mem_singleton.mp quote ▸ first)
  have behind : w <:+: x ++ ['\x60'] :=
    Text.infix_right (x := ['\x60']) h fun c first => marks (List.mem_of_mem_head? first)
  exact Text.infix_left behind fun c last => marks (List.mem_of_mem_getLast? last)

/-- Where code is restored without a bracket, no elements were in it. -/
theorem finds_of_restore {x : Text} {parts : List Text}
    (taken : elementsTaken s = ⟨quoted x, parts⟩) (fits : parts.length ≤ Text.maxIndex)
    (plain : '<' ∉ restore parts (escapeHtml x)) :
    Text.finds (Element.read "pre") s = [] ∧ Text.finds (Element.read "code") s = [] := by
  -- A stand-in that is left in the code brings back the bracket of its part.
  have none {kind : StandIn} {i : Nat} {part : Text} (known : kind ∈ standIns)
      (there : parts[i]? = some part) (bracket : '<' ∈ part) : ¬kind.token i <:+: quoted x := by
    intro token
    have apart : ∀ c ∈ '\x60' :: escapedChars, c ∉ kind.token i := by
      have others : ∀ c ∈ '\x60' :: escapedChars, isDigit c = false ∧
          c ∉ allStandIns.map StandIn.opening ∧ c ∉ allStandIns.map StandIn.closing := by decide
      intro c mark
      obtain ⟨digit, opening, closing⟩ := others c mark
      exact StandIn.not_mem_token (mem_allStandIns kind known) digit opening closing i
    have inner : kind.token i <:+: x := infix_of_quoted (apart _ List.mem_cons_self) token
    have escaped : kind.token i <:+: escapeHtml x := infix_escapeHtml inner
      fun c member mark => apart c (List.mem_cons_of_mem _ mark) member
    have index := (List.getElem?_eq_some_iff.mp there).1
    exact plain (((hasFilled_bracket there bracket).restore known escaped (by omega)).subset
      List.mem_cons_self)
  have noCode : Text.finds (Element.read "code") (presTaken s).text = [] := by
    by_contra some
    obtain ⟨i, part, there, bracket, token⟩ :=
      exists_token_of_take inline (Element.delimited_read "code") some
    rw [← elementsTaken, taken] at there token
    exact none (by decide) there bracket token
  have same : elementsTaken s = presTaken s := take_of_finds_eq_nil noCode
  have noPre : Text.finds (Element.read "pre") s = [] := by
    by_contra some
    obtain ⟨i, part, there, bracket, token⟩ :=
      exists_token_of_take (p := ⟨s, []⟩) block (Element.delimited_read "pre") some
    rw [← presTaken, ← same, taken] at there token
    exact none (by decide) there bracket token
  have pres : presTaken s = ⟨s, []⟩ := take_of_finds_eq_nil noPre
  rw [pres] at noCode
  exact ⟨noPre, noCode⟩

theorem elementsTaken_of_finds (noPre : Text.finds (Element.read "pre") s = [])
    (noCode : Text.finds (Element.read "code") s = []) : elementsTaken s = ⟨s, []⟩ := by
  have pres : presTaken s = ⟨s, []⟩ := take_of_finds_eq_nil noPre
  rw [elementsTaken, pres]
  exact take_of_finds_eq_nil noCode

end Code

section

variable {b : Text} (sample : Code.IsSample b) (clear : ∀ c ∈ b, Code.isReserved c = false)

include sample

theorem exists_extract_quoted (hooks : TagHooks) :
    ∃ x, (extract hooks (Code.quoted b)).1 = Code.quoted x ∧ Code.IsSample x :=
  Code.Marked.exists_eq_quoted sample Captured.delimited_read (.collect _ _ _)

include clear

/-- What a sample is compiled to: a paragraph with the code that is left of it, escaped, and the
elements that were in the code put back into it. -/
theorem compile_quoted_eq (options : CompileOptions)
    (normal : Source.normalize (Code.quoted b) = Code.quoted b) :
    ∃ x parts, Code.elementsTaken (extract options.hooks (Code.quoted b)).1 =
        ⟨Code.quoted x, parts⟩ ∧
      compile options (Code.quoted b) = ⟨"<p>" ++ (if parts.length ≤ Text.maxIndex
        then "<code>" ++ Code.restore parts (escapeHtml x) ++ "</code>" else []) ++ "</p>",
        (extract options.hooks (Code.quoted b)).2⟩ := by
  have source : ∀ c ∈ Code.quoted b, Code.isReserved c = false := by
    simp only [Code.quoted, List.forall_mem_cons, List.forall_mem_append]
    exact ⟨by decide, clear, by decide, by simp⟩
  have skeleton := @Code.not_isReserved_extract options.hooks _ source
  obtain ⟨y, extracted, plain⟩ := exists_extract_quoted sample options.hooks
  rw [extracted] at skeleton
  obtain ⟨x, elements, _, taken⟩ := Code.exists_protect_quoted plain skeleton
  refine ⟨x, (Code.elementsTaken (Code.quoted y)).parts, ?_, ?_⟩
  · rw [extracted, ← elements]
  · rw [compile, normal]
    simp only [extracted, Code.transform_of_protect taken, Code.restore_paragraph, List.foldl_nil]

end

/-- A sample of code from which no element is taken into the table leaves the table empty, and it is
shown as it is written exactly if no element that is code itself is in it. -/
theorem compile?_quoted (options : CompileOptions) {b : Text} (some : b ≠ [])
    (unquoted : '\x60' ∉ b) (oneLine : '\n' ∉ b) (clear : IsClear b)
    (normal : Source.normalize (Code.quoted b) = Code.quoted b)
    (ends : ∀ back, back <:+ Code.quoted b → ∀ name raw rest,
      Captured.openTag? back = .some (name, raw, rest) → Attributes.Ends raw)
    (noTag : Text.finds Captured.read (Code.quoted b) = []) :
    ∃ skeleton, compile? options (Code.quoted b) = .some ⟨skeleton, .empty⟩ ∧
      (skeleton = "<p><code>" ++ escapeHtml b ++ "</code></p>" ↔
        Text.finds (Element.read "pre") (Code.quoted b) = [] ∧
          Text.finds (Element.read "code") (Code.quoted b) = []) := by
  have sample : Code.IsSample b := ⟨some, fun c member => by
    have noQuote : c ≠ '\x60' := ne_of_mem_of_not_mem member unquoted
    have noBreak : c ≠ '\n' := ne_of_mem_of_not_mem member oneLine
    simp [Code.isInlineChar, noQuote, noBreak]⟩
  obtain ⟨x, parts, taken, compiled⟩ :=
    compile_quoted_eq sample clear.not_isReserved options normal
  rw [Captured.extract_of_finds noTag] at taken compiled
  have ends : extractEnds (Code.quoted b) := (Captured.extractEnds_iff_of_finds noTag).mpr ends
  refine ⟨_, by rw [compile?, normal, if_pos ends, compiled], ?_⟩
  constructor
  · intro html
    have fits : parts.length ≤ Text.maxIndex := by
      by_contra far
      rw [if_neg far] at html
      simp at html
    have inside : Code.restore parts (escapeHtml x) = escapeHtml b := by
      rw [if_pos fits] at html
      simpa using html
    exact Code.finds_of_restore taken fits fun bracket =>
      not_mem_delimiters_of_mem_escapeHtml b '<' (inside ▸ bracket) (by decide)
  · rintro ⟨noPre, noCode⟩
    rw [Code.elementsTaken_of_finds noPre noCode] at taken
    obtain ⟨same, rfl⟩ := Code.Protected.mk.inj taken
    obtain rfl : b = x := by simpa [Code.quoted] using same
    have plain : Code.restore [] (escapeHtml b) = escapeHtml b :=
      StandIn.fill_plain fun c member => Code.not_mem_openings
        (Code.not_isReserved_inlineHtml sample.some sample.inner clear.not_isReserved c
          (by simp [Code.inlineHtml_eq, member]))
    simp [plain]

/-- Markup, a placeholder and the open tag of a script are shown as they are written. -/
theorem compile?_quoted_markup :
    let b : Text := "<script a=b> <em>\x7b\x7ba\x7d\x7d</em> & b"
    (b ≠ [] ∧ '\x60' ∉ b ∧ '\n' ∉ b ∧ IsClear b ∧
      Source.normalize (Code.quoted b) = Code.quoted b ∧
      (∀ back, back <:+ Code.quoted b → ∀ name raw rest,
        Captured.openTag? back = some (name, raw, rest) → Attributes.Ends raw) ∧
      Text.finds Captured.read (Code.quoted b) = []) ∧
    compile? {} (Code.quoted b) = some ⟨"<p><code>" ++ escapeHtml b ++ "</code></p>", .empty⟩ := by
  intro b
  have some : b ≠ [] := by decide
  have unquoted : '\x60' ∉ b := by decide
  have oneLine : '\n' ∉ b := by decide
  have clear : IsClear b := by decide
  have normal : Source.normalize (Code.quoted b) = Code.quoted b := by decide +kernel
  have noTag : Text.finds Captured.read (Code.quoted b) = [] := by decide +kernel
  have ends := (Captured.extractEnds_iff_of_finds noTag).mp (by decide +kernel)
  obtain ⟨skeleton, compiled, shown⟩ :=
    compile?_quoted {} some unquoted oneLine clear normal ends noTag
  refine ⟨⟨some, unquoted, oneLine, clear, normal, ends, noTag⟩, ?_⟩
  rw [compiled, shown.mpr (by decide +kernel)]

/-- Code in a sample of code is kept as an element. -/
theorem compile?_quoted_code :
    let b : Text := "<code>x</code>"
    (b ≠ [] ∧ '\x60' ∉ b ∧ '\n' ∉ b ∧ IsClear b ∧
      Source.normalize (Code.quoted b) = Code.quoted b) ∧
    compile? {} (Code.quoted b) = some ⟨"<p><code><code>x</code></code></p>", .empty⟩ ∧
    compile? {} (Code.quoted b) ≠
      some ⟨"<p><code>" ++ escapeHtml b ++ "</code></p>", .empty⟩ := by
  have shown : compile? {} (Code.quoted "<code>x</code>") =
      some ⟨"<p><code><code>x</code></code></p>", .empty⟩ := by
    decide +kernel
  refine ⟨by decide, shown, ?_⟩
  rw [shown]
  decide

end Stencil
