import Stencil.Proofs.Inline.Anchors
import Stencil.Proofs.Inline.EmphasisAccount
import Stencil.Proofs.Inline.Restore
import Stencil.Proofs.Template.Settled
import Stencil.Proofs.Template.SingleLine

/-!
# A URL on its own

A text that is a URL as a whole (`BareUrl.isUrl_iff`) goes through most stages as it is: it has none
of the characters that they look for.  Only emphasis may see something in it, since underscores and
tildes belong to URLs, and then bare URLs are read in what is left
(`BareUrl.IsUrl.html_transform_eq`).  So the page is a link to the URL exactly if there is no run
between two pairs of underscores or tildes in it (`transform_url_iff`).
-/

namespace Stencil

open Emphasis (Dressed IsUnmarked emphasize)

variable {c : Char} {s t u : Text}

namespace BareUrl

/-! ## URLs as a whole -/

/-- Whether a text is a URL: a scheme, a host, and what may follow one. -/
inductive IsUrl : Text → Prop where
  | intro {scheme host tail : Text} (known : scheme ∈ (["http://", "https://"] : List Text))
    (some : host ≠ []) (inHost : ∀ c ∈ host, isHostChar c = true)
    (inTail : ∀ c ∈ tail, isTailChar c = true) (ends : ∀ c ∈ tail.getLast?, isEndChar c = true) :
    IsUrl (scheme ++ (host ++ tail))

/-- There are two schemes. -/
theorem afterScheme?_eq_some_iff : afterScheme? s = some t ↔
    ∃ scheme ∈ (["http://", "https://"] : List Text), s = scheme ++ t := by
  constructor
  · intro found
    rcases Option.or_eq_some_iff.mp found with secure | ⟨_, plain⟩
    · exact ⟨_, by simp, Text.after?_eq_some secure⟩
    · exact ⟨_, by simp, Text.after?_eq_some plain⟩
  · rintro ⟨scheme, known, rfl⟩
    rw [List.mem_cons, List.mem_singleton] at known
    rcases known with rfl | rfl
    · have other : Text.after? "https://" ("http://" ++ t) = none := rfl
      rw [afterScheme?, other, Text.after?_append]
      rfl
    · rw [afterScheme?, Text.after?_append]
      rfl

/-- What may follow a host is what the reader takes for its tail. -/
theorem tail_eq_self_iff : tail s = s ↔
    (∀ c ∈ s, isTailChar c = true) ∧ ∀ c ∈ s.getLast?, isEndChar c = true := by
  constructor
  · intro whole
    have inside : tail s <+: s.takeWhile isTailChar := Text.dropEndWhile_prefix _ _
    refine ⟨fun c member => ?_, fun c last => ?_⟩
    · rw [← whole] at member
      exact List.mem_takeWhile_imp (inside.subset member)
    · rw [← whole, Option.mem_def] at last
      simpa using Text.not_of_getLast_dropEndWhile last
  · rintro ⟨inTail, ends⟩
    have kept := @Text.dropEndWhile_append (fun c => !isEndChar c) s
      (fun c last => by simpa using ends c last) []
    rw [List.append_nil] at kept
    rw [tail, List.takeWhile_eq_self_iff.mpr inTail, kept]
    simp [Text.dropEndWhile]

/-- The reader reads a text as a whole exactly if it is a URL. -/
theorem isUrl_iff (before : Option Char) :
    IsUrl u ↔ read before u = some (!before.any hides, []) := by
  constructor
  · rintro ⟨known, some, inHost, inTail, ends⟩
    rename_i scheme host after
    have schemed : afterScheme? (scheme ++ (host ++ after)) = .some (host ++ after) :=
      afterScheme?_eq_some_iff.mpr ⟨scheme, known, rfl⟩
    have taken : (host ++ after).takeWhile isHostChar ≠ [] := by
      rw [List.takeWhile_append_of_pos inHost]
      exact List.append_ne_nil_of_left_ne_nil some _
    have dropped : (host ++ after).dropWhile isHostChar = after.dropWhile isHostChar :=
      List.dropWhile_append_of_pos inHost
    have behind := List.dropWhile_suffix isHostChar (l := after)
    have whole : tail (after.dropWhile isHostChar) = after.dropWhile isHostChar := by
      refine tail_eq_self_iff.mpr ⟨fun c member => inTail c (behind.subset member), ?_⟩
      intro c last
      obtain ⟨front, split⟩ := behind
      refine ends c ?_
      rw [← split, List.getLast?_append]
      simp [Option.mem_def.mp last]
    rw [read_eq, schemed, Option.bind_some, if_neg (by simpa using taken), dropped, whole]
    simp
  · rw [read_eq]
    intro found
    obtain ⟨behind, schemed, hosted⟩ := Option.bind_eq_some_iff.mp found
    obtain ⟨scheme, known, rfl⟩ := afterScheme?_eq_some_iff.mp schemed
    split at hosted
    · simp at hosted
    · next some =>
      obtain ⟨_, left⟩ := Prod.mk.inj (Option.some.inj hosted)
      have leads := tail_prefix (behind.dropWhile isHostChar)
      have whole : tail (behind.dropWhile isHostChar) = behind.dropWhile isHostChar :=
        leads.eq_of_length_le (List.drop_eq_nil_iff.mp left)
      obtain ⟨inTail, ends⟩ := tail_eq_self_iff.mp whole
      rw [← List.takeWhile_append_dropWhile (p := isHostChar) (l := behind)]
      exact .intro known (by simpa using some) (fun c => List.mem_takeWhile_imp) inTail ends

theorem not_isSpace_of_isTailChar (inTail : isTailChar c = true) : isSpace c = false := by
  simp only [isTailChar, isEndChar, Bool.or_eq_true, beq_iff_eq, List.contains_iff_mem] at inTail
  rcases inTail with (((word | sign) | rfl) | rfl) | rfl
  · exact Text.not_isSpace_of_isWord word
  · exact (show ∀ c ∈ endSigns, isSpace c = false by decide) c sign
  all_goals decide

instance (u : Text) : Decidable (IsUrl u) := decidable_of_iff _ (isUrl_iff none).symm

namespace IsUrl

variable (url : IsUrl u)

include url

theorem isTailChar_of_mem (member : c ∈ u) : isTailChar c = true := by
  obtain ⟨known, _, inHost, inTail, _⟩ := url
  rcases List.mem_append.mp member with schemed | member
  · have schemes : ∀ scheme ∈ (["http://", "https://"] : List Text), ∀ c ∈ scheme,
        isTailChar c = true := by decide
    exact schemes _ known c schemed
  · rcases List.mem_append.mp member with hosted | behind
    · exact isTailChar_of_isHostChar (inHost c hosted)
    · exact inTail c behind

theorem not_mem (foreign : isTailChar c = false) : c ∉ u := fun member => by
  simp [url.isTailChar_of_mem member] at foreign

/-- A URL has no character of some that no URL has. -/
theorem forall_not_mem {chars : List Char} (foreign : ∀ c ∈ chars, isTailChar c = false) :
    ∀ c ∈ u, c ∉ chars := fun c member inside => url.not_mem (foreign c inside) member

theorem exists_eq_cons : ∃ t, u = 'h' :: t := by
  obtain ⟨known, _⟩ := url
  rw [List.mem_cons, List.mem_singleton] at known
  rcases known with rfl | rfl <;> exact ⟨_, rfl⟩

theorem bareUrls_eq : bareUrls u = html u := by
  have found := (isUrl_iff none).mp url
  obtain ⟨t, rfl⟩ := url.exists_eq_cons
  rw [← List.append_nil ('h' :: t)] at found
  obtain ⟨before, scanned⟩ := Text.scanFrom_found read (List.cons_ne_nil 'h' t) found
  rw [List.append_nil] at scanned
  rw [bareUrls, Text.substitute, Text.scan, scanned]
  simp [Text.scanFrom, Text.ofPieces]

/-! ## Marks in a URL -/

/-- Phrases in URLs need only have something in them. -/
theorem isPhrase_iff {phrase : Text} (part : phrase <:+: u) :
    Emphasis.isPhrase phrase = true ↔ phrase ≠ [] := by
  have visible {c : Char} (member : c ∈ phrase) : isSpace c = false :=
    not_isSpace_of_isTailChar (url.isTailChar_of_mem (part.subset member))
  have oneLine : '\n' ∉ phrase := fun member => url.not_mem (by decide) (part.subset member)
  rcases List.eq_nil_or_concat' phrase with rfl | ⟨front, last, rfl⟩
  · simp [Emphasis.isPhrase]
  · obtain ⟨first, rest, split⟩ :=
      List.exists_cons_of_ne_nil (show front ++ [last] ≠ [] by simp)
    have starts : (front ++ [last]).head? = some first := by rw [split]; rfl
    have seen : isSpace first = false ∧ isSpace last = false :=
      ⟨visible (by simp [split]), visible (by simp)⟩
    rw [Emphasis.isPhrase, starts, List.getLast?_concat]
    simpa [seen] using oneLine

/-- A style finds a phrase in a URL exactly if there is a run between two of its marks. -/
theorem finds_eq_nil_iff {style : Emphasis.Style} (often : 0 < style.times) :
    Text.finds style.read u = [] ↔ ∀ phrase, phrase ≠ [] → style.sign ∉ phrase →
      ¬style.mark ++ phrase ++ style.mark <:+: u := by
  have part {phrase : Text} (inside : style.mark ++ phrase ++ style.mark <:+: u) :
      phrase <:+: u := .trans ⟨_, _, rfl⟩ inside
  rw [Emphasis.Style.finds_eq_nil_iff often]
  constructor
  · intro quiet phrase some absent inside
    exact quiet phrase ((url.isPhrase_iff (part inside)).mpr some) absent inside
  · intro quiet phrase shown absent inside
    exact quiet phrase ((url.isPhrase_iff (part inside)).mp shown) absent inside

/-- Only underscores and tildes can emphasise something in a URL, since it has no asterisks. -/
theorem isUnmarked_iff : IsUnmarked u ↔ ∀ sign ∈ ['_', '~'], ∀ phrase, phrase ≠ [] →
    sign ∉ phrase → ¬[sign, sign] ++ phrase ++ [sign, sign] <:+: u := by
  have signs : ∀ sign ∈ ['_', '~'], ∃ style ∈ Emphasis.styles,
      style.sign = sign ∧ style.mark = [sign, sign] := by
    simp [Emphasis.styles, Emphasis.Style.mark]
  have others : ∀ style ∈ Emphasis.styles, style.sign = '*' ∨
      style.sign ∈ ['_', '~'] ∧ style.mark = [style.sign, style.sign] := by
    simp [Emphasis.styles, Emphasis.Style.mark]
  constructor
  · intro unmarked sign member
    obtain ⟨style, known, rfl, mark⟩ := signs sign member
    rw [← mark]
    exact (url.finds_eq_nil_iff (Emphasis.Style.facts known).1).mp (unmarked style known)
  · intro quiet style known
    rw [url.finds_eq_nil_iff (Emphasis.Style.facts known).1]
    rcases others style known with asterisk | ⟨member, mark⟩
    · intro phrase _ _ inside
      have sign : '*' ∈ style.mark ++ phrase ++ style.mark := by
        simp [Emphasis.Style.mark, asterisk, (Emphasis.Style.facts known).1.ne']
      exact url.not_mem (by decide) (inside.subset sign)
    · rw [mark]
      exact quiet _ member

/-! ## Through the stages -/

theorem scan_eq_plain {α : Type} {read : Reader α} {firsts lasts : List Char}
    (delimited : read.Delimited firsts lasts) (foreign : ∀ c ∈ firsts, isTailChar c = false) :
    Text.scan read u = u.map .plain := delimited.scan_eq_plain (url.forall_not_mem foreign)

theorem not_mem_standInChars : ∀ c ∈ u, c ∉ standInChars := url.forall_not_mem (by decide +kernel)

theorem not_isReserved : ∀ c ∈ u, Code.isReserved c = false := by
  intro c member
  have apart : c ∉ (Numbering.code fun _ _ => False).chars := fun inside =>
    url.not_mem_standInChars c member (Numbering.mem_standInChars inside)
  exact Code.not_mem_chars_iff.mp apart

theorem not_isReserved_emphasis : ∀ c ∈ u, Emphasis.isReserved c = false := by
  have known : ∀ c ∈ [Emphasis.standIn.opening, Emphasis.standIn.closing], c ∈ standInChars := by
    decide
  intro c member
  have apart : c ∉ [Emphasis.standIn.opening, Emphasis.standIn.closing] := fun inside =>
    url.not_mem_standInChars c member (known c inside)
  simpa [Emphasis.isReserved] using apart

/-- There is no code in a URL. -/
theorem protect_eq : Code.protect u = ⟨u, []⟩ := by
  have nothing (name : Text) : Text.finds (Element.read name) u = [] :=
    Text.finds_of_scan_eq_plain (url.scan_eq_plain (Element.delimited_read name) (by decide))
  have pres : Code.presTaken u = ⟨u, []⟩ := Code.take_of_finds_eq_nil (nothing "pre")
  rw [Code.protect_eq url.not_isReserved (url.not_mem (by decide)), Code.elementsTaken, pres]
  exact Code.take_of_finds_eq_nil (nothing "code")

theorem sheltered_eq : Emphasis.sheltered u = u :=
  Emphasis.sheltered_eq_self (url.forall_not_mem (by decide))

theorem liftsAt_emphasize : LiftsAt emphasize IsUnmarked u := by
  have apart : ∀ c ∈ u, c ∉ Emphasis.firsts := url.forall_not_mem (by decide)
  have none : u.countP (· ∈ Emphasis.firsts) = 0 := by
    simpa [List.countP_eq_zero] using apart
  refine (Emphasis.liftsAt_emphasize url.not_isReserved_emphasis (none ▸ Nat.zero_le _)).of_iff ?_
  rw [url.sheltered_eq]

/-- Nothing in a URL is sheltered from emphasis. -/
theorem dressed_emphasize : Dressed [] u (emphasize u) := by
  have scanned := url.scan_eq_plain Emphasis.delimited_readSheltered (by decide)
  have spans : Emphasis.spans u = [] := by
    rw [Emphasis.spans, scanned]
    exact Text.foundSources_map_plain u
  have dressed := Emphasis.dressed_emphasize (url.not_mem (by decide)) url.not_isReserved_emphasis
    (by simp [spans])
  rwa [spans] at dressed

theorem exists_emphasize_eq_cons : ∃ t, emphasize u = 'h' :: t := by
  obtain ⟨t, begins⟩ := url.exists_eq_cons
  obtain ⟨t', applied⟩ := Emphasis.exists_applyAll_cons (c := 'h') (by decide) t
  rw [Emphasis.emphasize_eq url.not_isReserved_emphasis, url.sheltered_eq, begins, applied,
    StandIn.fill_cons (by decide)]
  exact ⟨_, rfl⟩

/-- What emphasis makes of a URL has no character that no URL and no tag of emphasis has. -/
theorem emphasize_not_mem (foreign : isTailChar c = false)
    (other : ∀ tag ∈ Emphasis.tags, c ∉ tag) : c ∉ emphasize u := by
  have all := url.dressed_emphasize.forall_mem (p := (· ≠ c))
    (fun tag known d member same => other tag known (same ▸ member)) (by simp)
    fun d member same => url.not_mem foreign (same ▸ member)
  exact fun member => all c member rfl

theorem beforeEmbeds_eq : beforeEmbeds u = emphasize u := by
  have formed : forms u = u := by
    rw [forms, Text.substitute, url.scan_eq_plain (Element.delimited_read "form") (by decide),
      Text.ofPieces_map_plain]
  have oneLine := url.emphasize_not_mem (c := '\n') (by decide) (by decide)
  obtain ⟨t, begins⟩ := url.exists_emphasize_eq_cons
  rw [beforeEmbeds, formed]
  rw [begins] at oneLine ⊢
  exact wholeLines_eq_self oneLine (by decide)

end IsUrl

/-- A text in which bare URLs are links has the characters of the text, of the tags of links and of
entities. -/
theorem forall_mem_bareUrls {p : Char → Prop} (tags : ∀ c ∈ ("<a href=\"\"></a>" : Text), p c)
    (entities : ∀ c ∈ ("&amp;&lt;&gt;&lbrace;&rbrace;" : Text), p c) (own : ∀ c ∈ s, p c) :
    ∀ c ∈ bareUrls s, p c := by
  have inside {url : Text} (part : ∀ c ∈ url, p c) : ∀ c ∈ html url, p c := by
    have escaped := forall_mem_escapeHtml entities part
    have written : (∀ c ∈ ("<a href=\"" : Text), p c) ∧ (∀ c ∈ ("\">" : Text), p c) ∧
        ∀ c ∈ ("</a>" : Text), p c := by
      simpa [and_assoc] using tags
    unfold html
    generalize escapeHtml url = text at escaped
    simp only [List.forall_mem_append]
    exact ⟨⟨⟨⟨written.1, part⟩, written.2.1⟩, escaped⟩, written.2.2⟩
  intro c member
  obtain ⟨piece, here, member⟩ := List.mem_flatMap.mp member
  have source : ∀ c ∈ piece.source, p c := fun c inside =>
    own c (Text.mem_of_mem_scanFrom here inside)
  cases piece with
  | plain d => exact source c member
  | found url isLink =>
    dsimp only at member
    split at member
    · exact inside source c member
    · exact source c member

/-- What bare URLs make of a text that may begin with one begins like a text. -/
theorem startsText_bareUrls (t : Text) :
    ∃ c rest, bareUrls ('h' :: t) = c :: rest ∧ beginsBlock c = false ∧
      Paragraph.startsText (c :: rest) = true := by
  have word (rest : Text) : Paragraph.startsText ('h' :: rest) = true := by
    have letter : isWord 'h' = true := by decide
    simp [Paragraph.startsText, letter]
  have anchor (rest : Text) : Paragraph.startsText ('<' :: 'a' :: ' ' :: rest) = true := by
    simp [Paragraph.startsText, Paragraph.inlineTags, Text.startsWith]
  rw [bareUrls, Text.substitute, Text.scan, Text.scanFrom]
  cases found : read none ('h' :: t) with
  | none => exact ⟨'h', _, rfl, by decide, word _⟩
  | some answer =>
    obtain ⟨isLink, left⟩ := answer
    cases isLink with
    | true => exact ⟨'<', _, rfl, by decide, anchor _⟩
    | false => exact ⟨'h', _, rfl, by decide, word _⟩

namespace IsUrl

variable (url : IsUrl u)

include url

/-- From embeds on, a line that begins like a text is only searched for URLs and wrapped. -/
theorem fromEmbeds_eq : fromEmbeds (emphasize u) = "<p>" ++ bareUrls (emphasize u) ++ "</p>" := by
  have scan {α : Type} {read : Reader α} {first : Char} {lasts : List Char}
      (delimited : read.Delimited [first] lasts) (foreign : isTailChar first = false)
      (other : ∀ tag ∈ Emphasis.tags, first ∉ tag) : Text.finds read (emphasize u) = [] :=
    Text.finds_of_scan_eq_plain (delimited.scan_eq_plain fun c member inside => by
      obtain rfl := List.mem_singleton.mp inside
      exact url.emphasize_not_mem foreign other member)
  have embedded := (liftsAt_embeds (emphasize u)).eq_self (by
    simp [scan Embed.delimited_read (by decide) (by decide)])
  have linked := (liftsAt_links (emphasize u)).eq_self (by
    simp [scan Link.delimited_read (by decide) (by decide)])
  have oneLine : ∀ c ∈ bareUrls (emphasize u), c ≠ '\n' := by
    refine forall_mem_bareUrls (by decide) (by decide) fun c member same => ?_
    exact url.emphasize_not_mem (by decide) (by decide) (same ▸ member)
  have single : '\n' ∉ bareUrls (emphasize u) := fun member => oneLine _ member rfl
  obtain ⟨t, begins⟩ := url.exists_emphasize_eq_cons
  obtain ⟨c, rest, written, plain, starts⟩ := startsText_bareUrls t
  rw [fromEmbeds, embedded, linked]
  rw [begins, written] at single ⊢
  exact paragraphs_eq single plain starts

/-- Whatever emphasis makes of a URL, bare URLs in it become links, and nothing else happens. -/
theorem html_transform_eq :
    (transform u).html = "<p>" ++ bareUrls (emphasize u) ++ "</p>" := by
  have unopened : ∀ c ∈ bareUrls (emphasize u), c ∉ Code.standIns.map StandIn.opening := by
    refine forall_mem_bareUrls (by decide) (by decide) ?_
    refine url.dressed_emphasize.forall_mem (by decide) (by simp) fun c member => ?_
    exact Code.not_mem_openings (url.not_isReserved c member)
  have paragraph : ∀ t ∈ (["<p>", "</p>"] : List Text), ∀ c ∈ t,
      c ∉ Code.standIns.map StandIn.opening := by decide
  rw [html_transform, url.protect_eq, url.beforeEmbeds_eq, url.fromEmbeds_eq, Code.restore]
  refine StandIn.fill_plain ?_
  simp only [List.forall_mem_append]
  exact ⟨⟨paragraph "<p>" (by simp), unopened⟩, paragraph "</p>" (by simp)⟩

/-- A URL in which something is emphasised is no link to itself afterwards. -/
theorem bareUrls_emphasize_iff : bareUrls (emphasize u) = html u ↔ IsUnmarked u := by
  refine ⟨fun linked => ?_, fun unmarked => ?_⟩
  · by_contra loud
    obtain ⟨t, begins⟩ := url.exists_emphasize_eq_cons
    obtain ⟨x, opens⟩ : ∃ x, html u = '<' :: x := ⟨_, rfl⟩
    have changed : bareUrls (emphasize u) ≠ emphasize u := by
      rw [linked, opens, begins]
      simp
    obtain ⟨front, url', y, written, start, plain⟩ := exists_html_of_ne changed
    change bareUrls (emphasize u) = _ at written
    -- The link is the first thing in the page, so its URL is the first thing in the text.
    obtain rfl : front = [] := by
      cases front with
      | nil => rfl
      | cons d front =>
        rw [begins, List.cons_append] at start
        rw [linked, opens, List.cons_append] at written
        obtain ⟨rfl, _⟩ := List.cons_prefix_cons.mp start
        exact absurd (List.cons.inj written).1 (by decide)
    obtain ⟨a, b, same⟩ : ∃ a b, u ++ '"' :: a = url' ++ '"' :: b := by
      rw [linked] at written
      unfold html at written
      generalize escapeHtml u = text at written
      generalize escapeHtml url' = text' at written
      exact ⟨'>' :: (text ++ "</a>"), '>' :: (text' ++ "</a>" ++ y), by simpa using written⟩
    have quote : '"' ∉ u := url.not_mem (by decide)
    have quote' : '"' ∉ url' := plain _ (by decide)
    obtain rfl : u = url' := by
      rcases Text.append_cons_eq_append_cons same with ⟨a, rfl, _⟩ | ⟨same, _⟩ | ⟨a, rfl, _⟩
      · exact absurd (by simp) quote'
      · exact same
      · exact absurd (by simp) quote
    exact (url.liftsAt_emphasize.rises loud).not_isPrefix start
  · rw [url.liftsAt_emphasize.eq_self unmarked, url.bareUrls_eq]

end IsUrl

end BareUrl

/-- A URL on its own becomes whatever bare URLs make of it once it is emphasised.  That is a link to
itself exactly if there is no run between two pairs of underscores or tildes in it. -/
theorem transform_url_iff (url : BareUrl.IsUrl u) :
    (transform u).html = "<p>" ++ bareUrls (emphasize u) ++ "</p>" ∧
      ((transform u).html = "<p><a href=\"" ++ u ++ "\">" ++ escapeHtml u ++ "</a></p>" ↔
        ∀ sign ∈ ['_', '~'], ∀ phrase, phrase ≠ [] → sign ∉ phrase →
          ¬[sign, sign] ++ phrase ++ [sign, sign] <:+: u) := by
  have whole : ("<p><a href=\"" ++ u ++ "\">" ++ escapeHtml u ++ "</a></p>" : Text) =
      "<p>" ++ BareUrl.html u ++ "</p>" := by
    unfold BareUrl.html
    generalize escapeHtml u = text
    simp
  refine ⟨url.html_transform_eq, ?_⟩
  rw [url.html_transform_eq, whole, List.append_left_inj, List.append_right_inj,
    url.bareUrls_emphasize_iff, url.isUnmarked_iff]

/-- A URL with underscores, tildes and a host that ends in a dot. -/
theorem transform_url_marked :
    let u : Text := "https://a_b.c./~d__e?f=1&g=~~&h_#_i"
    BareUrl.IsUrl u ∧ (transform u).html =
      "<p><a href=\"" ++ u ++ "\">" ++ escapeHtml u ++ "</a></p>" := by
  intro u
  have url : BareUrl.IsUrl u := by decide +kernel
  refine ⟨url, (transform_url_iff url).2.mpr ?_⟩
  exact url.isUnmarked_iff.mp (by decide +kernel)

/-- What stands between two pairs of underscores is underlined, and the link ends before it. -/
theorem transform_url_cut :
    let u : Text := "http://a/__b__"
    BareUrl.IsUrl u ∧ (transform u).html = "<p><a href=\"http://a/\">http://a/</a><u>b</u></p>" ∧
      (transform u).html ≠ "<p><a href=\"" ++ u ++ "\">" ++ escapeHtml u ++ "</a></p>" := by
  decide +kernel

end Stencil
