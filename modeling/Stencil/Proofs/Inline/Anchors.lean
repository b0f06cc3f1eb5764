import Stencil.Proofs.Html.Blocks
import Stencil.Proofs.Inline.Rise
import Stencil.Proofs.Text.Split

/-!
# URLs in links

The reader of bare URLs stops at angle brackets, so what it makes of a text can be told tag by tag,
and what stands between tags by itself (`bareUrlsFrom_append_tag`).  Within a tag or an element it
sees nothing but the character before a URL: it leaves the whole exactly if each URL in it is hidden
by that character.  For links this decides whether anchors stay out of each other: between links
bare URLs become anchors of their own (`sound_bareUrlsFrom`), but a URL in a link that is not hidden
opens an anchor in the attributes of another or in its text (`not_areApart_of_bareUrl`).
-/

namespace Stencil

variable {α : Type}

/-- Whether a reader reads up to a character at most, whatever follows it. -/
structure Reader.Stops (read : Reader α) (c : Char) : Prop where
  here : ∀ before s, read before (c :: s) = none
  later : ∀ before t s, t ≠ [] →
    read before (t ++ c :: s) = (read before t).map fun answer => (answer.1, answer.2 ++ c :: s)

/-- A scan begins anew where its reader stops. -/
theorem Reader.Stops.scanFrom_append {read : Reader α} {c : Char} (stops : read.Stops c)
    (before : Option Char) {skip : Nat} {s : Text} (inside : skip ≤ s.length) (t : Text) :
    Text.scanFrom read before skip (s ++ c :: t) =
      Text.scanFrom read before skip s ++ .plain c :: Text.scanFrom read (some c) 0 t := by
  induction s generalizing before skip with
  | nil =>
    obtain rfl : skip = 0 := Nat.le_zero.mp inside
    conv_lhs => rw [List.nil_append, Text.scanFrom, stops.here]
    rfl
  | cons d s ih =>
    cases skip with
    | succ skip => exact ih (some d) (Nat.le_of_succ_le_succ inside)
    | zero =>
      have next := stops.later before (d :: s) t (List.cons_ne_nil d s)
      rw [List.cons_append] at next ⊢
      rw [Text.scanFrom, Text.scanFrom, next]
      cases found : read before (d :: s) with
      | none => exact congrArg (Piece.plain d :: ·) (ih (some d) (Nat.zero_le _))
      | some answer =>
        have same : Text.excess (s ++ c :: t) (answer.2 ++ c :: t) = Text.excess s answer.2 := by
          rw [Text.excess_eq, Text.excess_eq, List.length_append, List.length_append]
          omega
        have within : Text.excess s answer.2 ≤ s.length := by
          rw [Text.excess_eq]
          exact Nat.sub_le _ _
        dsimp only [Option.map_some]
        rw [same, ih (some d) within, List.take_append_of_le_length within, List.cons_append]

/-- A reader that stops at a character has none of it in its finds. -/
theorem Reader.Stops.not_mem {read : Reader α} {c : Char} (stops : read.Stops c)
    {before : Option Char} {find rest : Text} {value : α}
    (found : read before (find ++ rest) = some (value, rest)) : c ∉ find := by
  intro member
  obtain ⟨t, s, rfl⟩ := List.append_of_mem member
  rw [List.append_assoc, List.cons_append] at found
  cases t with
  | nil => simp [stops.here] at found
  | cons d t =>
    rw [stops.later before (d :: t) (s ++ rest) (List.cons_ne_nil d t)] at found
    obtain ⟨answer, _, same⟩ := Option.map_eq_some_iff.mp found
    have longer := congrArg List.length (Prod.mk.inj same).2
    simp at longer
    omega

variable {c : Char} {s t u v w : Text} {before : Option Char}

theorem Text.after?_append_cons {start : Text} (foreign : c ∉ start) (s t : Text) :
    Text.after? start (s ++ c :: t) = (Text.after? start s).map (· ++ c :: t) := by
  induction start generalizing s with
  | nil => rfl
  | cons d start ih =>
    rw [List.mem_cons, not_or] at foreign
    cases s with
    | nil => simp [Text.after?, Ne.symm foreign.1]
    | cons e s =>
      by_cases same : d = e
      · simpa [Text.after?, same] using ih foreign.2 s
      · simp [Text.after?, same]

namespace BareUrl

theorem read_eq (before : Option Char) (s : Text) :
    read before s = (afterScheme? s).bind fun s =>
      if (s.takeWhile isHostChar).isEmpty then none
      else some (!before.any hides,
        (s.dropWhile isHostChar).drop (tail (s.dropWhile isHostChar)).length) := rfl

/-- The characters of a scheme and of a host may follow a host as well. -/
theorem isTailChar_of_isHostChar (host : isHostChar c = true) : isTailChar c = true := by
  simp only [isHostChar, isTailChar, isEndChar, Bool.or_eq_true, beq_iff_eq] at host ⊢
  rcases host with (word | rfl) | rfl
  · exact .inl (.inl (.inl (.inl word)))
  · exact .inl (.inl (.inl (.inr (by decide))))
  · exact .inl (.inl (.inr rfl))

theorem isTailChar_scheme : ∀ c ∈ ("https://" : Text), isTailChar c = true := by decide

/-- No URL goes beyond a character that none can have. -/
theorem stops_read (foreign : isTailChar c = false) : Reader.Stops read c := by
  have scheme : c ∉ ("https://" : Text) := fun member => by
    simp [isTailChar_scheme c member] at foreign
  have scheme' : c ∉ ("http://" : Text) := fun member =>
    scheme ((by decide : ∀ c ∈ ("http://" : Text), c ∈ ("https://" : Text)) c member)
  have host : isHostChar c = false := by
    by_contra other
    simp [isTailChar_of_isHostChar (by simpa using other)] at foreign
  have other : 'h' ≠ c := by
    rintro rfl
    exact scheme List.mem_cons_self
  constructor
  · intro before s
    simp [read_eq, afterScheme?, Text.after?, other]
  · intro before t s _
    have schemed : afterScheme? (t ++ c :: s) = (afterScheme? t).map (· ++ c :: s) := by
      rw [afterScheme?, Text.after?_append_cons scheme, Text.after?_append_cons scheme',
        afterScheme?]
      cases Text.after? "https://" t <;> rfl
    rw [read_eq, read_eq, schemed]
    cases afterScheme? t with
    | none => rfl
    | some behind =>
      have run : tail (behind.dropWhile isHostChar ++ c :: s) =
          tail (behind.dropWhile isHostChar) := by
        rw [tail, Text.takeWhile_append_cons foreign, tail]
      have leads := tail_prefix (behind.dropWhile isHostChar)
      rw [Option.map_some, Option.bind_some, Option.bind_some,
        Text.takeWhile_append_cons host, Text.dropWhile_append_cons host, run,
        List.drop_append_of_le_length leads.length_le]
      split <;> rfl

theorem isTailChar_lt : isTailChar '<' = false := by decide

theorem isTailChar_gt : isTailChar '>' = false := by decide

end BareUrl

/-! ## Bare URLs tag by tag -/

/-- Turns bare URLs into links in a text with a character before it. -/
def bareUrlsFrom (before : Option Char) (s : Text) : Text :=
  Text.ofPieces (fun url isLink => if isLink then BareUrl.html url else url)
    (Text.scanFrom BareUrl.read before 0 s)

theorem bareUrlsFrom_append_cons (foreign : BareUrl.isTailChar c = false) (before : Option Char)
    (s t : Text) :
    bareUrlsFrom before (s ++ c :: t) = bareUrlsFrom before s ++ c :: bareUrlsFrom (some c) t := by
  rw [bareUrlsFrom, (BareUrl.stops_read foreign).scanFrom_append before (Nat.zero_le _),
    Text.ofPieces_append]
  rfl

theorem bareUrlsFrom_cons (foreign : BareUrl.isTailChar c = false) (before : Option Char)
    (t : Text) : bareUrlsFrom before (c :: t) = c :: bareUrlsFrom (some c) t :=
  bareUrlsFrom_append_cons foreign before [] t

/-- Whatever stands from one bracket to another is told by itself, and so is what stands around. -/
theorem bareUrlsFrom_append_tag {inner : Text} (w_eq : w = '<' :: (inner ++ ['>']))
    (before : Option Char) (u v : Text) :
    bareUrlsFrom before (u ++ (w ++ v)) =
      bareUrlsFrom before u ++ (bareUrls w ++ bareUrlsFrom (some '>') v) := by
  have whole : w ++ v = '<' :: (inner ++ '>' :: v) := by simp [w_eq]
  have alone : bareUrls w = '<' :: (bareUrlsFrom (some '<') inner ++ ['>']) := by
    rw [w_eq]
    change bareUrlsFrom none _ = _
    rw [bareUrlsFrom_cons BareUrl.isTailChar_lt, bareUrlsFrom_append_cons BareUrl.isTailChar_gt]
    rfl
  rw [whole, bareUrlsFrom_append_cons BareUrl.isTailChar_lt,
    bareUrlsFrom_append_cons BareUrl.isTailChar_gt, alone]
  simp

/-- Whether each URL in a text is hidden by the character before it. -/
def HidesUrls (s : Text) : Prop := ∀ isLink ∈ Text.finds BareUrl.read s, isLink = false
  deriving Decidable

theorem exists_inner_of_tag (opens : w.head? = some '<') (closes : w.getLast? = some '>') :
    ∃ inner, w = '<' :: (inner ++ ['>']) := by
  obtain ⟨rest, rfl⟩ := List.head?_eq_some_iff.mp opens
  rcases List.eq_nil_or_concat' rest with rfl | ⟨inner, last, rfl⟩
  · simp at closes
  · rw [← List.cons_append, List.getLast?_concat] at closes
    obtain rfl := Option.some.inj closes
    exact ⟨inner, rfl⟩

/-! ## Anchors -/

/-- Anchors stand in no other anchor. -/
def anchors : Html.ContentModel := [(none, "a")]

/-- Whether the anchors of a text stay out of each other's text and of attributes. -/
def AreApart (s : Text) : Prop :=
  Html.IsNested anchors s ∧ ∀ tag ∈ Html.tags s, '<' ∉ tag
  deriving Decidable

/-- Whether a text has its anchors apart, whatever follows it. -/
structure IsSound (s : Text) : Prop where
  fits : Html.Fits anchors [none] s
  bare : ∀ tag ∈ Html.tags s, '<' ∉ tag

/-- Whether a text is an anchor around a text without tags. -/
inductive IsAnchor : Text → Prop where
  | intro {tag inner : Text} (bare : '<' ∉ tag) (clear : '>' ∉ tag)
    (named : Html.nameOf tag = "a".toList) (plain : '<' ∉ inner) : IsAnchor (Html.enclose tag inner)

theorem IsAnchor.ends (h : IsAnchor w) : w.head? = some '<' ∧ w.getLast? = some '>' := by
  obtain ⟨_, _, _, _⟩ := h
  refine ⟨rfl, ?_⟩
  rw [Html.enclose, ← List.append_assoc, List.getLast?_concat]

theorem IsAnchor.exists_tags (h : IsAnchor w) :
    ∃ tag rest, Html.tags w = tag :: rest ∧ Html.nameOf tag = "a".toList := by
  obtain ⟨bare, clear, named, plain⟩ := h
  exact ⟨_, _, Html.tags_enclose clear (.of_not_mem plain), named⟩

namespace IsSound

theorem of_not_mem (absent : '<' ∉ s) : IsSound s where
  fits := .of_not_mem absent
  bare := by simp [Html.tags_of_not_mem absent]

theorem append (h : IsSound s) (h' : IsSound t) : IsSound (s ++ t) where
  fits := h.fits.append h'.fits
  bare := by
    rw [h.fits.closed.tags_append]
    exact List.forall_mem_append.mpr ⟨h.bare, h'.bare⟩

theorem flatMap {items : List α} {html : α → Text} (h : ∀ item ∈ items, IsSound (html item)) :
    IsSound (items.flatMap html) := by
  induction items with
  | nil => exact of_not_mem List.not_mem_nil
  | cons item items ih =>
    obtain ⟨here, later⟩ := List.forall_mem_cons.mp h
    exact here.append (ih later)

/-- An anchor around plain text is sound. -/
theorem of_isAnchor (h : IsAnchor w) : IsSound w := by
  obtain ⟨bare, clear, named, plain⟩ := h
  rename_i tag inner
  have inside := Html.IsClosed.of_not_mem plain
  constructor
  · refine .enclose clear (fun slash => ?_) ?_ (.of_not_mem plain)
    · obtain ⟨rest, rfl⟩ := List.head?_eq_some_iff.mp slash
      simp [Html.nameOf, isTagSpace] at named
    · rw [named]
      decide
  · rw [Html.tags_enclose clear inside, Html.tags_of_not_mem plain, named]
    intro other member
    rcases List.mem_cons.mp member with rfl | rest
    · exact bare
    · obtain rfl := List.mem_singleton.mp rest
      decide

/-- What stands before a text does not matter. -/
theorem areApart_append (h : IsSound s) (t : Text) : AreApart (s ++ t) ↔ AreApart t := by
  rw [AreApart, AreApart, Html.IsNested, h.fits.closed.tags_append, List.foldlM_append,
    h.fits.nested [] (by simp), List.forall_mem_append]
  exact ⟨fun ⟨nested, _, bare⟩ => ⟨nested, bare⟩, fun ⟨nested, bare⟩ => ⟨nested, h.bare, bare⟩⟩

end IsSound

/-! ## Bare URLs become anchors -/

theorem BareUrl.not_mem_of_found {url : Text} {isLink : Bool} {skip : Nat}
    (foreign : isTailChar c = false)
    (member : .found url isLink ∈ Text.scanFrom BareUrl.read before skip s) : c ∉ url := by
  obtain ⟨before', rest, found⟩ := Text.read_of_found_mem (fun before s value rest found => by
    obtain ⟨url, rfl, _⟩ := BareUrl.read_eq_some found
    exact ⟨'h' :: url, rfl, List.cons_ne_nil _ _⟩) member
  exact (stops_read foreign).not_mem found

/-- The link that a URL becomes is an anchor. -/
theorem BareUrl.isAnchor_html {url : Text} (bare : '<' ∉ url) (clear : '>' ∉ url) :
    IsAnchor (BareUrl.html url) := by
  have named : Html.nameOf ("a href=\"" ++ url ++ "\"") = "a".toList := by
    simp [Html.nameOf, isTagSpace]
  have split : BareUrl.html url = Html.enclose ("a href=\"" ++ url ++ "\"") (escapeHtml url) := by
    unfold Html.enclose BareUrl.html
    rw [named]
    generalize escapeHtml url = text
    simp
  rw [split]
  exact .intro (by simpa using bare) (by simpa using clear) named fun bracket =>
    not_mem_delimiters_of_mem_escapeHtml url '<' bracket (by decide)

/-- Between tags bare URLs become anchors of their own. -/
theorem sound_bareUrlsFrom (before : Option Char) (absent : '<' ∉ s) :
    IsSound (bareUrlsFrom before s) := by
  refine IsSound.flatMap fun piece member => ?_
  cases piece with
  | plain c =>
    have inside : c ∈ s := Text.mem_of_mem_scanFrom member (List.mem_singleton_self c)
    exact .of_not_mem (by simpa using (ne_of_mem_of_not_mem inside absent).symm)
  | found url isLink =>
    have bare := BareUrl.not_mem_of_found BareUrl.isTailChar_lt member
    have clear := BareUrl.not_mem_of_found BareUrl.isTailChar_gt member
    cases isLink with
    | true => exact .of_isAnchor (BareUrl.isAnchor_html bare clear)
    | false => exact .of_not_mem bare

/-- Where bare URLs change a text, they write an anchor behind a part of it. -/
theorem exists_html_of_ne (changed : bareUrlsFrom before s ≠ s) :
    ∃ u url y, bareUrlsFrom before s = u ++ (BareUrl.html url ++ y) ∧ u ++ url <+: s ∧
      ∀ c, BareUrl.isTailChar c = false → c ∉ url := by
  have source := Text.sources_scanFrom BareUrl.read before 0 s
  rw [List.drop_zero] at source
  by_cases quiet : ∀ url isLink,
      .found url isLink ∈ Text.scanFrom BareUrl.read before 0 s → isLink ≠ true
  · refine absurd ?_ changed
    rw [bareUrlsFrom, Text.ofPieces_eq_sources fun url isLink member => by
      simp [quiet url isLink member], source]
  · simp only [not_forall, not_not] at quiet
    obtain ⟨url, isLink, member, link⟩ := quiet
    obtain ⟨left, url, isLink, right, split, rfl, first⟩ :=
      Text.exists_first_found (p := (· = true)) member link
    have kept : Text.ofPieces (fun url isLink => if isLink then BareUrl.html url else url) left =
        left.flatMap Piece.source :=
      Text.ofPieces_eq_sources fun url isLink member => by simp [first url isLink member]
    have here : .found url true ∈ Text.scanFrom BareUrl.read before 0 s := by simp [split]
    have written : bareUrlsFrom before s = left.flatMap Piece.source ++ (BareUrl.html url ++
        Text.ofPieces (fun url isLink => if isLink then BareUrl.html url else url) right) := by
      rw [bareUrlsFrom, split, Text.ofPieces_append, kept]
      rfl
    refine ⟨_, url, _, written, ?_, fun c foreign => BareUrl.not_mem_of_found foreign here⟩
    rw [← source, split, List.flatMap_append, List.flatMap_cons, ← List.append_assoc]
    exact List.prefix_append _ _

/-- What bare URLs make of an anchor, part by part. -/
theorem bareUrls_enclose {tag inner : Text} (named : Html.nameOf tag = "a".toList) :
    bareUrls (Html.enclose tag inner) =
      '<' :: (bareUrlsFrom (some '<') tag ++ '>' :: (bareUrlsFrom (some '>') inner ++ "</a>")) := by
  have split : Html.enclose tag inner =
      '<' :: (tag ++ '>' :: (inner ++ '<' :: ("/a".toList ++ '>' :: []))) := by
    simp [Html.enclose, named]
  change bareUrlsFrom none _ = _
  rw [split, bareUrlsFrom_cons BareUrl.isTailChar_lt,
    bareUrlsFrom_append_cons BareUrl.isTailChar_gt, bareUrlsFrom_append_cons BareUrl.isTailChar_lt,
    bareUrlsFrom_append_cons BareUrl.isTailChar_gt]
  rfl

/-- A tag goes on at least to a bracket that opens in it. -/
theorem exists_tag_with_bracket {y : Text} (clear : '>' ∉ u) (closes : '>' ∈ y) :
    ∃ tag ∈ Html.tags ('<' :: (u ++ '<' :: y)), '<' ∈ tag := by
  obtain ⟨tag, rest, split, before⟩ := List.eq_append_cons_of_mem
    (show '>' ∈ u ++ '<' :: y by simp [closes])
  have tags : Html.tags ('<' :: (u ++ '<' :: y)) = tag :: Html.tags rest := by
    have scanned := Html.scan_tag before rest
    rw [List.cons_append] at scanned
    rw [split, Html.tags, Text.finds, scanned]
    rfl
  refine ⟨tag, by simp [tags], ?_⟩
  rcases Text.append_cons_eq_append_cons split with ⟨a, rfl, _⟩ | ⟨_, same, _⟩ | ⟨a, rfl, _⟩
  · simp
  · exact absurd same (by decide)
  · exact absurd (by simp) clear

/-- The tag of an anchor can be followed exactly where no element is open. -/
theorem follow_anchors {tag : Text} (named : Html.nameOf tag = "a".toList) (stack : List Text) :
    Html.follow anchors stack tag = if stack = [] then some ["a".toList] else none := by
  have slash : tag.head? ≠ some '/' := by
    intro slash
    obtain ⟨rest, rfl⟩ := List.head?_eq_some_iff.mp slash
    simp [Html.nameOf, isTagSpace] at named
  unfold Html.follow
  split
  · exact absurd rfl slash
  · exact absurd rfl slash
  · cases stack <;> simp [anchors, named]

/-- A bare URL in an anchor that becomes one opens its tag in the other's tag or in its text. -/
theorem not_areApart_of_bareUrl (h : IsAnchor w) (changed : bareUrls w ≠ w) (v : Text) :
    ¬AreApart (bareUrls w ++ v) := by
  obtain ⟨bare, clear, named, plain⟩ := h
  rename_i tag inner
  rintro ⟨nested, apart⟩
  rw [bareUrls_enclose named] at nested apart changed
  by_cases tagged : bareUrlsFrom (some '<') tag = tag
  · have inside : bareUrlsFrom (some '>') inner ≠ inner := by
      intro same
      rw [tagged, same] at changed
      exact changed (by simp [Html.enclose, named])
    obtain ⟨u, url, y, written, start, urlPlain⟩ := exists_html_of_ne inside
    have before : '<' ∉ u := fun member => plain (start.subset (List.mem_append_left _ member))
    have whole : '<' :: (tag ++ '>' :: (u ++ (BareUrl.html url ++ y) ++ "</a>")) ++ v =
        ('<' :: tag ++ ['>']) ++ (u ++ (BareUrl.html url ++ (y ++ "</a>" ++ v))) := by simp
    have anchor := BareUrl.isAnchor_html (urlPlain _ BareUrl.isTailChar_lt)
      (urlPlain _ BareUrl.isTailChar_gt)
    obtain ⟨other, text, split, named'⟩ := anchor.exists_tags
    have closed := (IsSound.of_isAnchor anchor).fits.closed
    rw [tagged, written, whole, Html.IsNested, (Html.IsClosed.of_tag clear).tags_append,
      Html.tags_tag clear, (Html.IsClosed.of_not_mem before).tags_append,
      Html.tags_of_not_mem before, closed.tags_append, split] at nested
    simp [follow_anchors named, follow_anchors named'] at nested
  · obtain ⟨u, url, y, written, start, _⟩ := exists_html_of_ne tagged
    have before : '>' ∉ u := fun member => clear (start.subset (List.mem_append_left _ member))
    obtain ⟨z, opens⟩ : ∃ z, BareUrl.html url = '<' :: z := ⟨_, rfl⟩
    rw [written, opens] at apart
    generalize bareUrlsFrom (some '>') inner ++ "</a>" = text at apart
    have whole : '<' :: (u ++ ('<' :: z ++ y) ++ '>' :: text) ++ v =
        '<' :: (u ++ '<' :: (z ++ y ++ '>' :: text ++ v)) := by simp
    rw [whole] at apart
    have closes : '>' ∈ z ++ y ++ '>' :: text ++ v := by simp
    obtain ⟨other, member, bracket⟩ := exists_tag_with_bracket before closes
    exact apart other member bracket

/-! ## Links -/

/-- Bare URLs among anchors leave all anchors apart, if they are hidden in each. -/
theorem areApart_weave_iff {gaps between : List Text} (length : gaps.length = between.length + 1)
    (plain : ∀ gap ∈ gaps, '<' ∉ gap) (known : ∀ w ∈ between, IsAnchor w) (before : Option Char) :
    AreApart (bareUrlsFrom before (Text.weave gaps between)) ↔ ∀ w ∈ between, HidesUrls w := by
  induction between generalizing gaps before with
  | nil =>
    obtain ⟨gap, rfl⟩ := List.length_eq_one_iff.mp length
    have sound := sound_bareUrlsFrom before (plain gap List.mem_cons_self)
    simpa [Text.weave, AreApart] using And.intro (sound.fits.isNested (by simp)) sound.bare
  | cons w between ih =>
    obtain ⟨gap, gaps, rfl⟩ := List.exists_cons_of_length_eq_add_one length
    obtain ⟨here, later⟩ := List.forall_mem_cons.mp known
    obtain ⟨absent, plain⟩ := List.forall_mem_cons.mp plain
    obtain ⟨inner, split⟩ := exists_inner_of_tag here.ends.1 here.ends.2
    rw [Text.weave, List.append_assoc, bareUrlsFrom_append_tag split,
      (sound_bareUrlsFrom before absent).areApart_append, List.forall_mem_cons]
    by_cases quiet : HidesUrls w
    · rw [(liftsAt_bareUrls w).eq_self quiet, (IsSound.of_isAnchor here).areApart_append,
        ih (by simpa using length) plain later]
      simp [quiet]
    · have changed : bareUrls w ≠ w := fun same => quiet ((liftsAt_bareUrls w).eq_self_iff.mp same)
      simp [quiet, not_areApart_of_bareUrl here changed]

theorem Link.not_mem_of_found {source : Text} {link : Link}
    (member : .found source link ∈ Text.scan Link.read s) (absent : '<' ∉ s) :
    '<' ∉ link.text ∧ '<' ∉ link.target ∧ ∀ window ∈ link.window, '<' ∉ window := by
  obtain ⟨before, rest, found⟩ := Text.read_of_found_mem Link.delimited_read.cuts member
  have outside : '<' ∉ source := fun inside => absent (Text.mem_of_mem_scanFrom member inside)
  rw [List.append_cancel_right (Link.read_eq_some found), bracketed] at outside
  refine ⟨fun inside => outside (by simp [inside]), fun inside => outside (by simp [inside]),
    fun window named inside => outside ?_⟩
  simp [braced, Option.mem_def.mp named, inside]

theorem Link.not_mem_escapeText (absent : '<' ∉ s) : '<' ∉ Link.escapeText s := by
  have escaped (s : Text) : '<' ∉ escapeHtml s := fun member =>
    not_mem_delimiters_of_mem_escapeHtml s '<' member (by decide)
  intro member
  rcases List.mem_append.mp member with first | later
  · exact escaped _ first
  · obtain ⟨part, inside, member⟩ := List.mem_flatMap.mp later
    rcases List.mem_append.mp member with markup | behind
    · exact absent (Text.mem_of_mem_scanFrom (Text.mem_of_mem_parts inside) markup)
    · exact escaped _ behind

/-- The attribute for a window has no bracket that its name has not. -/
theorem Link.not_mem_windowAttribute {window : Option Text}
    (absent : ∀ name ∈ window, '<' ∉ name) : '<' ∉ Link.windowAttribute window := by
  cases window with
  | none => exact List.not_mem_nil
  | some name =>
    have known : ∀ entry ∈ Link.windowNames, '<' ∉ entry.2 := by decide
    have inside : '<' ∉ Text.trim name := fun member =>
      absent name rfl ((Text.trim_infix name).subset member)
    have resolved : '<' ∉ Link.windowName (Text.trim name) := by
      unfold Link.windowName
      generalize Link.windowNames = table at known
      cases found : table.lookup (Text.trim name) with
      | none => exact inside
      | some full =>
        obtain ⟨before, after, rfl, _⟩ := List.lookup_eq_some_iff.mp found
        exact known (Text.trim name, full) (by simp)
    change '<' ∉ " target=\"" ++ Link.windowName (Text.trim name) ++ "\""
    generalize Link.windowName (Text.trim name) = full at resolved
    simpa using resolved

/-- A link in a text without tags is an anchor. -/
theorem Link.isAnchor_html {link : Link} (text : '<' ∉ link.text) (target : '<' ∉ link.target)
    (window : ∀ window ∈ link.window, '<' ∉ window) : IsAnchor link.html := by
  have quoted : '<' ∉ Link.escapeQuotes link.target := by
    intro member
    obtain ⟨c, inside, member⟩ := List.mem_flatMap.mp member
    split at member
    · exact absurd member (by decide)
    · obtain rfl := List.mem_singleton.mp member
      exact target inside
  generalize attributes_eq : "href=\"" ++ Link.escapeQuotes link.target ++ "\"" ++
    Link.windowAttribute link.window = attributes
  have bare : '<' ∉ attributes := by
    rw [← attributes_eq]
    simp [quoted, Link.not_mem_windowAttribute window]
  have plain := Link.not_mem_escapeText text
  -- The first closing bracket may be one of the target.
  obtain ⟨tag, inner, split, clear⟩ := List.eq_append_cons_of_mem
    (show '>' ∈ attributes ++ '>' :: Link.escapeText link.text by simp)
  have outside : '<' ∉ tag ++ '>' :: inner := by
    rw [← split]
    simp [bare, plain]
  rw [List.mem_append, List.mem_cons, not_or, not_or] at outside
  have named : Html.nameOf ('a' :: ' ' :: tag) = "a".toList := by
    simp [Html.nameOf, isTagSpace]
  have written : link.html =
      '<' :: 'a' :: ' ' :: (attributes ++ '>' :: Link.escapeText link.text) ++ "</a>" := by
    unfold Link.html
    rw [← attributes_eq]
    generalize Link.escapeText link.text = text
    simp
  have whole : link.html = Html.enclose ('a' :: ' ' :: tag) inner := by
    rw [written, split, Html.enclose, named]
    simp
  rw [whole]
  exact .intro (by simp [outside.1]) (by simpa using clear) named outside.2.2

/-- The links of a text, among what stands around them. -/
theorem exists_weave_links (absent : '<' ∉ s) :
    ∃ gaps, gaps.length = ((Text.finds Link.read s).filter (!·.afterBang)).length + 1 ∧
      (∀ gap ∈ gaps, '<' ∉ gap) ∧
      links s =
        Text.weave gaps (((Text.finds Link.read s).filter (!·.afterBang)).map Link.html) := by
  rw [← Text.sources_scan Link.read s] at absent
  unfold links Text.finds Text.substitute
  generalize Text.scan Link.read s = pieces at absent
  induction pieces with
  | nil => exact ⟨[[]], rfl, by simp, rfl⟩
  | cons piece pieces ih =>
    rw [List.flatMap_cons, List.mem_append, not_or] at absent
    obtain ⟨gaps, length, plain, woven⟩ := ih absent.2
    obtain ⟨gap, gaps, rfl⟩ := List.exists_cons_of_length_eq_add_one length
    obtain ⟨here, later⟩ := List.forall_mem_cons.mp plain
    cases piece with
    | plain c =>
      refine ⟨([c] ++ gap) :: gaps, length, List.forall_mem_cons.mpr ⟨?_, later⟩, ?_⟩
      · simpa [here, Piece.source] using absent.1
      · exact (congrArg (c :: ·) woven).trans (Text.append_weave [c] gap gaps _)
    | found source link =>
      cases bang : link.afterBang with
      | true =>
        refine ⟨(source ++ gap) :: gaps, by simpa [bang] using length,
          List.forall_mem_cons.mpr ⟨?_, later⟩, ?_⟩
        · simpa [here, Piece.source] using absent.1
        · have left := (congrArg (source ++ ·) woven).trans (Text.append_weave source gap gaps _)
          simpa [Text.ofPieces, bang] using left
      | false =>
        refine ⟨[] :: gap :: gaps, by simpa [bang] using length,
          List.forall_mem_cons.mpr ⟨List.not_mem_nil, plain⟩, ?_⟩
        simpa [Text.ofPieces, bang] using woven

/-- A character before a URL decides whether it becomes an anchor, wherever it stands: links with
bare URLs among them have their anchors apart exactly if each URL in a link is hidden, and a tag or
an element is left as it is exactly if each URL in it is. -/
theorem bareUrls_apart_iff (s u w v : Text) :
    ('<' ∉ s → (AreApart (bareUrls (links s)) ↔
      ∀ link ∈ Text.finds Link.read s, link.afterBang = false → HidesUrls link.html)) ∧
    (w.head? = some '<' → w.getLast? = some '>' →
      bareUrls (u ++ (w ++ v)) = bareUrls u ++ (bareUrls w ++ bareUrlsFrom (some '>') v) ∧
        (bareUrls w = w ↔ HidesUrls w)) := by
  constructor
  · intro absent
    obtain ⟨gaps, length, plain, woven⟩ := exists_weave_links absent
    have anchored : ∀ w ∈ ((Text.finds Link.read s).filter (!·.afterBang)).map Link.html,
        IsAnchor w := by
      intro w member
      obtain ⟨link, inside, rfl⟩ := List.mem_map.mp member
      obtain ⟨source, found⟩ := Text.mem_finds.mp (List.mem_of_mem_filter inside)
      obtain ⟨text, target, window⟩ := Link.not_mem_of_found found absent
      exact Link.isAnchor_html text target window
    have apart := areApart_weave_iff (by simpa using length) plain anchored none
    rw [← woven] at apart
    rw [List.forall_mem_map] at apart
    change AreApart (bareUrls (links s)) ↔ _ at apart
    simpa [List.mem_filter] using apart
  · intro opens closes
    obtain ⟨inner, split⟩ := exists_inner_of_tag opens closes
    exact ⟨bareUrlsFrom_append_tag split none u v, (liftsAt_bareUrls w).eq_self_iff⟩

/-- A link to a URL, a bare URL, and an anchor around its own address. -/
theorem bareUrls_apart_hidden :
    let s : Text := "[see](http://a.io){_b} or http://b.io"
    let w : Text := "<a href=\"http://c.io\">http://c.io</a>"
    ('<' ∉ s ∧ w.head? = some '<' ∧ w.getLast? = some '>') ∧ AreApart (bareUrls (links s)) ∧
      bareUrls ("to ".toList ++ (w ++ " http://d.io")) =
        "to ".toList ++ (w ++ " <a href=\"http://d.io\">http://d.io</a>") := by
  intro s w
  have absent : '<' ∉ s := by decide
  have opens : w.head? = some '<' := by decide
  have closes : w.getLast? = some '>' := by decide
  obtain ⟨apart, tags⟩ := bareUrls_apart_iff s "to " w " http://d.io"
  obtain ⟨whole, same⟩ := tags opens closes
  have left : bareUrls w = w := same.mpr (by decide)
  have after : bareUrlsFrom (some '>') " http://d.io" =
      " <a href=\"http://d.io\">http://d.io</a>".toList := by decide
  refine ⟨⟨absent, opens, closes⟩, (apart absent).mpr (by decide), ?_⟩
  rw [whole, left, after]
  rfl

/-- Behind a space a URL becomes an anchor in the text of another and in an attribute. -/
theorem bareUrls_not_apart :
    let s : Text := "[see http://x.io](/y)"
    let w : Text := "<b title=\"see http://x.io\">"
    '<' ∉ s ∧ ¬AreApart (bareUrls (links s)) ∧
      bareUrls (links s) = "<a href=\"/y\">see <a href=\"http://x.io\">http://x.io</a></a>" ∧
      bareUrls w = "<b title=\"see <a href=\"http://x.io\">http://x.io</a>\">" := by
  decide

end Stencil
