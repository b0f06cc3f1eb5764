import Stencil.Proofs.Html.Element
import Stencil.Proofs.Inline.Code
import Stencil.Proofs.Text.Severable

/-!
# Stages within lines keep stand-ins whole

Emphasis, embeds, links and bare URLs turn intact texts into intact texts.  What they find is cut
out at brackets, quotes and marks, and its parts are cut at those too.  Emphasis drops the
characters of its own stand-ins and leaves none, so that behind it these count as well
(`Emphasis.intact_emphasize`).
-/

namespace Stencil

variable {N : Numbering} {s : Text}

namespace Emphasis

variable {has : StandIn → Nat → Prop}

/-- Dropping the characters of stand-ins for emphasis leaves those of code. -/
theorem intact_filter (h : Intact (.code has) s) :
    Intact (.all has) (s.filter fun c => !isReserved c) := by
  induction h with
  | nil => exact .nil
  | @plain c s other _ ih =>
    rw [List.filter_cons]
    split <;> rename_i kept
    · refine .plain (fun member => ?_) ih
      have own : c ∉ [standIn.opening, standIn.closing] := by
        simpa [isReserved] using kept
      have chars : ∀ c ∈ standInChars, c ∈ [standIn.opening, standIn.closing] ∨
          c ∈ Numbering.chars (.code fun _ _ => False) := by decide
      exact (chars c member).elim own other
    · exact ih
  | @token kind i s known number _ ih =>
    have kept : (kind.token i).filter (fun c => !isReserved c) = kind.token i :=
      List.filter_eq_self.mpr fun c member => by
        simp [Code.not_isReserved_token known i c member]
    rw [List.filter_append, kept]
    exact .token (Code.mem_allStandIns kind known) number ih

/-- A style keeps a text intact. -/
theorem Style.intact_apply {style : Style} (known : style ∈ styles) (h : Intact N s) :
    Intact N (style.apply s) := by
  have fine : ∀ style ∈ styles, 0 < style.times ∧ style.sign ∉ tokenChars ∧
      (∀ c ∈ style.opening, c ∉ standInChars) ∧ ∀ c ∈ style.closing, c ∉ standInChars := by decide
  obtain ⟨often, apart, opening, closing⟩ := fine style known
  have mark : ∀ c ∈ style.mark, c ∉ tokenChars := fun c member => by
    rwa [List.eq_of_mem_replicate member]
  refine h.substitute ((style.delimited_read often).severs (by simpa using apart)
    (by simpa using apart)) fun before source phrase rest found whole => ?_
  obtain rfl : source = style.mark ++ phrase ++ style.mark :=
    List.append_cancel_right (style.read_eq_some found)
  have inside : Intact N phrase := whole.between (fun c last => mark c (List.mem_of_getLast? last))
    fun c first => mark c (List.mem_of_head? first)
  exact inside.enclosed opening closing

theorem intact_applyAll (h : Intact N s) : Intact N (applyAll s) :=
  h.foldl fun _ known _ => Style.intact_apply known

theorem severs_readSheltered : readSheltered.Severs N :=
  delimited_readSheltered.severs (by decide) (by decide)

/-- Emphasis keeps the stand-ins of code whole and leaves none of its own. -/
theorem intact_emphasize (h : Intact (.code has) s) : Intact (.all has) (emphasize s) := by
  have filtered := intact_filter h
  have sources := (filtered.parts severs_readSheltered).2
  have widened : Intact (.all fun kind i => kind = standIn ∨ has kind i)
      (s.filter fun c => !isReserved c) := filtered.mono rfl fun _ _ => .inr
  have sheltered : Intact (.all fun kind i => kind = standIn ∨ has kind i)
      (standIn.place (fun source _ => source) 0
        (Text.scan readSheltered (s.filter fun c => !isReserved c))).1 :=
    widened.place (show standIn ∈ allStandIns by decide) severs_readSheltered fun _ _ => .inl rfl
  refine (intact_applyAll sheltered).fill rfl
    (show ∀ kind ∈ [standIn], kind ∈ allStandIns by decide) ?_ ?_
  · intro kind _ other i number
    exact number.resolve_left fun same => other (by simp [same])
  · intro kind _ i text _ there
    have member : text ∈ (standIn.place (fun source _ => source) 0
        (Text.scan readSheltered (s.filter fun c => !isReserved c))).2 :=
      List.mem_of_getElem? (by simpa using there)
    rw [StandIn.place_snd] at member
    obtain ⟨part, inside, rfl⟩ := List.mem_map.mp member
    exact (sources part inside).1

end Emphasis

/-- Text in braces is cut out at them. -/
theorem Intact.of_braced {u x : Text} {inner? : Option Text}
    (h : Intact N (u ++ (braced inner? ++ x))) : ∀ inner ∈ inner?, Intact N inner := by
  intro inner there
  obtain rfl := there
  rw [braced, List.cons_append, List.append_assoc, List.singleton_append,
    Intact.append_cons_iff (by decide), Intact.append_cons_iff (by decide)] at h
  exact h.2.1

theorem Intact.of_bracketed {opening first second : Text} {inner? : Option Text}
    (begins : ∀ c ∈ opening.getLast?, c ∉ tokenChars)
    (h : Intact N (bracketed opening first second inner?)) :
    Intact N first ∧ Intact N second ∧ ∀ inner ∈ inner?, Intact N inner := by
  unfold bracketed at h
  rw [Intact.append_cons_iff (by decide), Intact.cons_iff (by decide),
    Intact.append_cons_iff (by decide)] at h
  obtain ⟨front, middle, last⟩ := h
  exact ⟨(front.split (.of_last_apart begins)).2, middle,
    @Intact.of_braced N [] [] inner? (by simpa using last)⟩

theorem Intact.extraAttributes {attributes : Option Text}
    (h : ∀ inner ∈ attributes, Intact N inner) : Intact N (extraAttributes attributes) := by
  unfold Stencil.extraAttributes
  split
  · split
    · exact .nil
    · exact (Intact.cons_iff (by decide)).mpr (Intact.trim (h _ rfl))
  · exact .nil

theorem Intact.escapeQuotes (h : Intact N s) : Intact N (Link.escapeQuotes s) := by
  refine h.flatMap_chars (by decide) fun c apart => ?_
  split
  · decide
  · simpa using fun member => apart (List.mem_append_right _ member)

/-- Lower case brings no character of a stand-in. -/
theorem not_mem_standInChars_lower (plain : ∀ c ∈ s, c ∉ standInChars) :
    ∀ c ∈ Text.lower s, c ∉ standInChars := by
  have unlettered : ∀ c ∈ standInChars, isAsciiLetter c = false := by decide
  intro c member inside
  obtain ⟨d, there, lowered⟩ := List.mem_map.mp member
  obtain rfl := eq_of_toLower_eq lowered (unlettered c inside)
  exact plain d there inside

namespace Medium

theorem isWord_of_extension {word : Text} (h : extension? s = some word) :
    ∀ c ∈ word, isWord c = true := by
  induction s with
  | nil => simp [extension?] at h
  | cons c s ih =>
    rw [extension?] at h
    split at h
    · obtain rfl := Option.some.inj h
      exact fun _ => List.mem_takeWhile_imp
    · exact ih h

theorem not_mem_standInChars_subtype {m : Medium} {extension : Text}
    (plain : ∀ c ∈ extension, c ∉ standInChars) : ∀ c ∈ m.subtype extension, c ∉ standInChars := by
  unfold subtype
  repeat' split
  all_goals first | decide | exact plain

/-- A media type is made of words, and has no character of a stand-in that the kind has not. -/
theorem intact_typeAttribute {m : Medium} {source kind : Text}
    (plain : ∀ c ∈ kind, c ∉ standInChars) : Intact N (m.typeAttribute source kind) := by
  have extension : ∀ c ∈ ((extension? source).map Text.lower).getD kind, c ∉ standInChars := by
    cases found : extension? source with
    | none => exact plain
    | some word =>
      exact not_mem_standInChars_lower fun c member =>
        not_mem_of_apart (by decide +kernel) (isWord_of_extension found c member)
  unfold typeAttribute
  dsimp only
  split
  · exact .nil
  · have family : ∀ c ∈ m.typePrefix, c ∉ standInChars := by cases m <;> decide
    have name : Intact N (m.subtype _) := .of_plain (not_mem_standInChars_subtype extension)
    exact name.enclosed (by
      simp only [List.forall_mem_append]
      exact ⟨⟨by decide, family⟩, by decide⟩) (by decide)

theorem not_mem_standInChars_tag (m : Medium) : ∀ c ∈ m.tag, c ∉ standInChars := by
  cases m <;> decide

theorem not_mem_standInChars_of_ofKind {m : Medium} {kind : Text} (known : ofKind? kind = some m) :
    ∀ c ∈ kind, c ∉ standInChars := by
  have names : ∀ c ∈ standInChars, ∀ entry ∈ kinds, c ∉ entry.1 := by decide
  intro c member inside
  simp [ofKind?, lookup_eq_none_of_mem (names c inside) member] at known

end Medium

namespace Embed

variable {m : Medium} {source first last attributes kind : Text} {others : List Text}

theorem intact_sourceList {e : Embed} (h : Intact N e.sources) :
    ∀ source ∈ e.sourceList, Intact N source := by
  intro source member
  obtain ⟨trimmed, inside, rfl⟩ := List.mem_map.mp member
  obtain ⟨line, there, rfl⟩ := List.mem_map.mp (List.mem_filter.mp inside).1
  exact (h.lines line there).trim.escapeQuotes

theorem intact_quoted (h : Intact N s) : Intact N (Json.quoted s) := by
  have coded : ∀ n < 32, ∀ d ∈ ['\\', 'u'] ++ Json.fourDigits n, d ∉ standInChars := by decide
  refine (h.flatMap_chars (by decide) fun c apart => ?_).enclosed (by decide) (by decide)
  unfold Json.quotedChar
  iterate 7
    split
    · decide
  split
  · exact coded c.toNat ‹_›
  · simpa using fun member => apart (List.mem_append_right _ member)

/-- An array in JSON is intact if its sources are: no sign of a stand-in is spelled otherwise. -/
theorem intact_sourceArray (h : ∀ source ∈ others, Intact N source) :
    Intact N (sourceArray others) := by
  have joined : Intact N (Text.join [','] (others.map Json.quoted)) := by
    refine (Intact.join_iff (by decide)).mpr fun part member => ?_
    obtain ⟨source, inside, rfl⟩ := List.mem_map.mp member
    exact intact_quoted (h source inside)
  have array : Intact N (['['] ++ Text.join [','] (others.map Json.quoted) ++ [']']) :=
    joined.enclosed (by decide) (by decide)
  refine array.flatMap_chars (by decide) fun c apart => ?_
  split
  · decide
  · simpa using fun member => apart (List.mem_append_right _ member)

/-- An element with a single source is intact if the source and the attributes are. -/
theorem intact_singleHtml (h : Intact N source) (extra : Intact N attributes) :
    Intact N (singleHtml m source attributes) := by
  have tag := m.not_mem_standInChars_tag
  unfold singleHtml
  split
  · exact ((h.enclosed (by decide) (by decide)).append extra).append (.of_plain (by decide))
  · have opening : ∀ c ∈ ['<'] ++ m.tag ++ " src=\"", c ∉ standInChars := by
      simp only [List.forall_mem_append]
      exact ⟨⟨by decide, tag⟩, by decide⟩
    exact h.enclosed opening (by decide)
      |>.append extra
      |>.append (.of_plain (by decide)) |>.append (.of_plain tag)
      |>.append (.of_plain (by decide))

/-- An element with several sources is intact if all of these and the attributes are. -/
theorem intact_severalHtml (plain : ∀ c ∈ kind, c ∉ standInChars)
    (sources : ∀ source ∈ first :: others, Intact N source) (final : Intact N last)
    (extra : Intact N attributes) : Intact N (severalHtml m kind first others last attributes) := by
  have picture : Intact N ((first :: others).flatMap (pictureSourceHtml kind)) :=
    .flatMap fun source member => (sources source member).enclosed (by decide) (by decide)
      |>.append (Medium.intact_typeAttribute plain)
      |>.append (.of_plain (by decide))
  have played : Intact N ((first :: others).flatMap (sourceHtml m kind)) :=
    .flatMap fun source member => (sources source member).enclosed (by decide) (by decide)
      |>.append (Medium.intact_typeAttribute plain)
      |>.append (.of_plain (by decide))
  have tag := m.not_mem_standInChars_tag
  have opening : ∀ c ∈ ['<'] ++ m.tag, c ∉ standInChars := by
    simp only [List.forall_mem_append]
    exact ⟨by decide, tag⟩
  have playing : Intact N (['<'] ++ m.tag ++ attributes ++ ['>'] ++
      (first :: others).flatMap (sourceHtml m kind) ++ "</" ++ m.tag ++ ">") :=
    extra.enclosed opening (by decide)
      |>.append played
      |>.append (.of_plain (by decide)) |>.append (.of_plain tag)
      |>.append (.of_plain (by decide))
  unfold severalHtml
  split
  · exact picture.enclosed (by decide) (by decide)
      |>.append final
      |>.append (.of_plain (by decide)) |>.append extra
      |>.append (.of_plain (by decide))
  · exact playing
  · exact playing
  · obtain ⟨here, rest⟩ := List.forall_mem_cons.mp sources
    exact here.enclosed (by decide) (by decide)
      |>.append (intact_sourceArray rest)
      |>.append (.of_plain (by decide)) |>.append extra
      |>.append (.of_plain (by decide))

theorem intact_html {e : Embed} {html : Text} (there : e.html? = some html)
    (sources : ∀ source ∈ e.sourceList, Intact N source) (extra : Intact N e.attributeText) :
    Intact N html := by
  obtain ⟨m, known, ⟨source, only, rfl⟩ | ⟨first, second, rest, several, rfl⟩⟩ :=
    html?_eq_some there
  · rw [only] at sources
    exact intact_singleHtml (sources source List.mem_cons_self) extra
  · rw [several] at sources
    refine intact_severalHtml (Medium.not_mem_standInChars_of_ofKind known) sources ?_ extra
    exact sources _ List.getLastD_mem_cons

end Embed

theorem intact_embeds (h : Intact N s) : Intact N (embeds s) := by
  refine h.substitute (Embed.delimited_read.severs (by decide) (by decide))
    fun before source e rest found whole => ?_
  cases html : e.html? with
  | none => exact whole
  | some html =>
    obtain ⟨kind, split, _⟩ := Embed.read_eq_some found
    obtain rfl := List.append_cancel_right split
    obtain ⟨_, sources, extra⟩ := whole.of_bracketed (by decide)
    exact Embed.intact_html html (Embed.intact_sourceList sources) (.extraAttributes extra)

namespace Link

theorem intact_escapeText (h : Intact N s) : Intact N (escapeText s) := by
  obtain ⟨first, others⟩ := h.parts (Markup.delimited_read.severs (by decide) (by decide))
  refine first.escapeHtml.append (.flatMap fun part member => ?_)
  obtain ⟨markup, behind⟩ := others part member
  exact markup.append behind.escapeHtml

/-- The attribute for a window is intact if its name is. -/
theorem intact_windowAttribute {window : Option Text} (h : ∀ name ∈ window, Intact N name) :
    Intact N (windowAttribute window) := by
  unfold windowAttribute
  split
  · rename_i name
    refine Intact.enclosed ?_ (by decide) (by decide)
    unfold windowName
    cases found : windowNames.lookup (Text.trim name) with
    | none => exact (h name rfl).trim
    | some full =>
      have names : ∀ entry ∈ windowNames, ∀ c ∈ entry.2, c ∉ standInChars := by decide
      obtain ⟨left, right, split, _⟩ := List.lookup_eq_some_iff.mp found
      exact .of_plain (names (Text.trim name, full) (by simp [split]))
  · exact .nil

theorem intact_html {link : Link} (text : Intact N link.text) (target : Intact N link.target)
    (window : ∀ name ∈ link.window, Intact N name) : Intact N link.html :=
  target.escapeQuotes.enclosed (by decide) (by decide)
    |>.append (intact_windowAttribute window)
    |>.append (.of_plain (by decide)) |>.append (intact_escapeText text)
    |>.append (.of_plain (by decide))

end Link

theorem intact_links (h : Intact N s) : Intact N (links s) := by
  refine h.substitute (Link.delimited_read.severs (by decide) (by decide))
    fun before source link rest found whole => ?_
  split
  · exact whole
  · obtain rfl := List.append_cancel_right (Link.read_eq_some found)
    obtain ⟨text, target, window⟩ := whole.of_bracketed (by decide)
    exact Link.intact_html text target window

namespace BareUrl

/-- A URL has no character that begins a stand-in, so that it may end with a digit. -/
theorem severs_read : read.Severs N := by
  intro before s isLink rest found
  obtain ⟨url, split, outside⟩ := read_eq_some found
  refine ⟨'h' :: url, split, by simp, .of_unopened (by decide) fun c member opening => ?_⟩
  obtain ⟨kind, known, rfl⟩ := List.mem_map.mp opening
  exact outside _ (List.mem_cons_of_mem _ (List.mem_map_of_mem (N.known kind known))) member

end BareUrl

theorem intact_bareUrls (h : Intact N s) : Intact N (bareUrls s) := by
  refine h.substitute BareUrl.severs_read fun before source isLink rest found whole => ?_
  split
  · exact ((whole.enclosed (by decide) (by decide)).append whole.escapeHtml).append
      (.of_plain (by decide))
  · exact whole

end Stencil
