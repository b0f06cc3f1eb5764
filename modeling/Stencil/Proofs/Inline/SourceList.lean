import Stencil.Proofs.Html.Unescape
import Stencil.Proofs.Inline.Tokens
import Stencil.Proofs.Json.Strings
import Stencil.Proofs.Text.Rise

/-!
# The sources that a frame lists

A frame with several sources shows the first one and lists the others in an attribute between
single quotes: as an array in JSON, in which a reference stands for every single quote.  Where
characters of a text are spelled out, a reference in the written text was one in the text before
(`infix_of_spelled`).  So if no source has a reference to a single quote, the list is read back by
undoing the one spelling and then the other (`parse?_sourceArray`).
-/

namespace Stencil

variable {e s w : Text} {ss : List Text} {mark : Char} {f : Char → Text}

section Spelled

/-- A start without marks of a text in which characters are spelled out is one of the text. -/
theorem prefix_of_spelled (spelled : ∀ c, f c = [c] ∨ ∃ x, f c = mark :: x) (absent : mark ∉ w)
    (h : w <+: s.flatMap f) : w <+: s := by
  induction w generalizing s with
  | nil => exact List.nil_prefix
  | cons d w ih =>
    obtain ⟨other, absent⟩ := not_or.mp (List.mem_cons.not.mp absent)
    cases s with
    | nil => simp at h
    | cons c s =>
      rw [List.flatMap_cons] at h
      rcases spelled c with same | ⟨x, same⟩
      · rw [same, List.singleton_append, List.cons_prefix_cons] at h
        exact List.cons_prefix_cons.mpr ⟨h.1, ih absent h.2⟩
      · rw [same, List.cons_append, List.cons_prefix_cons] at h
        exact absurd h.1.symm other

/-- A reference does not come about by spelling out characters. -/
theorem infix_of_spelled (outside : mark ∉ e)
    (spelled : ∀ c, f c = [c] ∨
      ∃ x, f c = mark :: x ∧ '&' ∉ x ∧ ∀ rest, ¬ '&' :: e <+: mark :: (x ++ rest))
    (h : '&' :: e <:+: s.flatMap f) : '&' :: e <:+: s := by
  have marked (c : Char) : f c = [c] ∨ ∃ x, f c = mark :: x :=
    (spelled c).imp_right fun ⟨x, same, _⟩ => ⟨x, same⟩
  induction s with
  | nil => exact h
  | cons c s ih =>
    have later (h : '&' :: e <:+: s.flatMap f) : '&' :: e <:+: c :: s :=
      (ih h).trans (List.suffix_cons c s).isInfix
    rw [List.flatMap_cons] at h
    rcases spelled c with same | ⟨x, same, absent, apart⟩
    · rw [same, List.singleton_append] at h
      rcases List.infix_cons_iff.mp h with start | behind
      · obtain ⟨rfl, written⟩ := List.cons_prefix_cons.mp start
        refine List.infix_cons_iff.mpr (.inl ?_)
        exact List.cons_prefix_cons.mpr ⟨rfl, prefix_of_spelled marked outside written⟩
      · exact later behind
    · rw [same, List.cons_append] at h
      rcases List.infix_cons_iff.mp h with start | behind
      · exact absurd start (apart _)
      · exact later (Text.infix_right behind (by simpa using absent))

/-- A character that is spelled out wherever it stands is gone. -/
theorem notMem_flatMap_replaced {quote : Char} (absent : quote ∉ w) (s : Text) :
    quote ∉ s.flatMap fun c => if c = quote then w else [c] := by
  intro member
  obtain ⟨c, -, written⟩ := List.mem_flatMap.mp member
  split at written
  · exact absent written
  · next other => exact other (List.mem_singleton.mp written).symm

/-- Undoing the spelling of a character by a reference gives the text back. -/
theorem replace_spelled {quote : Char} (absent : '&' ∉ e) (none : ¬ '&' :: e <:+: s) :
    Text.replace ('&' :: e) [quote]
      (s.flatMap fun c => if c = quote then '&' :: e else [c]) = s := by
  have marked (c : Char) : (if c = quote then '&' :: e else [c]) = [c] ∨
      ∃ x, (if c = quote then '&' :: e else [c]) = '&' :: x := by
    split
    · exact .inr ⟨e, rfl⟩
    · exact .inl rfl
  induction s with
  | nil => rfl
  | cons c s ih =>
    rw [List.infix_cons_iff, not_or] at none
    rw [List.flatMap_cons]
    by_cases same : c = quote
    · rw [if_pos same, List.cons_append, replace_entity, ih none.2, same, List.singleton_append]
    · rw [if_neg same, List.singleton_append, replace_cons, ih none.2]
      rintro ⟨rfl, start⟩
      exact none.1 (List.cons_prefix_cons.mpr ⟨rfl, prefix_of_spelled marked absent start⟩)

end Spelled

section SourceArray

def RefersToQuote (s : Text) : Prop := ("&#39;" : Text) <:+: s

theorem refersToQuote_escapeQuotes (h : RefersToQuote (Link.escapeQuotes s)) : RefersToQuote s := by
  refine infix_of_spelled (e := "#39;") (show '&' ∉ _ by decide) (fun c => ?_) h
  split
  · refine .inr ⟨"quot;", rfl, by decide, fun rest start => ?_⟩
    have behind := (List.cons_prefix_cons.mp start).2
    exact absurd (List.cons_prefix_cons.mp behind).1 (by decide)
  · exact .inl rfl

theorem refersToQuote_quoted (h : RefersToQuote (Json.quoted s)) : RefersToQuote s := by
  have inside : RefersToQuote (s.flatMap Json.quotedChar) :=
    Text.infix_right (Text.infix_left h (by decide)) (by decide)
  refine infix_of_spelled (e := "#39;") (show '\\' ∉ _ by decide) (fun c => ?_) inside
  rcases Json.quotedChar_cases c with ⟨same, -⟩ | ⟨x, same, absent, -⟩
  · exact .inl same
  · refine .inr ⟨x, same, absent, fun rest start => ?_⟩
    exact absurd (List.cons_prefix_cons.mp start).1 (by decide)

/-- An array in JSON has no reference to a single quote that none of its texts has. -/
theorem not_refersToQuote_array (none : ∀ s ∈ ss, ¬RefersToQuote s) :
    ¬RefersToQuote (['['] ++ Text.join [','] (ss.map Json.quoted) ++ [']']) := by
  intro h
  have inside := Text.infix_right (Text.infix_left h (by decide)) (by decide)
  obtain ⟨part, member, there⟩ := Text.exists_infix_of_join inside (by decide) (by decide)
  obtain ⟨s, source, rfl⟩ := List.mem_map.mp member
  exact none s source (refersToQuote_quoted there)

theorem quote_notMem_sourceArray (ss : List Text) : '\'' ∉ Embed.sourceArray ss :=
  notMem_flatMap_replaced (by decide) _

/-- The list of sources is read back by undoing the references and then the array. -/
theorem parse?_sourceArray (none : ∀ s ∈ ss, ¬RefersToQuote s) :
    Json.parse? (Text.replace "&#39;" ['\''] (Embed.sourceArray ss)) =
      some (.array (ss.map .string)) := by
  have undone : Text.replace "&#39;" ['\''] (Embed.sourceArray ss) =
      ['['] ++ Text.join [','] (ss.map Json.quoted) ++ [']'] :=
    replace_spelled (e := "#39;") (by decide) (not_refersToQuote_array none)
  rw [undone, Json.parse?_array]

end SourceArray

section Frames

theorem Text.trim_eq_nil_iff : Text.trim s = [] ↔ Text.isSpaceOnly s = true := by
  rw [Text.isSpaceOnly, List.all_eq_true]
  constructor
  · intro nothing c member
    by_contra visible
    have kept := Text.mem_trim member (Bool.eq_false_iff.mpr visible)
    rw [nothing] at kept
    exact absurd kept List.not_mem_nil
  · intro blank
    have start : Text.trimStart s = [] := List.dropWhile_eq_nil_iff.mpr blank
    rw [Text.trim, start]
    rfl

/-- A double quote is replaced where it stands. -/
theorem replace_doubleQuote (s : Text) : Text.replace ['"'] "&quot;" s = Link.escapeQuotes s := by
  induction s with
  | nil => rfl
  | cons c s ih =>
    have step : Text.replace ['"'] "&quot;" (c :: s) =
        if Text.startsWith (c :: s) ['"'] then "&quot;" ++ Text.replace ['"'] "&quot;" s
        else c :: Text.replace ['"'] "&quot;" s := rfl
    have written : Link.escapeQuotes (c :: s) =
        (if c = '"' then ("&quot;" : Text) else [c]) ++ Link.escapeQuotes s := rfl
    rw [step, ih, written]
    by_cases same : c = '"'
    · rw [if_pos same, if_pos (by simp [Text.startsWith, same])]
    · rw [if_neg same, if_neg (by simp [Text.startsWith, Ne.symm same]), List.singleton_append]

theorem doubleQuote_notMem_escapeQuotes (s : Text) : '"' ∉ Link.escapeQuotes s :=
  notMem_flatMap_replaced (by decide) s

namespace Embed

variable {e : Embed}

/-- The sources as they are written, one on a line that is not blank. -/
def writtenSources (e : Embed) : List Text :=
  ((Text.lines e.sources).filter fun line => !Text.isSpaceOnly line).map Text.trim

/-- Whether an embed is a frame with more sources than it can show. -/
def IsLongFrame (e : Embed) : Prop :=
  e.kind ∈ (["iframe", "embed", "pdf"] : List Text) ∧ 2 ≤ e.writtenSources.length

instance : DecidablePred IsLongFrame := fun e =>
  inferInstanceAs (Decidable (e.kind ∈ (["iframe", "embed", "pdf"] : List Text) ∧
    2 ≤ e.writtenSources.length))

/-- A frame that shows one source and has a list of others. -/
def longFrame (shown list attributes : Text) : Text :=
  "<iframe src=\"" ++ shown ++ "\" srcFallback=\"0\" srcFallbackList='" ++ list ++ "'" ++
    attributes ++ "></iframe>"

theorem sourceList_eq (e : Embed) : e.sourceList = e.writtenSources.map Link.escapeQuotes := by
  have kept : ∀ line, (!(Text.trim line).isEmpty) = !Text.isSpaceOnly line := by
    intro line
    rw [Bool.not_inj_iff, Bool.eq_iff_iff, List.isEmpty_iff, Text.trim_eq_nil_iff]
  simp only [sourceList, writtenSources, List.filter_map, Function.comp_def, kept]

/-- Three kinds are frames. -/
theorem medium?_eq_frame_iff :
    e.medium? = some .frame ↔ e.kind ∈ (["iframe", "embed", "pdf"] : List Text) := by
  constructor
  · have frames : ∀ entry ∈ Medium.kinds, entry.2 = .frame →
        entry.1 ∈ (["iframe", "embed", "pdf"] : List Text) := by decide
    intro found
    obtain ⟨before, after, split, -⟩ := List.lookup_eq_some_iff.mp found
    exact frames (e.kind, .frame) (split ▸ by simp) rfl
  · have frames : ∀ kind ∈ (["iframe", "embed", "pdf"] : List Text),
        Medium.ofKind? kind = some .frame := by decide
    exact frames e.kind

theorem needsFallback_iff : e.needsFallback = true ↔ e.IsLongFrame := by
  rw [needsFallback, Bool.and_eq_true, beq_iff_eq, medium?_eq_frame_iff, decide_eq_true_eq,
    sourceList_eq, List.length_map, IsLongFrame]

/-- What a long frame is written as. -/
theorem exists_html_of_isLongFrame (frame : e.IsLongFrame) :
    ∃ first others, e.writtenSources = first :: others ∧ e.html? =
      some (longFrame (Link.escapeQuotes first) (sourceArray (others.map Link.escapeQuotes))
        e.attributeText) := by
  obtain ⟨kind, long⟩ := frame
  match written : e.writtenSources, long with
  | first :: second :: rest, _ =>
    refine ⟨first, second :: rest, rfl, ?_⟩
    have sources := sourceList_eq e
    rw [written] at sources
    unfold html?
    rw [medium?_eq_frame_iff.mpr kind, sources]
    rfl

end Embed

theorem embedScripts_of_longFrame (long : ∃ e ∈ Text.finds Embed.read s, e.IsLongFrame) :
    embedScripts s = [.frameFallback] := by
  obtain ⟨e, member, frame⟩ := long
  exact if_pos (List.any_eq_true.mpr ⟨e, member, Embed.needsFallback_iff.mpr frame⟩)

theorem embedScripts_of_noLongFrame (none : ¬∃ e ∈ Text.finds Embed.read s, e.IsLongFrame) :
    embedScripts s = [] := by
  refine if_neg fun needed => none ?_
  obtain ⟨e, member, frame⟩ := List.any_eq_true.mp needed
  exact ⟨e, member, Embed.needsFallback_iff.mp frame⟩

/-- A frame among the embeds of a text is written with the first source and the others in a list,
within quotes that neither has. -/
theorem exists_html_of_mem_finds {e : Embed} (member : e ∈ Text.finds Embed.read s)
    (frame : e.IsLongFrame) :
    ∃ first others shown list, e.writtenSources = first :: others ∧
      e.html? = some (Embed.longFrame shown list e.attributeText) ∧
      Embed.longFrame shown list e.attributeText <:+: embeds s ∧
      shown = Text.replace ['"'] "&quot;" first ∧ '"' ∉ shown ∧ '\'' ∉ list ∧
      ((∀ source ∈ others, ¬RefersToQuote source) →
        Json.parse? (Text.replace "&#39;" ['\''] list) =
          some (.array (others.map fun source =>
            .string (Text.replace ['"'] "&quot;" source)))) := by
  obtain ⟨first, others, written, html⟩ := Embed.exists_html_of_isLongFrame frame
  obtain ⟨source, found⟩ := Text.mem_finds.mp member
  have inside := Text.infix_ofPieces_of_mem found fun source e => e.html?.getD source
  rw [html, Option.getD_some] at inside
  refine ⟨first, others, _, _, written, html, inside, (replace_doubleQuote first).symm,
    doubleQuote_notMem_escapeQuotes first, quote_notMem_sourceArray _, fun plain => ?_⟩
  have escaped : ∀ source ∈ others.map Link.escapeQuotes, ¬RefersToQuote source := by
    rw [List.forall_mem_map]
    exact fun source member refers => plain source member (refersToQuote_escapeQuotes refers)
  rw [parse?_sourceArray escaped, List.map_map]
  simp only [Function.comp_def, replace_doubleQuote]

end Frames

end Stencil
