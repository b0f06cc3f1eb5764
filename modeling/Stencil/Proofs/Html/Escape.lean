import Mathlib.Data.List.Infix
import Stencil.Html.Escape

/-!
# Escaped text is inert

A text that went through `escapeHtml` holds no bracket and no brace, and each of its ampersands
begins an entity (`inert_escapeHtml`); `escapeAttr` takes the quotes away as well and leaves it so
(`inert_escapeAttr`).  Both escape character by character, apart from the look that `escapeHtml`
takes at what follows an ampersand: an entity that was let pass is still there in the result.
-/

namespace Stencil

/-- The characters that open or close a tag or a placeholder. -/
def delimiters : List Char := ['<', '>', '\x7b', '\x7d']

def quotes : List Char := ['"', '\'']

/-- What follows the ampersands of escaped text. -/
def entities : List Text := "quot;" :: "#39;" :: knownEntities

/-- Whether every ampersand of a text begins one of some entities. -/
def AmpersandsBegin (entities : List Text) (s : Text) : Prop :=
  ∀ before after, s = before ++ '&' :: after → ∃ e ∈ entities, e <+: after

/-- Text that can open or close neither a tag nor a placeholder. -/
structure Inert (s : Text) : Prop where
  undelimited : ∀ c ∈ s, c ∉ delimiters
  ampersands : AmpersandsBegin entities s

theorem ampersandsBegin_nil (es : List Text) : AmpersandsBegin es [] := by
  intro before after split
  simp at split

/-- Ampersands are looked at one by one, from the first character on. -/
theorem ampersandsBegin_cons {es : List Text} {c : Char} {s : Text} :
    AmpersandsBegin es (c :: s) ↔ (c = '&' → ∃ e ∈ es, e <+: s) ∧ AmpersandsBegin es s := by
  constructor
  · intro h
    refine ⟨fun same => h [] s (by rw [same, List.nil_append]), fun before after split => ?_⟩
    exact h (c :: before) after (by rw [split, List.cons_append])
  · rintro ⟨first, others⟩ before after split
    cases before with
    | nil =>
      obtain ⟨rfl, rfl⟩ := List.cons.inj split
      exact first rfl
    | cons d before => exact others before after (List.cons.inj split).2

theorem ampersandsBegin_append_of_not_mem {es : List Text} {s t : Text} (h : '&' ∉ s) :
    AmpersandsBegin es (s ++ t) ↔ AmpersandsBegin es t := by
  induction s with
  | nil => rfl
  | cons c s ih =>
    rw [List.mem_cons, not_or] at h
    rw [List.cons_append, ampersandsBegin_cons, ih h.2]
    exact and_iff_right fun same => absurd same.symm h.1

theorem ampersandsBegin_concat {es : List Text} {s : Text} {c : Char}
    (h : AmpersandsBegin es s) (other : c ≠ '&') : AmpersandsBegin es (s ++ [c]) := by
  induction s with
  | nil => exact ampersandsBegin_cons.mpr ⟨fun same => absurd same other, ampersandsBegin_nil es⟩
  | cons d s ih =>
    obtain ⟨first, others⟩ := ampersandsBegin_cons.mp h
    refine ampersandsBegin_cons.mpr ⟨fun same => ?_, ih others⟩
    obtain ⟨e, member, start⟩ := first same
    exact ⟨e, member, start.trans (List.prefix_append s [c])⟩

theorem startsKnownEntity_iff {s : Text} :
    startsKnownEntity s = true ↔ ∃ e ∈ knownEntities, e <+: s := by
  simp only [startsKnownEntity, Text.startsWith, List.any_eq_true, List.isPrefixOf_iff_prefix]

/-- The characters that `escapeHtml` writes otherwise. -/
def escapedChars : List Char := '&' :: delimiters

theorem escapeHtml_cons_of_not_mem {c : Char} (s : Text) (h : c ∉ escapedChars) :
    escapeHtml (c :: s) = c :: escapeHtml s := by
  simp only [escapedChars, delimiters, List.mem_cons, List.not_mem_nil, or_false, not_or] at h
  obtain ⟨amp, lt, gt, lbrace, rbrace⟩ := h
  generalize joined : c :: s = t
  fun_cases escapeHtml t <;> cases joined <;> first | rfl | contradiction

theorem escapeHtml_append_of_not_mem {s : Text} (t : Text) (h : ∀ c ∈ s, c ∉ escapedChars) :
    escapeHtml (s ++ t) = s ++ escapeHtml t := by
  induction s with
  | nil => rfl
  | cons c s ih =>
    rw [List.forall_mem_cons] at h
    rw [List.cons_append, escapeHtml_cons_of_not_mem _ h.1, ih h.2, List.cons_append]

theorem escapeHtml_suffix_cons (c : Char) (s : Text) : escapeHtml s <:+ escapeHtml (c :: s) := by
  generalize joined : c :: s = t
  fun_cases escapeHtml t <;> cases joined
  case case7 => exact List.suffix_cons c _
  all_goals exact List.suffix_append _ _

theorem infix_escapeHtml {w s : Text} (h : w <:+: s) (plain : ∀ c ∈ w, c ∉ escapedChars) :
    w <:+: escapeHtml s := by
  obtain ⟨front, back, rfl⟩ := h
  induction front with
  | nil =>
    rw [List.nil_append, escapeHtml_append_of_not_mem _ plain]
    exact (List.prefix_append w _).isInfix
  | cons c front ih => exact ih.trans (escapeHtml_suffix_cons c _).isInfix

/-- What an entity is written with passes the escape as it is. -/
theorem not_mem_escapedChars_of_mem_knownEntities :
    ∀ e ∈ knownEntities, ∀ c ∈ e, c ∉ escapedChars := by
  decide

theorem entity_isPrefix_escapeHtml {e s : Text} (member : e ∈ knownEntities) (h : e <+: s) :
    e <+: escapeHtml s := by
  obtain ⟨t, rfl⟩ := h
  rw [escapeHtml_append_of_not_mem t (not_mem_escapedChars_of_mem_knownEntities e member)]
  exact List.prefix_append e _

/-- No bracket and no brace is left in escaped text. -/
theorem not_mem_delimiters_of_mem_escapeHtml (s : Text) :
    ∀ c ∈ escapeHtml s, c ∉ delimiters := by
  fun_induction escapeHtml s with
  | case1 => simp
  | case2 s ih =>
    refine List.forall_mem_append.mpr ⟨?_, ih⟩
    split <;> decide
  | case3 s ih | case4 s ih | case5 s ih | case6 s ih =>
    exact List.forall_mem_append.mpr ⟨by decide, ih⟩
  | case7 c s amp lt gt lbrace rbrace ih =>
    exact List.forall_mem_cons.mpr ⟨by simp_all [delimiters], ih⟩

/-- An escaped text has the characters of the text and of entities. -/
theorem forall_mem_escapeHtml {p : Char → Prop} {s : Text}
    (entities : ∀ c ∈ ("&amp;&lt;&gt;&lbrace;&rbrace;" : Text), p c) (own : ∀ c ∈ s, p c) :
    ∀ c ∈ escapeHtml s, p c := by
  have entity {e : Text} (part : e <:+: "&amp;&lt;&gt;&lbrace;&rbrace;") : ∀ c ∈ e, p c :=
    fun c member => entities c (part.subset member)
  fun_induction escapeHtml s with
  | case1 => simp
  | case2 s ih =>
    obtain ⟨_, later⟩ := List.forall_mem_cons.mp own
    refine List.forall_mem_append.mpr ⟨?_, ih later⟩
    split
    · exact entity (by decide)
    · exact entity (by decide)
  | case3 s ih | case4 s ih | case5 s ih | case6 s ih =>
    obtain ⟨_, later⟩ := List.forall_mem_cons.mp own
    exact List.forall_mem_append.mpr ⟨entity (by decide), ih later⟩
  | case7 c s amp lt gt lbrace rbrace ih =>
    obtain ⟨here, later⟩ := List.forall_mem_cons.mp own
    exact List.forall_mem_cons.mpr ⟨here, ih later⟩

/-- An ampersand in escaped text begins a known entity: it began one before, or it is one of those
that were written. -/
theorem ampersandsBegin_escapeHtml (s : Text) : AmpersandsBegin knownEntities (escapeHtml s) := by
  -- An entity that is written here begins with the only ampersand in it.
  have written {e t : Text} (member : e ∈ knownEntities)
      (rest : AmpersandsBegin knownEntities t) :
      AmpersandsBegin knownEntities (('&' :: e) ++ t) := by
    have none : '&' ∉ e := fun h =>
      not_mem_escapedChars_of_mem_knownEntities e member _ h List.mem_cons_self
    exact ampersandsBegin_cons.mpr ⟨fun _ => ⟨e, member, List.prefix_append e t⟩,
      (ampersandsBegin_append_of_not_mem none).mpr rest⟩
  fun_induction escapeHtml s with
  | case1 => exact ampersandsBegin_nil _
  | case2 s ih =>
    split <;> rename_i known
    · obtain ⟨e, member, start⟩ := startsKnownEntity_iff.mp known
      exact ampersandsBegin_cons.mpr
        ⟨fun _ => ⟨e, member, entity_isPrefix_escapeHtml member start⟩, ih⟩
    · exact written (by decide) ih
  | case3 s ih | case4 s ih | case5 s ih | case6 s ih => exact written (by decide) ih
  | case7 c s amp lt gt lbrace rbrace ih =>
    exact ampersandsBegin_cons.mpr ⟨fun same => absurd same amp, ih⟩

/-- Escaped text can open or close neither a tag nor a placeholder. -/
theorem inert_escapeHtml (s : Text) : Inert (escapeHtml s) where
  undelimited := not_mem_delimiters_of_mem_escapeHtml s
  ampersands := by
    intro before after split
    obtain ⟨e, member, start⟩ := ampersandsBegin_escapeHtml s before after split
    exact ⟨e, List.mem_cons_of_mem _ (List.mem_cons_of_mem _ member), start⟩

theorem escapeAttr_cons (c : Char) (s : Text) :
    escapeAttr (c :: s) = escapeAttrChar c ++ escapeAttr s := rfl

/-- No quote of either kind is left in an escaped attribute. -/
theorem not_mem_quotes_of_mem_escapeAttr (s : Text) : ∀ c ∈ escapeAttr s, c ∉ quotes := by
  induction s with
  | nil => simp [escapeAttr]
  | cons c s ih =>
    rw [escapeAttr_cons]
    refine List.forall_mem_append.mpr ⟨?_, ih⟩
    unfold escapeAttrChar
    split
    · decide
    · split
      · decide
      · simp_all [quotes]

/-- Text without quotes stays as it is in an attribute. -/
theorem escapeAttr_append_of_not_mem {s : Text} (t : Text) (h : ∀ c ∈ s, c ∉ quotes) :
    escapeAttr (s ++ t) = s ++ escapeAttr t := by
  induction s with
  | nil => rfl
  | cons c s ih =>
    rw [List.forall_mem_cons] at h
    have plain : escapeAttrChar c = [c] := by
      have other := h.1
      simp only [quotes, List.mem_cons, List.not_mem_nil, or_false, not_or] at other
      simp [escapeAttrChar, other]
    rw [List.cons_append, escapeAttr_cons, plain, ih h.2]
    rfl

/-- The second escape leaves escaped text inert. -/
theorem inert_escapeAttr {s : Text} (h : Inert s) : Inert (escapeAttr s) := by
  have unquoted : ∀ e ∈ entities, ∀ c ∈ e, c ∉ quotes := by decide
  induction s with
  | nil => exact h
  | cons c s ih =>
    obtain ⟨first, others⟩ := ampersandsBegin_cons.mp h.ampersands
    obtain ⟨here, rest⟩ := List.forall_mem_cons.mp h.undelimited
    have ih := ih ⟨rest, others⟩
    rw [escapeAttr_cons]
    unfold escapeAttrChar
    refine ⟨List.forall_mem_append.mpr ⟨?_, ih.undelimited⟩, ?_⟩
    · split
      · decide
      · split
        · decide
        · simpa using here
    · split
      · exact ampersandsBegin_cons.mpr ⟨fun _ => ⟨"quot;", by decide, List.prefix_append _ _⟩,
          (ampersandsBegin_append_of_not_mem (by decide)).mpr ih.ampersands⟩
      · split
        · exact ampersandsBegin_cons.mpr ⟨fun _ => ⟨"#39;", by decide, List.prefix_append _ _⟩,
            (ampersandsBegin_append_of_not_mem (by decide)).mpr ih.ampersands⟩
        · refine ampersandsBegin_cons.mpr ⟨fun same => ?_, ih.ampersands⟩
          obtain ⟨e, member, t, rfl⟩ := first same
          rw [escapeAttr_append_of_not_mem t (unquoted e member)]
          exact ⟨e, member, List.prefix_append e _⟩

end Stencil
