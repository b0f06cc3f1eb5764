import Stencil.Proofs.Html.Escape
import Stencil.Proofs.Render.Including
import Stencil.Proofs.Tag.Extraction

/-!
# Texts that the escape leaves as they are

A text without brackets and braces whose ampersands all begin entities is escaped already
(`IsEscaped`).  Those are the texts that `escapeHtml` does not change (`escapeHtml_eq_self_iff`),
and every text becomes one of them.  An ampersand is judged by the text behind it before that text
is escaped; an entity has nothing in it to escape, so that the verdict is the same afterwards.

No reader of tags or placeholders finds anything that begins in such a text, whatever follows it
(`IsEscaped.opensNothing`).
-/

namespace Stencil

/-- Text without brackets and braces whose ampersands all begin one of the entities. -/
structure IsEscaped (s : Text) : Prop where
  undelimited : ∀ c ∈ s, c ∉ ['<', '>', '\x7b', '\x7d']
  ampersands : AmpersandsBegin ["amp;", "gt;", "lt;", "sol;", "bsol;", "lbrace;", "rbrace;"] s

/-- Whether a reader finds nothing that begins in a text, whatever follows the text. -/
def Reader.Passes {α : Type} (read : Reader α) (s : Text) : Prop :=
  ∀ before t more, t <:+ s → t ≠ [] → read before (t ++ more) = none

/-- Text in which no tag, no value's placeholder and no element's placeholder begins. -/
structure OpensNothing (s : Text) : Prop where
  element : ∀ name, (Element.read name).Passes s
  captured : Captured.read.Passes s
  value : Placeholder.read.Passes s
  wildcard : Wildcard.read.Passes s
  positional : Positional.read.Passes s

section Passes

variable {α : Type} {read : Reader α} {s : Text} {c : Char}

theorem Reader.passes_of_notMem
    (opens : ∀ d, d ≠ c → ∀ before t, read before (d :: t) = none) (absent : c ∉ s) :
    read.Passes s := by
  intro before t more tail some
  obtain ⟨d, t, rfl⟩ := List.exists_cons_of_ne_nil some
  refine opens d (fun same => absent ?_) before (t ++ more)
  exact same ▸ tail.subset List.mem_cons_self

theorem Reader.Delimited.read_cons_of_ne {lasts : List Char} (delimited : read.Delimited [c] lasts)
    (d : Char) (other : d ≠ c) (before : Option Char) (t : Text) : read before (d :: t) = none := by
  cases found : read before (d :: t) with
  | none => rfl
  | some answer =>
    obtain ⟨first, middle, last, split, opens, _⟩ :=
      delimited before (d :: t) answer.1 answer.2 found
    have same : d = first := (List.cons.inj split).1
    exact absurd (same.trans (List.mem_singleton.mp opens)) other

end Passes

variable {s : Text}

/-- In escaped text nothing begins that a later stage reads: each reader wants a bracket or a brace
first. -/
theorem IsEscaped.opensNothing (h : IsEscaped s) : OpensNothing s where
  element name := Reader.passes_of_notMem (Element.delimited_read name).read_cons_of_ne
    fun bracket => h.undelimited _ bracket (by decide)
  captured := Reader.passes_of_notMem Captured.delimited_read.read_cons_of_ne
    fun bracket => h.undelimited _ bracket (by decide)
  value := Reader.passes_of_notMem (fun _ => Placeholder.read_cons_of_ne)
    fun brace => h.undelimited _ brace (by decide)
  wildcard := Reader.passes_of_notMem (fun _ => Wildcard.read_cons_of_ne)
    fun brace => h.undelimited _ brace (by decide)
  positional := Reader.passes_of_notMem (fun _ => Positional.read_cons_of_ne)
    fun bracket => h.undelimited _ bracket (by decide)

theorem isEscaped_escapeHtml (s : Text) : IsEscaped (escapeHtml s) where
  undelimited := not_mem_delimiters_of_mem_escapeHtml s
  ampersands := ampersandsBegin_escapeHtml s

theorem IsEscaped.of_cons {c : Char} (h : IsEscaped (c :: s)) : IsEscaped s where
  undelimited := (List.forall_mem_cons.mp h.undelimited).2
  ampersands := (ampersandsBegin_cons.mp h.ampersands).2

theorem escapeHtml_ampersand (s : Text) : escapeHtml ('&' :: s) =
    (if startsKnownEntity s then ['&'] else "&amp;") ++ escapeHtml s := rfl

/-- There is nothing to escape in a text that is escaped. -/
theorem IsEscaped.escapeHtml_eq (h : IsEscaped s) : escapeHtml s = s := by
  induction s with
  | nil => rfl
  | cons c s ih =>
    have rest := ih h.of_cons
    by_cases amp : c = '&'
    · subst amp
      obtain ⟨e, member, start⟩ := (ampersandsBegin_cons.mp h.ampersands).1 rfl
      have known : startsKnownEntity s = true := startsKnownEntity_iff.mpr ⟨e, member, start⟩
      rw [escapeHtml_ampersand, if_pos known, rest, List.singleton_append]
    · have plain : c ∉ escapedChars :=
        List.not_mem_cons_of_ne_of_not_mem amp (h.undelimited c List.mem_cons_self)
      rw [escapeHtml_cons_of_not_mem s plain, rest]

theorem escapeHtml_eq_self_iff : escapeHtml s = s ↔ IsEscaped s :=
  ⟨fun same => same ▸ isEscaped_escapeHtml s, IsEscaped.escapeHtml_eq⟩

/-- The escape changes all texts but those that are escaped, makes every text one of them, so that
a second escape changes nothing, and leaves nothing in which a tag or a placeholder begins. -/
theorem escapeHtml_settles (s : Text) :
    (escapeHtml s = s ↔ IsEscaped s) ∧ IsEscaped (escapeHtml s) ∧
      escapeHtml (escapeHtml s) = escapeHtml s ∧ OpensNothing (escapeHtml s) := by
  have escaped := isEscaped_escapeHtml s
  exact ⟨escapeHtml_eq_self_iff, escaped, escaped.escapeHtml_eq, escaped.opensNothing⟩

end Stencil
