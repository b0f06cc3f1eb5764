import Stencil.Proofs.Render.Frame
import Stencil.Proofs.Render.Tokens

/-!
# Single placeholders survive the wildcards

The sweep beyond wildcards puts new text between the texts around them.  New text may complete a
placeholder or bring one, but it takes none away: every single placeholder of a text is still one
once the wildcards are replaced, in the same order (`placesOf_sublist`).
-/

namespace Stencil.Positional

/-- What the single placeholders of a text ask for, from left to right. -/
def placesOf (s : Text) : List (Option (TagKind × Nat)) := Text.foundValues (Text.scan read s)

theorem scanFrom_before (before before' : Option Char) (skip : Nat) (s : Text) :
    Text.scanFrom read before skip s = Text.scanFrom read before' skip s :=
  Text.scanFrom_before (fun _ _ _ => rfl) before before' skip s

theorem placesOf_cons_of_none {c : Char} {s : Text} (h : read none (c :: s) = none) :
    placesOf (c :: s) = placesOf s := by
  rw [placesOf, Text.scan, Text.scanFrom, h, scanFrom_before (some c) none]
  rfl

theorem placesOf_of_some {s rest : Text} {value : Option (TagKind × Nat)}
    (h : read none s = some (value, rest)) : placesOf s = value :: placesOf rest := by
  obtain ⟨k, written, digits, _, _, _, rfl⟩ := read_eq_some h
  obtain ⟨before, scanned⟩ := Text.scanFrom_found read (by simp [token]) h
  rw [placesOf, Text.scan, scanned, scanFrom_before before none]
  rfl

theorem read_append_of_some {s rest : Text} {value : Option (TagKind × Nat)}
    (h : read none s = some (value, rest)) (w : Text) :
    read none (s ++ w) = some (value, rest ++ w) := by
  obtain ⟨k, written, digits, named, nonempty, all, rfl⟩ := read_eq_some h
  rw [read_token named nonempty all] at h
  rw [List.append_assoc, read_token named nonempty all]
  obtain ⟨rfl, _⟩ := Prod.mk.inj (Option.some.inj h)
  rfl

/-- A placeholder that begins in a text and is not one of the text runs on behind it. -/
theorem exists_overrun {s w rest : Text} {value : Option (TagKind × Nat)}
    (nothing : read none s = none) (h : read none (s ++ w) = some (value, rest)) :
    ∃ (k : TagKind) (written digits beyond : Text), written.map foldLetter = k.name ∧
      (∀ c ∈ digits, isDigit c) ∧ token written digits = s ++ beyond ∧ beyond ≠ [] ∧
      w = beyond ++ rest := by
  obtain ⟨k, written, digits, named, nonempty, all, split⟩ := read_eq_some h
  have outside (more : Text) : s ≠ token written digits ++ more := by
    rintro rfl
    rw [read_token named nonempty all] at nothing
    exact nomatch nothing
  rcases List.append_eq_append_iff.mp split with ⟨beyond, token_eq, w_eq⟩ | ⟨more, same, _⟩
  · refine ⟨k, written, digits, beyond, named, all, token_eq, ?_, w_eq⟩
    rintro rfl
    exact outside [] (by simpa using token_eq.symm)
  · exact absurd same (outside more)

theorem placesOf_append_of_notMem {s : Text} (h : '<' ∉ s) (w : Text) :
    placesOf (s ++ w) = placesOf w := by
  induction s with
  | nil => rfl
  | cons c s ih =>
    have first : c ≠ '<' := fun same => h (same ▸ List.mem_cons_self)
    rw [List.cons_append, placesOf_cons_of_none (read_cons_of_ne first none (s ++ w))]
    exact ih fun later => h (List.mem_cons_of_mem c later)

theorem placesOf_of_notMem {s : Text} (h : '<' ∉ s) : placesOf s = [] := by
  have := placesOf_append_of_notMem h []
  rwa [List.append_nil] at this

theorem brace_notMem_token {k : TagKind} {written digits : Text}
    (named : written.map foldLetter = k.name) (all : ∀ c ∈ digits, isDigit c) :
    '\x7b' ∉ token written digits := by
  have name := TagKind.notMem_written named (c := '\x7b') (by cases k <;> decide)
  have digits_clear : '\x7b' ∉ digits := fun member => absurd (all _ member) (by decide)
  simp [token, name, digits_clear]

theorem bracket_notMem_beyond {k : TagKind} {written digits s beyond : Text}
    (named : written.map foldLetter = k.name) (all : ∀ c ∈ digits, isDigit c) {c : Char}
    (token_eq : token written digits = c :: s ++ beyond) : '<' ∉ s ∧ '<' ∉ beyond := by
  have tail : '<' ∉ (token written digits).tail := by
    have digits_clear : '<' ∉ digits := fun member => absurd (all _ member) (by decide)
    simp [token, TagKind.bracket_notMem_written named, digits_clear]
  rw [token_eq] at tail
  exact not_or.mp fun member => tail (List.mem_append.mpr member)

/-- Induction along a scan: a text is empty, or begins with a placeholder, or with a character at
which there is none. -/
theorem scan_induction {motive : Text → Prop} (nil : motive [])
    (found : ∀ s value rest, read none s = some (value, rest) → motive rest → motive s)
    (pass : ∀ c s, read none (c :: s) = none → motive s → motive (c :: s)) (s : Text) :
    motive s := by
  induction size : s.length using Nat.strongRecOn generalizing s with
  | ind n ih =>
    cases s with
    | nil => exact nil
    | cons c s =>
      cases here : read none (c :: s) with
      | none => exact pass c s here (ih s.length (by simp [← size]) s rfl)
      | some answer =>
        obtain ⟨value, rest⟩ := answer
        have shorter : rest.length < n := by
          obtain ⟨k, written, digits, _, _, _, split⟩ := read_eq_some here
          rw [← size, split, List.length_append]
          simp only [token, List.length_append, List.length_cons, List.length_nil]
          omega
        exact found _ value rest here (ih rest.length shorter rest rfl)

/-- The placeholders of two texts are there when one text follows the other. -/
theorem placesOf_append_sublist (u w : Text) :
    (placesOf u ++ placesOf w).Sublist (placesOf (u ++ w)) := by
  induction u using scan_induction with
  | nil => exact List.Sublist.refl _
  | found u value rest here ih =>
    rw [placesOf_of_some here, placesOf_of_some (read_append_of_some here w)]
    exact ih.cons_cons value
  | pass c u here ih =>
    rw [placesOf_cons_of_none here, List.cons_append]
    cases wide : read none (c :: (u ++ w)) with
    | none =>
      rw [placesOf_cons_of_none wide]
      exact ih
    | some answer =>
      -- The end of one text and the start of the other make up a placeholder.
      obtain ⟨value, rest⟩ := answer
      obtain ⟨k, written, digits, beyond, named, all, token_eq, _, rfl⟩ := exists_overrun here wide
      obtain ⟨u_clear, beyond_clear⟩ := bracket_notMem_beyond named all token_eq
      rw [placesOf_of_some wide, placesOf_of_notMem u_clear,
        placesOf_append_of_notMem beyond_clear]
      exact List.sublist_cons_self value _

/-- A text that begins with a brace does not make up a placeholder with the text before it. -/
theorem placesOf_append_brace (u w : Text) :
    placesOf (u ++ '\x7b' :: w) = placesOf u ++ placesOf ('\x7b' :: w) := by
  induction u using scan_induction with
  | nil => rfl
  | found u value rest here ih =>
    rw [placesOf_of_some here, placesOf_of_some (read_append_of_some here _), ih, List.cons_append]
  | pass c u here ih =>
    rw [placesOf_cons_of_none here, List.cons_append]
    cases wide : read none (c :: (u ++ '\x7b' :: w)) with
    | none => rw [placesOf_cons_of_none wide, ih]
    | some answer =>
      obtain ⟨value, rest⟩ := answer
      obtain ⟨k, written, digits, beyond, named, all, token_eq, nonempty, split⟩ :=
        exists_overrun here wide
      cases beyond with
      | nil => exact absurd rfl nonempty
      | cons d beyond =>
        obtain ⟨rfl, _⟩ := List.cons.inj split
        exact absurd (token_eq ▸ by simp) (brace_notMem_token named all)

/-- Putting texts between others loses no placeholder of these. -/
theorem placesOf_weave_sublist {us texts : List Text} (length : us.length = texts.length + 1) :
    (us.flatMap placesOf).Sublist (placesOf (Text.weave us texts)) := by
  induction texts generalizing us with
  | nil =>
    obtain ⟨u, rfl⟩ := List.length_eq_one_iff.mp length
    simp [Text.weave]
  | cons text texts ih =>
    obtain ⟨u, us, rfl⟩ := List.exists_cons_of_length_eq_add_one length
    have rest := @ih us (by simpa using length)
    have behind := (List.sublist_append_right (placesOf text) _).trans
      (placesOf_append_sublist text (Text.weave us texts))
    rw [List.flatMap_cons, Text.weave, List.append_assoc]
    exact ((rest.trans behind).append_left (placesOf u)).trans (placesOf_append_sublist u _)

/-- Wildcards between texts hold no single placeholder and make up none. -/
theorem placesOf_weave_wildcards {us sources : List Text} (length : us.length = sources.length + 1)
    (braces : ∀ source ∈ sources, ∃ tail, source = '\x7b' :: tail ∧ '<' ∉ tail) :
    placesOf (Text.weave us sources) = us.flatMap placesOf := by
  induction sources generalizing us with
  | nil =>
    obtain ⟨u, rfl⟩ := List.length_eq_one_iff.mp length
    simp [Text.weave]
  | cons source sources ih =>
    obtain ⟨u, us, rfl⟩ := List.exists_cons_of_length_eq_add_one length
    obtain ⟨tail, rfl, clear⟩ := braces source List.mem_cons_self
    have rest := @ih us (by simpa using length)
      fun source member => braces source (List.mem_cons_of_mem _ member)
    have all : '<' ∉ '\x7b' :: tail := by simp [clear]
    rw [List.flatMap_cons, Text.weave, List.append_assoc, List.cons_append, placesOf_append_brace,
      ← List.cons_append, placesOf_append_of_notMem all, rest]

/-- A wildcard begins with a brace and has no bracket behind it. -/
theorem wildcard_of_mem_foundSources {s source : Text}
    (h : source ∈ Text.foundSources (Text.scan Wildcard.read s)) :
    ∃ tail, source = '\x7b' :: tail ∧ '<' ∉ tail := by
  obtain ⟨before, rest, value, found⟩ := Text.read_of_mem_foundSources Wildcard.isLocal h
  obtain ⟨find, split, nonempty, clear, _⟩ := Wildcard.isLocal _ _ _ _ found
  obtain rfl := List.append_cancel_right split
  cases source with
  | nil => exact absurd rfl nonempty
  | cons c tail =>
    by_cases brace : c = '\x7b'
    · exact ⟨tail, by rw [brace], clear⟩
    · rw [List.cons_append, Wildcard.read_cons_of_ne brace] at found
      exact nomatch found

/-- The placeholders of a text are still there when other texts take the place of its wildcards. -/
theorem placesOf_sublist (s : Text) {texts : List Text}
    (length : texts.length = (Text.foundValues (Text.scan Wildcard.read s)).length) :
    (placesOf s).Sublist
      (placesOf (Text.weave (Text.around (Text.scan Wildcard.read s)) texts)) := by
  have around := Text.length_around (Text.scan Wildcard.read s)
  have sources := placesOf_weave_wildcards
    (by rw [around, Text.length_foundSources]) (fun _ => wildcard_of_mem_foundSources (s := s))
  rw [Text.weave_scan] at sources
  rw [sources]
  exact placesOf_weave_sublist (by rw [around, length])

end Stencil.Positional
