import Stencil.Proofs.Inline.Restore

/-!
# Parts within parts

A part may hold stand-ins, but only of parts that were taken out before it (`Nested`), whatever text
they were taken out of (`nested_protect`).  So putting the parts back, and then those within them,
comes to an end (`restoreWithin_eq_some`) and leaves no stand-in behind
(`Nested.not_mem_restore`).
-/

namespace Stencil.Code

variable {N : Numbering} {parts more : List Text} {part s : Text}

/-- Whether every part is intact with stand-ins that name parts before it. -/
inductive Nested (N : Numbering) : List Text → Prop where
  | nil : Nested N []
  | concat {parts : List Text} {part : Text} (earlier : Nested N parts)
    (here : Intact (naming N parts) part) : Nested N (parts ++ [part])

namespace Nested

theorem append (earlier : Nested N parts) (here : ∀ part ∈ more, Intact (naming N parts) part) :
    Nested N (parts ++ more) := by
  induction more using List.reverseRecOn with
  | nil => rwa [List.append_nil]
  | append_singleton more part ih =>
    obtain ⟨others, last⟩ := List.forall_mem_append.mp here
    rw [← List.append_assoc]
    refine .concat (ih others) ?_
    exact (last part List.mem_cons_self).mono rfl fun _ _ names => names.append more

/-- A part that is nested is intact with the stand-ins of those before it. -/
theorem intact_part (h : Nested N parts) {j : Nat} (there : parts[j]? = some part) :
    Intact (naming N (parts.take j)) part := by
  induction h with
  | nil => simp at there
  | @concat parts last _ here ih =>
    rw [List.getElem?_append] at there
    split at there
    case isTrue inside =>
      rw [List.take_append_of_le_length inside.le]
      exact ih there
    case isFalse outside =>
      obtain ⟨single, rfl⟩ := List.getElem?_eq_some_iff.mp there
      have same : j = parts.length := by
        rw [List.length_singleton] at single
        omega
      subst same
      simpa using here

section

variable (codes : ∀ kind ∈ standIns, kind ∈ N.kinds)

include codes

/-- Filling the stand-ins of parts leaves none of these if there are none in the filled parts. -/
theorem intact_fill {filled : Array Text}
    (clear : ∀ text ∈ filled, Intact (naming N []) text) (h : Intact (naming N parts) s) :
    Intact (naming N []) (StandIn.fill standIns filled s) :=
  h.fill rfl codes (fun _ _ other _ names => absurd names.1 other)
    fun _ _ _ text _ there => clear text (Array.mem_of_getElem? there)

theorem intact_filledParts (h : Nested N parts) :
    ∀ text ∈ filledParts parts, Intact (naming N []) text := by
  induction h with
  | nil => simp [filledParts]
  | concat _ here ih =>
    intro text member
    rw [filledParts_append, Array.mem_push] at member
    rcases member with earlier | rfl
    · exact ih text earlier
    · exact intact_fill codes ih here

/-- A text is restored without any character of a stand-in. -/
theorem not_mem_restore (h : Nested N parts) (whole : Intact (naming N parts) s) :
    ∀ c ∈ restore parts s, c ∉ N.chars := by
  have filled := intact_fill codes (h.intact_filledParts codes) whole
  have clear := filled.clear fun _ i (names : Names [] _ i) => absurd names.lt_length i.not_lt_zero
  exact clear

end

end Nested

/-- Whether the stand-ins in a protected text name its parts, and those in a part ones before it. -/
structure Protected.Nested (N : Numbering) (p : Protected) : Prop where
  text : Intact (naming N p.parts) p.text
  parts : Code.Nested N p.parts

section

variable (codes : ∀ kind ∈ standIns, kind ∈ N.kinds)

include codes

theorem Protected.Nested.take {α : Type} {p : Protected} {kind : StandIn} {read : Reader α}
    {write : Text → α → Text} (h : p.Nested N) (takes : Takes kind read write) :
    (p.take kind read write).Nested N where
  text := takes.intact_text (codes kind takes.known) h.text
  parts := by
    refine h.parts.append fun part member => ?_
    obtain ⟨find, inside, rfl, before, rest, found⟩ := takes.exists_read member
    have source := ((h.text.parts takes.severs).2 find inside).1
    exact takes.intact _ before _ _ rest found source

/-- Whatever code is taken out of, the stand-ins left for it are nested. -/
theorem nested_protect (clear : ∀ c ∈ s, isReserved c = false → c ∉ N.chars) :
    (protect s).Nested N := by
  have whole : Protected.Nested N ⟨s.filter fun c => !isReserved c, []⟩ := by
    refine ⟨.of_clear fun c member => ?_, .nil⟩
    obtain ⟨inside, other⟩ := List.mem_filter.mp member
    exact clear c inside (by simpa using other)
  exact ((((whole.take codes takes_pre).take codes takes_languageBlock).take codes
    takes_block).take codes takes_code).take codes takes_inline

end

/-- What a piece of a text becomes where parts become what `within` makes of them. -/
def restorePiece (parts : List Text) (within : Text → Option Text) :
    Piece (Option Nat) → Option Text
  | .plain c => some [c]
  | .found _ index =>
    match index.bind fun i => parts[i]? with
    | some part => within part
    | none => some []

/-- Puts the parts back into a text and those within them into the parts, down to some depth. -/
def restoreWithin (parts : List Text) : Nat → Text → Option Text
  | 0, _ => none
  | depth + 1, s =>
    ((Text.scan (StandIn.read standIns) s).mapM
      (restorePiece parts (restoreWithin parts depth))).map List.flatten

/-- Where every piece becomes a text, the pieces become the text made of these. -/
theorem mapM_pieces {α : Type} {f : Piece α → Option Text} {write : Text → α → Text}
    {pieces : List (Piece α)} (plain : ∀ c, f (.plain c) = some [c])
    (found : ∀ source value, .found source value ∈ pieces →
      f (.found source value) = some (write source value)) :
    (pieces.mapM f).map List.flatten = some (Text.ofPieces write pieces) := by
  induction pieces with
  | nil => rfl
  | cons piece pieces ih =>
    have rest := ih fun source value member => found source value (List.mem_cons_of_mem _ member)
    obtain ⟨texts, mapped, joined⟩ := Option.map_eq_some_iff.mp rest
    cases piece with
    | plain c => simp [List.mapM_cons, plain, mapped, joined, Text.ofPieces]
    | found source value =>
      simp [List.mapM_cons, found source value List.mem_cons_self, mapped, joined, Text.ofPieces]

section

variable (nested : ∀ j part, parts[j]? = some part → Sealed (parts.take j) part)

include nested

/-- A part is filled with all of the parts as with those before it. -/
theorem getElem?_filledParts_eq_restore {j : Nat} (there : parts[j]? = some part) :
    (filledParts parts)[j]? = some (restore parts part) := by
  rw [getElem?_filledParts there, restore, (nested j part there).fill_congr]
  intro i inside
  exact getElem?_filledParts_take (inside.trans_le (List.length_take_le j parts))

/-- A text is restored one level down if the parts that it names are restored. -/
theorem restoreWithin_succ {depth : Nat}
    (each : ∀ source i part, .found source (some i) ∈ Text.scan (StandIn.read standIns) s →
      parts[i]? = some part → restoreWithin parts depth part = some (restore parts part)) :
    restoreWithin parts (depth + 1) s = some (restore parts s) := by
  refine mapM_pieces (fun _ => rfl) fun source index member => ?_
  cases index with
  | none => rfl
  | some i =>
    cases there : parts[i]? with
    | none =>
      have outside : (filledParts parts)[i]? = none := by
        rw [Array.getElem?_eq_none_iff, size_filledParts]
        exact List.getElem?_eq_none_iff.mp there
      simp [restorePiece, there, outside]
    | some part =>
      simp [restorePiece, there, each source i part member there,
        getElem?_filledParts_eq_restore nested there]

/-- Every text is restored if there is depth enough for the parts that it names. -/
theorem restoreWithin_eq_some {depth : Nat}
    (enough : ∀ source i, .found source (some i) ∈ Text.scan (StandIn.read standIns) s →
      i < parts.length → i < depth) :
    restoreWithin parts (depth + 1) s = some (restore parts s) := by
  induction depth generalizing s with
  | zero =>
    refine restoreWithin_succ nested fun source i part found there => ?_
    have inside := (List.getElem?_eq_some_iff.mp there).1
    exact absurd (enough source i found inside) (Nat.not_lt_zero i)
  | succ depth ih =>
    refine restoreWithin_succ nested fun source i part found there => ih ?_
    have inside := (List.getElem?_eq_some_iff.mp there).1
    have deep := enough source i found inside
    -- Within a part there are only stand-ins of parts before it, which are less deep.
    intro source' i' found' _
    obtain ⟨kind, _, names⟩ := (sealed_iff.mp (nested i part there)).has_of_found found'
    have before := names.lt_length
    rw [List.length_take] at before
    omega

end

end Stencil.Code
