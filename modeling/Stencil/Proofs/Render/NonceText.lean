import Stencil.Proofs.Html.Element
import Stencil.Proofs.Text.Split
import Stencil.Proofs.Text.Whole
import Stencil.Render.Nonced

/-!
# A nonce in the text of an open tag

A nonce is put before the first closing bracket that stands outside quotes, behind what is kept of
the text before it (`Nonced.insert_of_unmarked`); white space and a slash at its end are dropped.
Nothing is put there if no such bracket is found, or if what looks like a nonce stands before it
(`Nonced.insert_of_leavesAlone`).
-/

namespace Stencil.Nonced

variable {nonce inside more rest raw s : Text} {k : TagKind}

/-- What stays of the text before a bracket when a nonce comes behind it. -/
def kept (raw : Text) : Text := (splitSlash (Text.trimEnd raw)).1

/-- What comes behind a nonce before the bracket. -/
def slash (raw : Text) : Text := (splitSlash (Text.trimEnd raw)).2

/-- A nonce as it is added. -/
def addition (nonce slash : Text) : Text :=
  mark ++ ['"'] ++ escapeAttr nonce ++ ['"'] ++ slash

/-- Only white space and slashes are dropped before a nonce. -/
theorem exists_kept (raw : Text) :
    ∃ dropped, raw = kept raw ++ dropped ∧ ∀ c ∈ dropped, isSpace c = true ∨ c = '/' := by
  obtain ⟨spaces, whole, all⟩ := Text.exists_dropEndWhile isSpace raw
  change raw = Text.trimEnd raw ++ spaces at whole
  unfold kept splitSlash
  split
  · next last =>
    obtain ⟨front, split⟩ := List.getLast?_eq_some_iff.mp last
    obtain ⟨spaces', whole', all'⟩ := Text.exists_dropEndWhile isSpace front
    refine ⟨spaces' ++ '/' :: spaces, ?_, ?_⟩
    · rw [split, List.dropLast_concat]
      calc raw = front ++ ['/'] ++ spaces := by rw [← split, ← whole]
        _ = Text.trimEnd front ++ spaces' ++ ['/'] ++ spaces := by rw [Text.trimEnd, ← whole']
        _ = _ := by simp
    · simp only [List.forall_mem_append, List.forall_mem_cons]
      exact ⟨fun c member => .inl (all' c member), by simp, fun c member => .inl (all c member)⟩
  · exact ⟨spaces, whole, fun c member => .inl (all c member)⟩

theorem slash_eq (raw : Text) : slash raw = [] ∨ slash raw = [' ', '/'] := by
  unfold slash splitSlash
  split
  · exact .inr rfl
  · exact .inl rfl

theorem isAsciiLetter_of_mem_name (k : TagKind) : ∀ c ∈ k.name, isAsciiLetter c = true := by
  cases k <;> decide

/-- Letters are passed on the way to a bracket outside quotes. -/
theorem splitBracket?_append {t : Text} (letters : ∀ c ∈ t, isAsciiLetter c = true) (s : Text) :
    splitBracket? .outside (t ++ s) =
      (splitBracket? .outside s).map fun (inside, more) => (t ++ inside, more) := by
  induction t with
  | nil => simp
  | cons c t ih =>
    obtain ⟨letter, letters⟩ := List.forall_mem_cons.mp letters
    have other (d : Char) (h : isAsciiLetter d = false) : c ≠ d := by
      rintro rfl
      simp [letter] at h
    have double := other '"' (by decide)
    have single := other '\'' (by decide)
    have bracket := other '>' (by decide)
    rw [List.cons_append, splitBracket?]
    simp [bracket, Place.next, double, single, ih letters, Function.comp_def]

/-- Splitting before a bracket loses nothing, and the bracket comes next. -/
theorem splitBracket?_eq_some {place : Place} (h : splitBracket? place s = some (inside, more)) :
    s = inside ++ more ∧ ∃ more', more = '>' :: more' := by
  induction s generalizing place inside with
  | nil => simp [splitBracket?] at h
  | cons c s ih =>
    rw [splitBracket?] at h
    split at h
    · next here =>
      obtain ⟨rfl, rfl⟩ := Prod.mk.inj (Option.some.inj h)
      exact ⟨rfl, s, by rw [here.2]⟩
    · obtain ⟨⟨_, _⟩, later, same⟩ := Option.map_eq_some_iff.mp h
      obtain ⟨rfl, rfl⟩ := Prod.mk.inj same
      obtain ⟨rfl, bracket⟩ := ih later
      exact ⟨rfl, bracket⟩

/-- The bracket outside quotes is the one of the tag, or it stands behind or before it. -/
theorem splitBracket?_cases
    (h : splitBracket? .outside (raw ++ '>' :: rest) = some (inside, more)) :
    inside = raw ∧ more = '>' :: rest ∨ (∃ x, inside = raw ++ '>' :: x) ∨
      ∃ x, raw = inside ++ '>' :: x := by
  obtain ⟨split, more', rfl⟩ := splitBracket?_eq_some h
  rcases Text.append_cons_eq_append_cons split with ⟨x, later, -⟩ | ⟨same, -, behind⟩ |
    ⟨x, earlier, -⟩
  · exact .inr (.inl ⟨x, later⟩)
  · exact .inl ⟨same.symm, behind ▸ rfl⟩
  · exact .inr (.inr ⟨x, earlier⟩)

theorem trimEnd_openTag (k : TagKind) (s : Text) :
    Text.trimEnd ('<' :: (k.name ++ s)) = '<' :: (k.name ++ Text.trimEnd s) := by
  have last : ∀ c ∈ ('<' :: k.name).getLast?, isSpace c = false := by cases k <;> decide
  exact Text.dropEndWhile_append last s

/-- The slash at the end of an open tag does not belong to its name. -/
theorem splitSlash_openTag (k : TagKind) (s : Text) :
    splitSlash ('<' :: (k.name ++ s)) =
      ('<' :: (k.name ++ (splitSlash s).1), (splitSlash s).2) := by
  rcases List.eq_nil_or_concat s with rfl | ⟨s, c, rfl⟩
  · cases k <;> rfl
  · have last : ('<' :: (k.name ++ (s ++ [c]))).getLast? = (s ++ [c]).getLast? := by
      rw [← List.append_assoc, ← List.cons_append, List.getLast?_concat, List.getLast?_concat]
    have front : ('<' :: (k.name ++ (s ++ [c]))).dropLast = '<' :: (k.name ++ s) := by
      rw [← List.append_assoc, ← List.cons_append, List.dropLast_concat]
    simp only [List.concat_eq_append]
    unfold splitSlash
    rw [last, front, List.dropLast_concat, trimEnd_openTag]
    split <;> rfl

/-- An existing nonce stands behind the name of a tag. -/
theorem hasNonce_openTag (k : TagKind) (s : Text) :
    hasNonce (Text.trimEnd ('<' :: (k.name ++ s))) ↔ mark <:+: Text.lower s := by
  rw [hasNonce, Text.splitAtFirst?_isSome_iff, trimEnd_openTag]
  obtain ⟨spaces, whole, all⟩ := Text.exists_dropEndWhile isSpace s
  change s = Text.trimEnd s ++ spaces at whole
  have split : Text.lower s = Text.lower (Text.trimEnd s) ++ Text.lower spaces := by
    rw [Text.lower, Text.lower, Text.lower, ← List.map_append, ← whole]
  have name : Text.lower ('<' :: (k.name ++ Text.trimEnd s)) =
      Text.lower ('<' :: k.name) ++ Text.lower (Text.trimEnd s) := by
    rw [Text.lower, ← List.cons_append, List.map_append, Text.lower, Text.lower]
  rw [name, split]
  constructor
  · intro marked
    have absent : ∀ c ∈ mark.head?, c ∉ Text.lower ('<' :: k.name) := by cases k <;> decide
    exact Text.infix_append_of_left (Text.infix_right marked absent) _
  · intro marked
    refine Text.infix_append_of_right _ (Text.infix_left marked ?_)
    rintro c last lowered
    obtain rfl : '=' = c := Option.some.inj last
    obtain ⟨d, member, lower⟩ := List.mem_map.mp lowered
    obtain rfl := eq_of_toLower_eq lower (by decide)
    exact absurd (all _ member) (by decide)

/-- Whether a nonce is not added because no bracket is found outside quotes, or because what looks
like a nonce stands before it. -/
def LeavesAlone (s : Text) : Prop :=
  ∀ inside more, splitBracket? .outside s = some (inside, more) → mark <:+: Text.lower inside

theorem insert_of_leavesAlone (alone : LeavesAlone s) :
    insert nonce ('<' :: (k.name ++ s)) = '<' :: (k.name ++ s) := by
  rw [insert, splitBracket?_append (isAsciiLetter_of_mem_name k)]
  cases found : splitBracket? .outside s with
  | none => rfl
  | some split =>
    have marked := (hasNonce_openTag k split.1).mpr (alone split.1 split.2 found)
    simp [marked]

theorem insert_of_unmarked (found : splitBracket? .outside s = some (inside, more))
    (unmarked : ¬mark <:+: Text.lower inside) :
    insert nonce ('<' :: (k.name ++ s)) =
      '<' :: (k.name ++ (kept inside ++ addition nonce (slash inside) ++ more)) := by
  have none : hasNonce (Text.trimEnd ('<' :: (k.name ++ inside))) = false :=
    Bool.eq_false_iff.mpr fun has => unmarked ((hasNonce_openTag k inside).mp has)
  rw [insert, splitBracket?_append (isAsciiLetter_of_mem_name k), found]
  simp only [Option.map_some, none, Bool.false_eq_true, if_false]
  rw [trimEnd_openTag, splitSlash_openTag]
  simp [kept, slash, addition]

end Stencil.Nonced
