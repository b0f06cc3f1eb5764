import Stencil.Proofs.Text.Local
import Stencil.Render.Reinsert

/-!
# The tokens that bring elements back

What the two readers of reinsertion take for a token, letter by letter.  Both readers are local, and
the placeholder that an element leaves behind is a token of its kind and number wherever it stands.
-/

namespace Stencil

namespace Text

theorem isDigit_of_mem_ofNat {n : Nat} {c : Char} (h : c ∈ ofNat n) : isDigit c := by
  have := Nat.isDigit_of_mem_toDigits (by decide) (by decide) h
  simpa [isDigit, Char.isDigit, Char.le_def] using this

theorem digitsValue_ofNat (n : Nat) : digitsValue (ofNat n) = n := by
  have := @Nat.ofDigitChars_ten_toDigits n
  rw [Nat.ofDigitChars_eq_foldl] at this
  exact this

/-- A number is read back from its digits if it is within the bounds of an index. -/
theorem index?_ofNat_eq (n : Nat) :
    index? (ofNat n) = if n ≤ maxIndex then some n else none := by
  have digits : (ofNat n).all isDigit = true :=
    List.all_eq_true.mpr fun _ member => isDigit_of_mem_ofNat member
  have nonempty : (ofNat n).isEmpty = false := by
    simp [ofNat, Nat.toDigits_ne_nil]
  simp [index?, digits, nonempty, digitsValue_ofNat]

theorem index?_ofNat {n : Nat} (fits : n ≤ maxIndex) : index? (ofNat n) = some n := by
  rw [index?_ofNat_eq, if_pos fits]

end Text

namespace TagKind

/-- No kind's name begins the name of another: their first two letters differ. -/
theorem eq_of_name_append {j k : TagKind} {s t : Text} (h : j.name ++ s = k.name ++ t) : j = k := by
  have long (k : TagKind) : 2 ≤ k.name.length := by cases k <;> decide
  have letters := congrArg (List.take 2) h
  rw [List.take_append_of_le_length (long j), List.take_append_of_le_length (long k)] at letters
  revert letters
  cases j <;> cases k <;> decide

@[simp] theorem ofName?_name (k : TagKind) : ofName? k.name = some k := by
  cases k <;> decide

theorem readName?_eq_some {s written rest : Text} (h : readName? s = some (written, rest)) :
    ∃ k : TagKind, written.map foldLetter = k.name ∧ s = written ++ rest := by
  obtain ⟨k, _, h⟩ := List.exists_of_findSome?_eq_some h
  obtain ⟨rest', after, same⟩ := Option.map_eq_some_iff.mp h
  obtain ⟨found, folded, rfl⟩ := Text.afterFolded?_eq_some after
  have length : found.length = k.name.length := by rw [← folded, List.length_map]
  obtain ⟨rfl, rfl⟩ := Prod.mk.inj same
  rw [List.take_left' length]
  exact ⟨k, folded, rfl⟩

/-- A kind's name is read in letters of either case, whatever follows it. -/
theorem readName?_append {k : TagKind} {written : Text} (h : written.map foldLetter = k.name)
    (rest : Text) : readName? (written ++ rest) = some (written, rest) := by
  cases found : readName? (written ++ rest) with
  | none =>
    have nothing := List.findSome?_eq_none_iff.mp found k (mem_all k)
    simp [Text.afterFolded?_append rest h] at nothing
  | some answer =>
    obtain ⟨written', rest'⟩ := answer
    obtain ⟨j, folded, split⟩ := readName?_eq_some found
    have names := congrArg (List.map foldLetter) split
    rw [List.map_append, List.map_append, h, folded] at names
    obtain rfl := eq_of_name_append names
    have length : written.length = written'.length := by
      simpa using congrArg List.length (h.trans folded.symm)
    obtain ⟨rfl, rfl⟩ := List.append_inj split length
    rfl

theorem notMem_written {k : TagKind} {written : Text} {c : Char}
    (h : written.map foldLetter = k.name) (other : foldLetter c ∉ k.name) : c ∉ written :=
  fun member => other (h ▸ List.mem_map_of_mem member)

theorem bracket_notMem_written {k : TagKind} {written : Text}
    (h : written.map foldLetter = k.name) : '<' ∉ written :=
  notMem_written h (by cases k <;> decide)

end TagKind

namespace Positional

/-- A token of a single element as it is written. -/
def token (written digits : Text) : Text := ['<', '@'] ++ written ++ [':'] ++ digits ++ ['>']

/-- The token of an element is read wherever it stands. -/
theorem read_token {k : TagKind} {written digits : Text} (named : written.map foldLetter = k.name)
    (nonempty : digits ≠ []) (all : ∀ c ∈ digits, isDigit c) (before : Option Char) (w : Text) :
    read before (token written digits ++ w) =
      some ((TagKind.ofName? written).bind fun k => (Text.index? digits).map (k, ·), w) := by
  have run : (digits ++ '>' :: w).takeWhile isDigit = digits := by
    rw [List.takeWhile_append_of_pos all]
    simp [isDigit]
  have behind : (digits ++ '>' :: w).dropWhile isDigit = '>' :: w := by
    rw [List.dropWhile_append_of_pos all]
    simp [isDigit]
  have opening : Text.after? ['<', '@'] (token written digits ++ w) =
      some (written ++ ([':'] ++ (digits ++ '>' :: w))) := by simp [token, Text.after?]
  have some_digit : digits.isEmpty = false := by simpa using nonempty
  have close : Text.after? ['>'] ('>' :: w) = some w := Text.after?_append ['>'] w
  simp only [read, opening, TagKind.readName?_append named, Text.after?_append, run, behind, close,
    some_digit, Option.bind_eq_bind, Option.bind_some, Bool.false_eq_true, if_false]
  rfl

theorem read_eq_some {before : Option Char} {s rest : Text} {value : Option (TagKind × Nat)}
    (h : read before s = some (value, rest)) :
    ∃ (k : TagKind) (written digits : Text), written.map foldLetter = k.name ∧ digits ≠ [] ∧
      (∀ c ∈ digits, isDigit c) ∧ s = token written digits ++ rest := by
  simp only [read, Option.bind_eq_bind, Option.bind_eq_some_iff] at h
  obtain ⟨s₁, opening, ⟨written, s₂⟩, name, s₃, colon, h⟩ := h
  obtain ⟨k, named, rfl⟩ := TagKind.readName?_eq_some name
  obtain rfl := Text.after?_eq_some opening
  by_cases empty : (s₃.takeWhile isDigit).isEmpty
  · simp [empty] at h
  · rw [if_neg empty] at h
    obtain ⟨rest', close, same⟩ := Option.bind_eq_some_iff.mp h
    obtain ⟨_, rfl⟩ := Prod.mk.inj (Option.some.inj same)
    refine ⟨k, written, s₃.takeWhile isDigit, named, by simpa using empty,
      fun c member => List.all_eq_true.mp List.all_takeWhile c member, ?_⟩
    have digits : s₃ = s₃.takeWhile isDigit ++ (['>'] ++ rest') := by
      rw [← Text.after?_eq_some close, List.takeWhile_append_dropWhile]
    have colon := Text.after?_eq_some colon
    dsimp only at colon
    rw [colon, token]
    simp only [List.append_assoc, List.append_cancel_left_eq]
    exact digits

theorem read_cons_of_ne {c : Char} (h : c ≠ '<') (before : Option Char) (s : Text) :
    read before (c :: s) = none := by
  simp [read, Text.after?, h.symm]

theorem isLocal : Reader.Local read := by
  intro before s value rest h
  obtain ⟨k, written, digits, named, nonempty, all, rfl⟩ := read_eq_some h
  refine ⟨token written digits, rfl, by simp [token], ?_, ?_⟩
  · have digits_clear : '<' ∉ digits := fun member => absurd (all _ member) (by decide)
    simp [token, TagKind.bracket_notMem_written named, digits_clear]
  · intro before' more
    rw [read_token named nonempty all]
    rfl

/-- What an element leaves behind is read as its kind and number. -/
theorem isToken_placeholder {k : TagKind} {n : Nat} (fits : n ≤ Text.maxIndex) :
    Text.IsToken read (k.placeholder n, some (k, n)) := by
  have same : k.placeholder n = token k.name (Text.ofNat n) := by
    simp [TagKind.placeholder, token]
  have named : k.name.map foldLetter = k.name := by cases k <;> decide
  refine ⟨⟨_, same⟩, ?_⟩
  intro before w
  have nonempty : Text.ofNat n ≠ [] := Nat.toDigits_ne_nil
  have found := read_token named nonempty (fun _ => Text.isDigit_of_mem_ofNat) before w
  rw [same]
  simpa [Text.index?_ofNat fits] using found

end Positional

namespace Wildcard

theorem dropBrace_eq (brace : Char) (s : Text) :
    s = dropBrace brace s ∨ s = [brace] ++ dropBrace brace s := by
  unfold dropBrace
  cases after : Text.after? [brace] s with
  | none => exact .inl rfl
  | some rest => exact .inr (Text.after?_eq_some after)

/-- A wildcard as it is written, between two or three braces. -/
def token (extra written : Text) : Text :=
  ['\x7b', '\x7b'] ++ extra ++ ['-'] ++ written ++ ['\x7d', '\x7d']

/-- A wildcard is read wherever it stands, with the brace of a third that follows it. -/
theorem read_token {k : TagKind} {extra written : Text} (named : written.map foldLetter = k.name)
    (braces : extra = [] ∨ extra = ['\x7b']) (before : Option Char) (w : Text) :
    read before (token extra written ++ w) =
      some (TagKind.ofName? written, dropBrace '\x7d' w) := by
  have name := TagKind.readName?_append named ('\x7d' :: '\x7d' :: w)
  rcases braces with rfl | rfl
  · simp [read, token, Text.after?, dropBrace, name]
  · simp [read, token, Text.after?, dropBrace, name]

theorem read_eq_some {before : Option Char} {s rest : Text} {value : Option TagKind}
    (h : read before s = some (value, rest)) :
    ∃ (k : TagKind) (extra written w : Text), written.map foldLetter = k.name ∧
      (extra = [] ∨ extra = ['\x7b']) ∧ s = token extra written ++ w ∧
      rest = dropBrace '\x7d' w := by
  simp only [read, Option.bind_eq_bind, Option.bind_eq_some_iff] at h
  obtain ⟨s₁, opening, s₂, dash, ⟨written, s₃⟩, name, w, closing, same⟩ := h
  obtain ⟨k, named, rfl⟩ := TagKind.readName?_eq_some name
  obtain rfl := Text.after?_eq_some opening
  obtain rfl := Text.after?_eq_some closing
  have dash := Text.after?_eq_some dash
  obtain ⟨_, rfl⟩ := Prod.mk.inj (Option.some.inj same)
  rcases dropBrace_eq '\x7b' s₁ with two | three
  · refine ⟨k, [], written, w, named, .inl rfl, ?_, rfl⟩
    rw [two, dash]
    simp [token]
  · refine ⟨k, ['\x7b'], written, w, named, .inr rfl, ?_, rfl⟩
    rw [three, dash]
    simp [token]

theorem isLocal : Reader.Local read := by
  intro before s value rest h
  obtain ⟨k, extra, written, w, named, braces, rfl, rfl⟩ := read_eq_some h
  have again (before' : Option Char) (more : Text) :
      (read before' (token extra written ++ more)).isSome := by
    rw [read_token named braces]
    rfl
  have clear : '<' ∉ (token extra written).tail := by
    rcases braces with rfl | rfl
    · simp [token, TagKind.bracket_notMem_written named]
    · simp [token, TagKind.bracket_notMem_written named]
  have nonempty : token extra written ≠ [] := by simp [token]
  rcases dropBrace_eq '\x7d' w with two | three
  · exact ⟨token extra written, by rw [← two], nonempty, clear, again⟩
  · refine ⟨token extra written ++ ['\x7d'], ?_, by simp [token], ?_, ?_⟩
    · rw [List.append_assoc, ← three]
    · rw [List.tail_append_of_ne_nil nonempty]
      simp [clear]
    · intro before' more
      rw [List.append_assoc]
      exact again before' _

theorem read_cons_of_ne {c : Char} (h : c ≠ '\x7b') (before : Option Char) (s : Text) :
    read before (c :: s) = none := by
  simp [read, Text.after?, h.symm]

end Wildcard

end Stencil
