import Stencil.Json.Parse
import Stencil.Proofs.Text.Whole

/-!
# Strings read back from JSON

A character of a string in JSON stands for itself or is written with a backslash, and what follows
the backslash is read as that character whatever comes behind it (`quotedChar_cases`).  So a quoted
text is read up to its closing quote (`readString?_quoted`), and an array of quoted texts is read as
the array of these texts (`parse?_array`).
-/

namespace Stencil.Json

variable {n depth : Nat} {s : Text} {ss : List Text}

/-- Four digits are read whatever follows them. -/
theorem fourHex?_append {t : Text} (h : fourHex? s = some (n, t)) (rest : Text) :
    fourHex? (s ++ rest) = some (n, t ++ rest) := by
  unfold fourHex? at h
  split at h
  · rename_i a b c d u
    split at h
    · rename_i hex
      obtain ⟨rfl, rfl⟩ := Prod.mk.inj (Option.some.inj h)
      exact if_pos hex
    · simp at h
  · simp at h

/-- A code point below the space comes back from its four digits. -/
theorem unicodeEscape?_fourDigits (small : n < 32) (rest : Text) :
    unicodeEscape? (fourDigits n ++ rest) = some (Char.ofNat n, rest) := by
  have digits : ∀ n < 32, fourHex? (fourDigits n) = some (n, []) := by decide
  rw [unicodeEscape?, fourHex?_append (digits n small) rest]
  simp
  omega

/-- How a character of a string is written. -/
theorem quotedChar_cases (c : Char) :
    (quotedChar c = [c] ∧ c ≠ '"' ∧ c ≠ '\\' ∧ 32 ≤ c.toNat) ∨
      ∃ x, quotedChar c = '\\' :: x ∧ '&' ∉ x ∧ ∀ rest, escape? (x ++ rest) = some (c, rest) := by
  unfold quotedChar
  split_ifs with quote backslash newline feed tab bell form low
  · exact .inr ⟨['"'], rfl, by decide, fun rest => by rw [quote]; rfl⟩
  · exact .inr ⟨['\\'], rfl, by decide, fun rest => by rw [backslash]; rfl⟩
  · exact .inr ⟨['n'], rfl, by decide, fun rest => by rw [newline]; rfl⟩
  · exact .inr ⟨['r'], rfl, by decide, fun rest => by rw [feed]; rfl⟩
  · exact .inr ⟨['t'], rfl, by decide, fun rest => by rw [tab]; rfl⟩
  · exact .inr ⟨['b'], rfl, by decide, fun rest => by rw [bell]; rfl⟩
  · exact .inr ⟨['f'], rfl, by decide, fun rest => by rw [form]; rfl⟩
  · have plain : ∀ n < 32, '&' ∉ 'u' :: fourDigits n := by decide
    refine .inr ⟨'u' :: fourDigits c.toNat, rfl, plain _ low, fun rest => ?_⟩
    have read := unicodeEscape?_fourDigits low rest
    rwa [Char.ofNat_toNat] at read
  · exact .inl ⟨rfl, quote, backslash, Nat.not_lt.mp low⟩

theorem length_le_quoted (s : Text) : s.length ≤ (s.flatMap quotedChar).length := by
  induction s with
  | nil => exact Nat.le_refl 0
  | cons c s ih =>
    have written : 1 ≤ (quotedChar c).length := by
      rcases quotedChar_cases c with ⟨same, -⟩ | ⟨x, same, -⟩ <;> simp [same]
    rw [List.flatMap_cons, List.length_append, List.length_cons]
    omega

/-- What is written of a text is read as that text if there are enough steps. -/
theorem stringEnd?_quoted {fuel : Nat} (enough : s.length < fuel) (rest : Text) :
    stringEnd? fuel (s.flatMap quotedChar ++ '"' :: rest) = some (s, rest) := by
  induction s generalizing fuel with
  | nil =>
    obtain ⟨fuel, rfl⟩ := Nat.exists_eq_add_of_lt enough
    simp [stringEnd?]
  | cons c s ih =>
    obtain ⟨fuel, rfl⟩ : ∃ m, fuel = m + 1 := ⟨fuel - 1, by omega⟩
    have fewer : s.length < fuel := by simpa using enough
    have later := ih fewer
    rcases quotedChar_cases c with ⟨same, quote, backslash, visible⟩ | ⟨x, same, -, escaped⟩
    · have printed : ¬c.toNat < 32 := Nat.not_lt.mpr visible
      simp [same, stringEnd?, quote, backslash, printed, later]
    · simp [same, stringEnd?, escaped, later]

theorem readString?_quoted (s rest : Text) :
    readString? (s.flatMap quotedChar ++ '"' :: rest) = some (s, rest) := by
  refine stringEnd?_quoted ?_ rest
  have short := length_le_quoted s
  rw [List.length_append, List.length_cons]
  omega

theorem readValue?_quoted (depth : Nat) (s rest : Text) :
    readValue? depth (quoted s ++ rest) = some (.string s, rest) := by
  have written : quoted s ++ rest = '"' :: (s.flatMap quotedChar ++ '"' :: rest) := by
    simp [quoted]
  rw [written]
  cases depth <;> simp [readValue?, readString?_quoted]

theorem skipGap_quoted (s rest : Text) : skipGap (quoted s ++ rest) = quoted s ++ rest :=
  List.dropWhile_cons_of_neg (by decide)

/-- The elements of an array are read one by one. -/
theorem elements?_quoted {fuel : Nat} (some : ss ≠ []) (enough : ss.length ≤ fuel) (rest : Text) :
    elements? (readValue? depth) fuel (Text.join [','] (ss.map quoted) ++ ']' :: rest) =
      .some (ss.map .string, rest) := by
  induction ss generalizing fuel with
  | nil => exact absurd rfl some
  | cons s ss ih =>
    obtain ⟨fuel, rfl⟩ : ∃ m, fuel = m + 1 := ⟨fuel - 1, by rw [List.length_cons] at enough; omega⟩
    cases ss with
    | nil =>
      have closed : skipGap (']' :: rest) = ']' :: rest := rfl
      rw [List.map_singleton, Text.join, List.intercalate_singleton, elements?, skipGap_quoted,
        readValue?_quoted]
      simp [closed]
    | cons next ss =>
      have fewer : (next :: ss).length ≤ fuel := by simpa using enough
      have later := ih (List.cons_ne_nil next ss) fewer
      have comma (x : Text) : skipGap (',' :: x) = ',' :: x := rfl
      rw [List.map_cons, List.map_cons, Text.join_cons_cons, List.append_assoc, List.append_assoc,
        elements?, skipGap_quoted, readValue?_quoted]
      rw [List.map_cons] at later
      simp [comma, later]

theorem exists_join_quoted (s : Text) (ss : List Text) :
    ∃ x, Text.join [','] ((s :: ss).map quoted) = quoted s ++ x := by
  cases ss with
  | nil => exact ⟨[], by simp [Text.join]⟩
  | cons next ss =>
    rw [List.map_cons, List.map_cons, Text.join_cons_cons, List.append_assoc]
    exact ⟨_, rfl⟩

/-- There are enough steps to read every string of an array, since each takes up a character. -/
theorem length_le_join (ss : List Text) :
    ss.length ≤ (Text.join [','] (ss.map quoted)).length := by
  induction ss with
  | nil => exact Nat.le_refl 0
  | cons s ss ih =>
    have some : 1 ≤ (quoted s).length := by simp [quoted]
    cases ss with
    | nil => simpa [Text.join] using some
    | cons next ss =>
      rw [List.map_cons] at ih
      rw [List.map_cons, List.map_cons, Text.join_cons_cons, List.length_append,
        List.length_append, List.length_cons]
      omega

/-- An array of strings is read back, string by string. -/
theorem readArray?_quoted (ss : List Text) (rest : Text) :
    readArray? (readValue? depth) (Text.join [','] (ss.map quoted) ++ ']' :: rest) =
      some (.array (ss.map .string), rest) := by
  cases ss with
  | nil => rfl
  | cons s ss =>
    have enough : (s :: ss).length ≤
        (Text.join [','] ((s :: ss).map quoted) ++ ']' :: rest).length := by
      rw [List.length_append]
      exact Nat.le_add_right_of_le (length_le_join (s :: ss))
    have read : elements? (readValue? depth) _ _ = _ :=
      elements?_quoted (List.cons_ne_nil s ss) enough rest
    obtain ⟨x, x_eq⟩ := exists_join_quoted s ss
    have gap : skipGap (Text.join [','] ((s :: ss).map quoted) ++ ']' :: rest) =
        Text.join [','] ((s :: ss).map quoted) ++ ']' :: rest := by
      rw [x_eq, List.append_assoc, skipGap_quoted]
    have unclosed (rest' : Text) :
        Text.join [','] ((s :: ss).map quoted) ++ ']' :: rest ≠ ']' :: rest' := by
      rw [x_eq]
      exact fun same => absurd (List.cons.inj same).1 (by decide)
    unfold readArray?
    rw [gap]
    split
    · next closed => exact absurd closed (unclosed _)
    · rw [read]
      rfl

/-- An array of quoted texts is read as the array of these texts. -/
theorem parse?_array (ss : List Text) :
    parse? (['['] ++ Text.join [','] (ss.map quoted) ++ [']']) =
      some (.array (ss.map .string)) := by
  have read : readValue? maxDepth ('[' :: (Text.join [','] (ss.map quoted) ++ [']'])) =
      some (.array (ss.map .string), []) := readArray?_quoted ss []
  have gap : skipGap ('[' :: (Text.join [','] (ss.map quoted) ++ [']'])) =
      '[' :: (Text.join [','] (ss.map quoted) ++ [']']) := rfl
  rw [List.append_assoc, List.singleton_append, parse?, gap, read]
  rfl

end Stencil.Json
