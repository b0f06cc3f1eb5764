import Mathlib.Algebra.Group.Nat.Even
import Stencil.Html.EntityCode
import Stencil.Proofs.Html.Element
import Stencil.Proofs.Text.Local

/-!
# Entity codes expanded twice

A text is cut into codes, references by number, ampersands that are left and other characters
(`code_induction`).  What is written for a code is passed over when it is read again
(`expand_reference`), a reference by number stays one, and so a second expansion can only find
something at an ampersand that was left.  Nothing is found there either, unless the sign behind the
ampersand is the first of a pair and the second one has come up to it: the codes in between had no
entry and are gone.

That is the only way to lose the law (`expand_expand_iff`).
-/

namespace Stencil.EntityCode

variable {s t rest w code : Text} {c d : Char} {value : Option Text}

/-- The codes of two signs whose first sign is no code on its own. -/
def splitPairs : List Text := ["+-", "^/", "!="]

/-- The codes without an entry in letters of either case. -/
def bareEmptyCodes : List Text := ["&#d", "&#D", "&#\u017f", "&$c", "&$C"]

/-- The codes without an entry, as they may be written. -/
def emptyCodes : List Text := bareEmptyCodes ++ bareEmptyCodes.map (· ++ [';'])

def ampersands (s : Text) : Nat := (s.reverse.takeWhile (· == '&')).length

/-- Whether a text begins with a code of two signs that are parted by codes without an entry. -/
def BeginsParted (s : Text) : Prop :=
  ∃ c codes d t, s = '&' :: c :: (codes.flatten ++ d :: t) ∧ [c, d] ∈ splitPairs ∧ codes ≠ [] ∧
    ∀ w ∈ codes, w ∈ emptyCodes

/-- Whether a text has a code of two signs that are parted by codes without an entry.  The ampersand
of such a code is not the second of two, since these are a code themselves. -/
def HasParted (s : Text) : Prop :=
  ∃ u v, s = u ++ v ∧ Even (ampersands u) ∧ BeginsParted v

section Reading

theorem read_of_ne (other : c ≠ '&') (before : Option Char) (s : Text) :
    read before (c :: s) = none := by
  unfold read
  split <;> simp_all

theorem read_ampersand (plain : ∀ c ∈ s.head?, c ≠ ';') (before : Option Char) :
    read before ('&' :: s) = (code? s).map fun (code, rest) =>
      if code = ['#'] ∧ startsNumber rest then (none, rest)
      else (some (entity code), dropSemicolon rest) := by
  cases s with
  | nil => rfl
  | cons c s =>
    have other : c ≠ ';' := plain c rfl
    rw [read]
    simpa using other

/-- The character before an ampersand does not matter. -/
theorem read_before (before before' : Option Char) (s : Text) :
    read before s = read before' s := by
  cases s with
  | nil => rfl
  | cons c s =>
    by_cases amp : c = '&'
    · subst amp
      cases s with
      | nil => rfl
      | cons d s =>
        by_cases semi : d = ';'
        · subst semi
          rfl
        · rw [read_ampersand (by simpa using semi), read_ampersand (by simpa using semi)]
    · rw [read_of_ne amp, read_of_ne amp]

theorem dropSemicolon_of_plain (plain : ∀ c ∈ s.head?, c ≠ ';') : dropSemicolon s = s := by
  cases s with
  | nil => rfl
  | cons c s =>
    unfold dropSemicolon
    split
    · next same => exact absurd (List.cons.inj same).1 (plain c rfl)
    · rfl

/-- The shapes of a code. -/
theorem code?_eq_some (h : code? s = some (code, rest)) :
    (∃ c ∈ singles, s = c :: rest ∧ code = [c]) ∨ (code ∈ pairs ∧ s = code ++ rest) ∨
      (∃ d, d.toLower ∈ hashLetters ∧ s = '#' :: d :: rest ∧ code = ['#', d.toLower]) ∨
      ∃ d, d.toLower ∈ dollarLetters ∧ s = '$' :: d :: rest ∧ code = ['$', d.toLower] := by
  unfold code? at h
  split at h
  · simp at h
  · rename_i c
    split at h <;> simp at h
    rename_i single
    exact .inl ⟨c, single, by simp [h.2], h.1.symm⟩
  · rename_i c d s
    split at h
    · rename_i pair
      obtain ⟨rfl, rfl⟩ := Prod.mk.inj (Option.some.inj h)
      exact .inr (.inl ⟨pair, rfl⟩)
    split at h
    · rename_i hash
      obtain ⟨rfl, rfl⟩ := Prod.mk.inj (Option.some.inj h)
      exact .inr (.inr (.inl ⟨d, hash.2, by rw [hash.1], by rw [hash.1]⟩))
    split at h
    · rename_i dollar
      obtain ⟨rfl, rfl⟩ := Prod.mk.inj (Option.some.inj h)
      exact .inr (.inr (.inr ⟨d, dollar.2, by rw [dollar.1], by rw [dollar.1]⟩))
    split at h
    · rename_i single
      obtain ⟨rfl, rfl⟩ := Prod.mk.inj (Option.some.inj h)
      exact .inl ⟨c, single, rfl, rfl⟩
    · simp at h

theorem code?_ne_none (single : c ∈ singles) (s : Text) : code? (c :: s) ≠ none := by
  cases s with
  | nil => simp [code?, single]
  | cons d s =>
    rw [code?]
    split_ifs <;> simp

/-- A sign that is no code on its own begins a code of two signs only. -/
theorem code?_of_notMem_singles (none : c ∉ singles) (d : Char) (t : Text) :
    code? (c :: d :: t) = if [c, d] ∈ splitPairs then some ([c, d], t) else .none := by
  have other : c ≠ '#' ∧ c ≠ '$' ∧ c ≠ '?' ∧ c ≠ '<' ∧ c ≠ '>' := by
    simp only [singles, List.mem_cons, List.not_mem_nil, or_false, not_or] at none
    tauto
  have split : [c, d] ∈ pairs ↔ [c, d] ∈ splitPairs := by
    simp [pairs, splitPairs, other]
  simp [code?, none, other, split]

theorem code?_of_letter (letter : isAsciiLetter c = true) (s : Text) : code? (c :: s) = none := by
  have signs : ∀ d ∈ singles ++ ['+', '^', '!'], isAsciiLetter d = false := by decide
  have apart : ∀ d ∈ singles ++ ['+', '^', '!'], c ≠ d := fun d member same =>
    absurd (same ▸ letter) (by simp [signs d member])
  have single : c ∉ singles := fun member => apart c (List.mem_append_left _ member) rfl
  cases s with
  | nil => simp [code?, single]
  | cons d s =>
    rw [code?_of_notMem_singles single, if_neg]
    simp [splitPairs, apart]

theorem startsNumber_iff : startsNumber s = true ↔
    (∃ c t, s = c :: t ∧ isDigit c = true) ∨
      ∃ c d t, s = c :: d :: t ∧ (c = 'x' ∨ c = 'X') ∧ isHexDigit d = true := by
  match s with
  | [] => simp [startsNumber]
  | [c] => simp [startsNumber]
  | c :: d :: t => simp [startsNumber]

/-- Before a number the hash sign is a code by itself. -/
theorem code?_of_number (number : startsNumber s = true) : code? ('#' :: s) = some (['#'], s) := by
  have first : ∃ c t, s = c :: t ∧ c.toLower ∉ hashLetters := by
    rcases startsNumber_iff.mp number with ⟨c, t, rfl, digit⟩ | ⟨c, d, t, rfl, rfl | rfl, -⟩
    · refine ⟨c, t, rfl, fun member => ?_⟩
      have letters : ∀ l ∈ hashLetters, isDigit l = false := by decide
      rcases toNat_of_toLower_eq (d := c.toLower) rfl with same | ⟨-, large, -⟩
      · exact absurd (same ▸ digit) (by simp [letters _ member])
      · have small : c.toNat ≤ 57 := by
          simp only [isDigit, Bool.and_eq_true, decide_eq_true_eq] at digit
          exact digit.2
        omega
    · exact ⟨'x', d :: t, rfl, by decide⟩
    · exact ⟨'X', d :: t, rfl, by decide⟩
  obtain ⟨c, t, rfl, other⟩ := first
  have pair : ['#', c] ∉ pairs := by simp [pairs]
  have single : '#' ∈ singles := by decide
  simp [code?, pair, other, single]

theorem read_number (number : startsNumber s = true) :
    read none ('&' :: '#' :: s) = some (none, s) := by
  rw [read_ampersand (by simp), code?_of_number number]
  simp [number]

end Reading

section Pieces

/-- A code as it is written: the only ampersand in it is the first one, unless the code is a second
one. -/
def IsCode (w : Text) : Prop :=
  ∃ x, w = '&' :: x ∧ x ≠ [] ∧ ('&' ∉ x ∨ ∃ y, x = '&' :: y ∧ '&' ∉ y)

/-- Whether a text is a reference by name or by number. -/
def isReference : Text → Bool
  | '&' :: c :: d :: name => (isAsciiLetter c || c == '#' && isDigit d) && decide ('&' ∉ d :: name)
  | _ => false

theorem isReference_entity (some : entity code ≠ []) : isReference (entity code) = true := by
  have references : ∀ entry ∈ table, isReference entry.2 = true := by decide
  unfold entity at some ⊢
  cases found : table.lookup code with
  | none => simp [found] at some
  | some e =>
    obtain ⟨before, after, split, -⟩ := List.lookup_eq_some_iff.mp found
    exact references (code, e) (split ▸ by simp)

/-- The text that a code takes up. -/
theorem exists_of_code? (h : code? s = some (code, rest)) :
    ∃ x, s = x ++ rest ∧ x ≠ [] ∧ ('&' ∉ x ∨ x = ['&']) ∧
      (entity code = [] → '&' :: x ∈ bareEmptyCodes) := by
  rcases code?_eq_some h with ⟨c, single, rfl, rfl⟩ | ⟨pair, rfl⟩ | ⟨d, hash, rfl, rfl⟩ |
    ⟨d, dollar, rfl, rfl⟩
  · have entries : ∀ c ∈ singles, entity [c] ≠ [] := by decide
    refine ⟨[c], rfl, by simp, ?_, fun none => absurd none (entries c single)⟩
    by_cases amp : c = '&'
    · exact .inr (by rw [amp])
    · exact .inl (by simp [Ne.symm amp])
  · have entries : ∀ code ∈ pairs, entity code ≠ [] ∧ code ≠ [] ∧ '&' ∉ code := by decide
    obtain ⟨some, nonempty, plain⟩ := entries code pair
    exact ⟨code, rfl, nonempty, .inl plain, fun none => absurd none some⟩
  · have entries : ∀ l ∈ hashLetters, entity ['#', l] = [] → l = 'd' ∨ l = '\u017f' := by decide
    refine ⟨['#', d], rfl, by simp, .inl ?_, fun none => ?_⟩
    · have other : d ≠ '&' := by
        rintro rfl
        exact absurd hash (by decide)
      simp [Ne.symm other]
    · rcases entries _ hash none with low | long
      · rcases toNat_of_toLower_eq low with rfl | ⟨up, -⟩
        · decide
        · obtain rfl : d = 'D' := Char.toNat_inj.mp (Nat.add_right_cancel up)
          decide
      · obtain rfl := eq_of_toLower_eq long (by decide)
        decide
  · have entries : ∀ l ∈ dollarLetters, entity ['$', l] = [] → l = 'c' := by decide
    refine ⟨['$', d], rfl, by simp, .inl ?_, fun none => ?_⟩
    · have other : d ≠ '&' := by
        rintro rfl
        exact absurd dollar (by decide)
      simp [Ne.symm other]
    · rcases toNat_of_toLower_eq (entries _ dollar none) with rfl | ⟨up, -⟩
      · decide
      · obtain rfl : d = 'C' := Char.toNat_inj.mp (Nat.add_right_cancel up)
        decide

theorem exists_dropSemicolon (s : Text) :
    ∃ semi : Text, (semi = [] ∨ semi = [';']) ∧ s = semi ++ dropSemicolon s := by
  unfold dropSemicolon
  split
  · exact ⟨[';'], .inr rfl, rfl⟩
  · exact ⟨[], .inl rfl, rfl⟩

/-- What is read at an ampersand: a reference by number, a code with an entry, or one without. -/
theorem read_eq_some (h : read none ('&' :: s) = some (value, rest)) :
    ∃ w, '&' :: s = w ++ rest ∧ IsCode w ∧
      (value = none ∧ w = "&#" ∧ startsNumber rest = true ∨
        (∃ e, value = some e ∧ isReference e = true) ∨ value = some [] ∧ w ∈ emptyCodes) := by
  by_cases plain : ∀ c ∈ s.head?, c ≠ ';'
  · rw [read_ampersand plain, Option.map_eq_some_iff] at h
    obtain ⟨⟨code, behind⟩, found, written⟩ := h
    obtain ⟨x, rfl, nonempty, ampersand, empty⟩ := exists_of_code? found
    dsimp only at written
    split at written
    · rename_i number
      obtain ⟨rfl, rfl⟩ := Prod.mk.inj written
      rcases code?_eq_some found with ⟨c, -, split, rfl⟩ | ⟨pair, -⟩ | ⟨d, -, -, same⟩ |
        ⟨d, -, -, same⟩
      · obtain rfl : x = [c] := List.append_cancel_right (split.trans rfl)
        rw [number.1]
        exact ⟨"&#", rfl, ⟨['#'], rfl, by simp, .inl (by decide)⟩, .inl ⟨rfl, rfl, number.2⟩⟩
      · rw [number.1] at pair
        exact absurd pair (by decide)
      · simp [number.1] at same
      · simp [number.1] at same
    · obtain ⟨rfl, rfl⟩ := Prod.mk.inj written
      obtain ⟨semi, shape, split⟩ := exists_dropSemicolon behind
      refine ⟨'&' :: (x ++ semi), ?_, ⟨x ++ semi, rfl, by simp [nonempty], ?_⟩, .inr ?_⟩
      · conv_lhs => rw [split]
        simp
      · have clean : '&' ∉ semi := by rcases shape with rfl | rfl <;> decide
        rcases ampersand with absent | rfl
        · exact .inl (by simp [absent, clean])
        · exact .inr ⟨semi, rfl, clean⟩
      · by_cases some : entity code = []
        · refine .inr ⟨by rw [some], ?_⟩
          rcases shape with rfl | rfl
          · exact List.mem_append_left _ (by simpa using empty some)
          · exact List.mem_append_right _ (List.mem_map.mpr ⟨_, empty some, rfl⟩)
        · exact .inl ⟨_, rfl, isReference_entity some⟩
  · obtain ⟨t, rfl⟩ : ∃ t, s = ';' :: t := by
      cases s with
      | nil => simp at plain
      | cons c t => exact ⟨t, by simpa using plain⟩
    obtain ⟨rfl, rfl⟩ := Prod.mk.inj (Option.some.inj h)
    exact ⟨"&;", rfl, ⟨[';'], rfl, by simp, .inl (by decide)⟩, .inr (.inl ⟨_, rfl, by decide⟩)⟩

/-- A code without an entry is read and gives nothing. -/
theorem read_of_mem_emptyCodes (member : w ∈ emptyCodes) (plain : ∀ c ∈ t.head?, c ≠ ';') :
    read none (w ++ t) = some (some [], t) := by
  have bare : ∀ w ∈ bareEmptyCodes, ∀ t, (∀ c ∈ t.head?, c ≠ ';') →
      read none (w ++ t) = some (some [], t) ∧ read none (w ++ ';' :: t) = some (some [], t) := by
    intro w member t plain
    have kept := dropSemicolon_of_plain plain
    simp only [bareEmptyCodes, List.mem_cons, List.not_mem_nil, or_false] at member
    rcases member with rfl | rfl | rfl | rfl | rfl
    all_goals exact ⟨congrArg (fun u => some (some [], u)) kept, rfl⟩
  rcases List.mem_append.mp member with member | ended
  · exact (bare w member t plain).1
  · obtain ⟨v, inside, rfl⟩ := List.mem_map.mp ended
    rw [List.append_assoc]
    exact (bare v inside t plain).2

/-- A text is cut into codes, references by number, ampersands that are left and other
characters. -/
theorem code_induction {motive : Text → Prop} (nil : motive [])
    (char : ∀ c s, c ≠ '&' → motive s → motive (c :: s))
    (lone : ∀ s, read none ('&' :: s) = none → motive s → motive ('&' :: s))
    (number : ∀ s, startsNumber s = true → motive s → motive ('&' :: '#' :: s))
    (code : ∀ w e s, IsCode w → isReference e = true ∨ e = [] ∧ w ∈ emptyCodes →
      read none (w ++ s) = some (some e, s) → motive s → motive (w ++ s)) (s : Text) :
    motive s := by
  -- The rest behind a code is shorter by the code, so the induction is on the length.
  induction length : s.length using Nat.strong_induction_on generalizing s with
  | _ n ih =>
    subst length
    cases s with
    | nil => exact nil
    | cons c s =>
      by_cases amp : c = '&'
      · subst amp
        cases found : read none ('&' :: s) with
        | none => exact lone s found (ih s.length (Nat.lt_succ_self _) s rfl)
        | some answer =>
          obtain ⟨value, rest⟩ := answer
          obtain ⟨w, split, isCode, reads⟩ := read_eq_some found
          have smaller : rest.length < ('&' :: s).length := by
            obtain ⟨x, rfl, -⟩ := isCode
            rw [split, List.length_append, List.length_cons]
            omega
          have later := ih rest.length smaller rest rfl
          rw [split] at found ⊢
          rcases reads with ⟨-, rfl, starts⟩ | ⟨e, rfl, reference⟩ | ⟨rfl, empty⟩
          · exact number rest starts later
          · exact code w e rest isCode (.inl reference) found later
          · exact code w [] rest isCode (.inr ⟨rfl, empty⟩) found later
      · exact char c s amp (ih s.length (Nat.lt_succ_self _) s rfl)

end Pieces

section Expand

theorem expand_cons (nothing : read none (c :: s) = none) : expand (c :: s) = c :: expand s := by
  have rest := Text.scanFrom_before read_before (some c) none 0 s
  rw [expand, Text.substitute, Text.scan, Text.scanFrom, nothing]
  dsimp only
  rw [rest]
  rfl

theorem expand_append (nonempty : w ≠ []) (found : read none (w ++ s) = some (value, s)) :
    expand (w ++ s) = value.getD w ++ expand s := by
  obtain ⟨before, scanned⟩ := Text.scanFrom_found read nonempty found
  rw [expand, Text.substitute, Text.scan, scanned, Text.scanFrom_before read_before before none]
  rfl

theorem expand_append_of_notMem (absent : '&' ∉ w) (s : Text) :
    expand (w ++ s) = w ++ expand s := by
  induction w with
  | nil => rfl
  | cons c w ih =>
    obtain ⟨other, absent⟩ := not_or.mp (List.mem_cons.not.mp absent)
    rw [List.cons_append, expand_cons (read_of_ne (Ne.symm other) none _), ih absent,
      List.cons_append]

theorem expand_number (number : startsNumber s = true) :
    expand ('&' :: '#' :: s) = '&' :: '#' :: expand s :=
  expand_append (List.cons_ne_nil '&' ['#']) (read_number number)

theorem startsNumber_expand (number : startsNumber s = true) : startsNumber (expand s) = true := by
  have digits : isHexDigit '&' = false ∧ isDigit '&' = false := by decide
  rcases startsNumber_iff.mp number with ⟨c, t, rfl, digit⟩ | ⟨c, d, t, rfl, letter, digit⟩
  · have other : c ≠ '&' := fun same => by simp [same, digits] at digit
    rw [expand_cons (read_of_ne other none t)]
    exact startsNumber_iff.mpr (.inl ⟨c, _, rfl, digit⟩)
  · have other : d ≠ '&' := fun same => by simp [same, digits] at digit
    have other' : c ≠ '&' := by rintro rfl; simp at letter
    rw [expand_cons (read_of_ne other' none _), expand_cons (read_of_ne other none t)]
    exact startsNumber_iff.mpr (.inr ⟨c, d, _, rfl, letter, digit⟩)

/-- What is written for a code is passed over. -/
theorem expand_reference {e : Text} (reference : isReference e = true) (s : Text) :
    expand (e ++ s) = e ++ expand s := by
  unfold isReference at reference
  split at reference
  · rename_i c d name
    simp only [Bool.and_eq_true, Bool.or_eq_true, beq_iff_eq, decide_eq_true_eq] at reference
    obtain ⟨kind, absent⟩ := reference
    rcases kind with letter | ⟨rfl, digit⟩
    · have plain : ∀ x ∈ (c :: (d :: name ++ s)).head?, x ≠ ';' := by
        rintro x ⟨⟩ rfl
        exact absurd letter (by decide)
      have other : c ≠ '&' := by
        rintro rfl
        exact absurd letter (by decide)
      have passed : read none ('&' :: (c :: (d :: name ++ s))) = none := by
        rw [read_ampersand plain, code?_of_letter letter]
        rfl
      rw [List.cons_append, List.cons_append, expand_cons passed,
        expand_cons (read_of_ne other none _), expand_append_of_notMem absent]
      rfl
    · have number : startsNumber (d :: name ++ s) = true :=
        startsNumber_iff.mpr (.inl ⟨d, name ++ s, rfl, digit⟩)
      rw [List.cons_append, List.cons_append, expand_number number,
        expand_append_of_notMem absent]
      rfl
  · simp at reference

theorem exists_flatten_eq_cons {codes : List Text} (some : codes ≠ [])
    (empties : ∀ w ∈ codes, w ∈ emptyCodes) : ∃ x, codes.flatten = '&' :: x := by
  have starts : ∀ w ∈ emptyCodes, w.head? = .some '&' := by decide
  obtain ⟨w, codes, rfl⟩ := List.exists_cons_of_ne_nil some
  obtain ⟨x, rfl⟩ := List.head?_eq_some_iff.mp (starts w (empties w List.mem_cons_self))
  exact ⟨x ++ codes.flatten, rfl⟩

/-- An expanded text begins with a sign if the text begins with it or has it behind codes without
an entry. -/
theorem expand_begins_iff (other : d ≠ '&') (plain : d ≠ ';') :
    (∃ v, expand s = d :: v) ↔
      ∃ (codes : List Text) (v : Text), s = codes.flatten ++ d :: v ∧
        ∀ w ∈ codes, w ∈ emptyCodes := by
  constructor
  · induction s using code_induction with
    | nil => exact fun ⟨v, same⟩ => absurd same.symm (List.cons_ne_nil d v)
    | char c s amp ih =>
      rintro ⟨v, same⟩
      rw [expand_cons (read_of_ne amp none s)] at same
      obtain ⟨rfl, -⟩ := List.cons.inj same
      exact ⟨[], s, rfl, by simp⟩
    | lone s nothing ih =>
      rintro ⟨v, same⟩
      rw [expand_cons nothing] at same
      exact absurd (List.cons.inj same).1.symm other
    | number s starts ih =>
      rintro ⟨v, same⟩
      rw [expand_number starts] at same
      exact absurd (List.cons.inj same).1.symm other
    | code w e s isCode kind found ih =>
      obtain ⟨x, w_eq, -⟩ := isCode
      rintro ⟨v, same⟩
      rw [expand_append (by simp [w_eq]) found, Option.getD_some] at same
      rcases kind with reference | ⟨rfl, empty⟩
      · unfold isReference at reference
        split at reference
        · exact absurd (List.cons.inj same).1.symm other
        · simp at reference
      -- Nothing is written for such a code: the sign has moved up from behind it.
      · obtain ⟨codes, u, rfl, empties⟩ := ih ⟨v, same⟩
        exact ⟨w :: codes, u, by simp, List.forall_mem_cons.mpr ⟨empty, empties⟩⟩
  · rintro ⟨codes, v, rfl, empties⟩
    induction codes with
    | nil => exact ⟨_, expand_cons (read_of_ne other none v)⟩
    | cons w codes ih =>
      obtain ⟨empty, empties⟩ := List.forall_mem_cons.mp empties
      have next : ∀ c ∈ (codes.flatten ++ d :: v).head?, c ≠ ';' := by
        by_cases more : codes = []
        · simpa [more] using plain
        · obtain ⟨x, x_eq⟩ := exists_flatten_eq_cons more empties
          simp [x_eq]
      have nonempty : w ≠ [] := by
        rintro rfl
        exact absurd empty (by decide)
      rw [List.flatten_cons, List.append_assoc,
        expand_append nonempty (read_of_mem_emptyCodes empty next)]
      exact ih empties

end Expand

section Parted

theorem even_ampersands_append (even : Even (ampersands w)) (s : Text) :
    Even (ampersands (w ++ s)) ↔ Even (ampersands s) := by
  unfold ampersands at even ⊢
  rw [List.reverse_append, List.takeWhile_append]
  split
  · next all => rw [List.length_append, Nat.even_add, all]; simp [even]
  · rfl

theorem ampersands_of_getLast (last : ∀ c ∈ s.getLast?, c ≠ '&') : ampersands s = 0 := by
  unfold ampersands
  rw [List.length_eq_zero_iff, List.takeWhile_eq_nil_iff]
  intro positive
  have first := last (s.reverse[0]) (by
    rw [Option.mem_def, ← List.head?_reverse, List.head?_eq_getElem?,
      List.getElem?_eq_getElem positive])
  simpa using first

/-- A place behind a text at which a code can begin is a place of the text behind it. -/
theorem hasParted_append (nonempty : w ≠ []) (even : Even (ampersands w))
    (inside : ∀ u a, w = u ++ '&' :: a → u ≠ [] → ¬Even (ampersands u)) (s : Text) :
    HasParted (w ++ s) ↔ BeginsParted (w ++ s) ∨ HasParted s := by
  constructor
  · rintro ⟨u, v, split, before, parted⟩
    rcases List.append_eq_append_iff.mp split with ⟨a, rfl, rfl⟩ | ⟨a, rfl, behind⟩
    · exact .inr ⟨a, v, rfl, (even_ampersands_append even a).mp before, parted⟩
    · cases a with
      | nil =>
        exact .inr ⟨[], v, by simpa using behind.symm, by simp [ampersands], parted⟩
      | cons c a =>
        by_cases start : u = []
        · subst start
          exact .inl (split ▸ parted)
        -- Elsewhere within the text in front, an odd number of ampersands comes before.
        · obtain ⟨c', codes, d, t, v_eq, -⟩ := parted
          rw [v_eq] at behind
          obtain ⟨rfl, -⟩ := List.cons.inj behind
          exact absurd before (inside u a rfl start)
  · rintro (here | ⟨u, v, rfl, before, parted⟩)
    · exact ⟨[], w ++ s, rfl, by simp [ampersands], here⟩
    · exact ⟨w ++ u, v, by simp, (even_ampersands_append even u).mpr before, parted⟩

theorem not_hasParted_nil : ¬HasParted [] := by
  rintro ⟨u, v, split, -, c, codes, d, t, rfl, -⟩
  simp at split

theorem not_hasParted_lone : ¬HasParted ['&'] := by
  rintro ⟨u, v, split, -, c, codes, d, t, rfl, -⟩
  have length := congrArg List.length split
  simp at length
  omega

/-- A character other than an ampersand begins no code. -/
theorem hasParted_cons (other : c ≠ '&') (s : Text) : HasParted (c :: s) ↔ HasParted s := by
  have even : Even (ampersands [c]) := by
    rw [ampersands_of_getLast (by simpa using other)]
    exact Even.zero
  have here : ¬BeginsParted (c :: s) := fun ⟨c', codes, d, t, same, _⟩ =>
    other (List.cons.inj same).1
  have parted := hasParted_append (List.cons_ne_nil c []) even (s := s) fun u a split start => by
    cases u with
    | nil => exact absurd rfl start
    | cons b u => simp at split
  exact parted.trans (or_iff_right here)

/-- The text behind an ampersand that is left. -/
theorem hasParted_ampersand (other : c ≠ '&') (s : Text) :
    HasParted ('&' :: c :: s) ↔ BeginsParted ('&' :: c :: s) ∨ HasParted (c :: s) := by
  have even : Even (ampersands ['&', c]) := by
    rw [ampersands_of_getLast (by simpa using other)]
    exact Even.zero
  rw [hasParted_cons other]
  refine hasParted_append (List.cons_ne_nil '&' [c]) even (fun u a split start => ?_) s
  match u with
  | [] => exact absurd rfl start
  | [b] => exact absurd (List.cons.inj (List.cons.inj split).2).1 other
  | a :: b :: u => simp at split

theorem not_mem_singles_of_splitPairs (pair : [c, d] ∈ splitPairs) :
    c ∉ singles ∧ c ≠ ';' ∧ d ≠ '&' ∧ d ≠ ';' := by
  simp only [splitPairs, List.mem_cons, List.not_mem_nil, or_false] at pair
  rcases pair with same | same | same
  all_goals
    obtain ⟨rfl, rest⟩ := List.cons.inj same
    obtain ⟨rfl, -⟩ := List.cons.inj rest
    decide

theorem read_of_beginsParted (parted : BeginsParted s) : read none s = none := by
  obtain ⟨c, codes, d, t, rfl, pair, some, empties⟩ := parted
  obtain ⟨x, x_eq⟩ := exists_flatten_eq_cons some empties
  obtain ⟨single, plain, -⟩ := not_mem_singles_of_splitPairs pair
  have apart : [c, '&'] ∉ splitPairs := fun member =>
    (not_mem_singles_of_splitPairs member).2.2.1 rfl
  rw [x_eq, List.cons_append, read_ampersand (by simpa using plain),
    code?_of_notMem_singles single, if_neg apart]
  rfl

/-- Within a code no code of two signs begins. -/
theorem hasParted_code (isCode : IsCode w) (found : read none (w ++ s) = some (value, s)) :
    HasParted (w ++ s) ↔ HasParted s := by
  have here : ¬BeginsParted (w ++ s) := fun parted => by
    simp [read_of_beginsParted parted] at found
  obtain ⟨x, rfl, some, ampersand⟩ := isCode
  have even : Even (ampersands ('&' :: x)) := by
    have ends {y : Text} (absent : '&' ∉ y) (c : Char) (last : c ∈ y.getLast?) : c ≠ '&' := by
      rintro rfl
      exact absent (List.mem_of_mem_getLast? last)
    rcases ampersand with absent | ⟨y, rfl, absent⟩
    · rw [ampersands_of_getLast]
      · exact Even.zero
      · rw [List.getLast?_cons_of_ne_nil some]
        exact ends absent
    · cases y with
      | nil => decide
      | cons b y =>
        rw [ampersands_of_getLast]
        · exact Even.zero
        · rw [List.getLast?_cons_cons, List.getLast?_cons_cons]
          exact ends absent
  refine (hasParted_append (List.cons_ne_nil '&' x) even (fun u a split start => ?_) s).trans
    (or_iff_right here)
  obtain ⟨b, u, rfl⟩ := List.exists_cons_of_ne_nil start
  obtain ⟨rfl, rfl⟩ := List.cons.inj split
  rcases ampersand with absent | ⟨y, same, absent⟩
  · simp at absent
  · cases u with
    | nil => decide
    | cons b u =>
      obtain ⟨rfl, rfl⟩ := List.cons.inj same
      simp at absent

end Parted

section Twice

/-- What a code of two signs is written for begins with other signs. -/
theorem expand_pair_ne (pair : [c, d] ∈ splitPairs) (s t : Text) :
    expand ('&' :: c :: d :: s) ≠ '&' :: c :: t := by
  have entries : ∀ p ∈ splitPairs, 1 < (entity p).length ∧ (entity p)[1]? ≠ p[0]? := by decide
  obtain ⟨single, plain, -⟩ := not_mem_singles_of_splitPairs pair
  have found : read none ('&' :: c :: d :: s) = some (some (entity [c, d]), dropSemicolon s) := by
    rw [read_ampersand (by simpa using plain), code?_of_notMem_singles single, if_pos pair]
    simp
  obtain ⟨w, split, ⟨x, rfl, -⟩, -⟩ := read_eq_some found
  rw [split] at found ⊢
  rw [expand_append (List.cons_ne_nil '&' x) found, Option.getD_some]
  obtain ⟨long, differs⟩ := entries _ pair
  intro same
  have second := congrArg (·[1]?) same
  rw [List.getElem?_append_left long] at second
  exact differs second

/-- At an ampersand that is left a second expansion finds nothing, unless a code is joined. -/
theorem read_expand (nothing : read none ('&' :: c :: t) = none)
    (apart : ¬BeginsParted ('&' :: c :: t)) (single : c ∉ singles) (plain : c ≠ ';') :
    read none ('&' :: c :: expand t) = none := by
  rw [read_ampersand (by simpa using plain)]
  cases expanded : expand t with
  | nil => simp [code?, single]
  | cons d v =>
    rw [code?_of_notMem_singles single, if_neg, Option.map_none]
    intro pair
    obtain ⟨-, -, other, other'⟩ := not_mem_singles_of_splitPairs pair
    obtain ⟨codes, u, rfl, empties⟩ := (expand_begins_iff other other').mp ⟨v, expanded⟩
    by_cases more : codes = []
    · rw [more, read_ampersand (by simpa using plain), List.flatten_nil, List.nil_append,
        code?_of_notMem_singles single, if_pos pair] at nothing
      simp at nothing
    · exact apart ⟨c, codes, d, u, rfl, pair, more, empties⟩

/-- A second expansion changes nothing unless the first one joins a code. -/
theorem expand_expand_iff (s : Text) : expand (expand s) = expand s ↔ ¬HasParted s := by
  induction s using code_induction with
  | nil => exact iff_of_true rfl not_hasParted_nil
  | char c s other ih =>
    rw [expand_cons (read_of_ne other none s), expand_cons (read_of_ne other none _),
      List.cons_inj_right, hasParted_cons other, ih]
  | lone s nothing ih =>
    cases s with
    | nil => exact iff_of_true rfl not_hasParted_lone
    | cons c t =>
      have plain : c ≠ ';' := by
        rintro rfl
        simp [read] at nothing
      have single : c ∉ singles := fun member => by
        rw [read_ampersand (by simpa using plain), Option.map_eq_none_iff] at nothing
        exact code?_ne_none member t nothing
      have other : c ≠ '&' := by
        rintro rfl
        exact absurd single (by decide)
      have expanded : expand (c :: t) = c :: expand t := expand_cons (read_of_ne other none t)
      rw [hasParted_ampersand other, not_or, expand_cons nothing]
      by_cases parted : BeginsParted ('&' :: c :: t)
      -- The first expansion brings the two signs together, and the second one reads them as a code.
      · refine iff_of_false (fun same => ?_) fun both => both.1 parted
        obtain ⟨c', codes, d, v, same', pair, -, empties⟩ := parted
        obtain ⟨rfl, rfl⟩ := List.cons.inj (List.cons.inj same').2
        obtain ⟨-, -, other', plain'⟩ := not_mem_singles_of_splitPairs pair
        obtain ⟨u, begins⟩ := (expand_begins_iff other' plain').mpr ⟨codes, v, rfl, empties⟩
        rw [expanded, begins] at same
        exact expand_pair_ne pair u (d :: u) same
      · have passed := read_expand nothing parted single plain
        rw [expanded, expand_cons passed, List.cons_inj_right, ← expanded, ih]
        exact (and_iff_right parted).symm
  | number s number ih =>
    have isCode : IsCode ['&', '#'] := ⟨['#'], rfl, by simp, .inl (by decide)⟩
    rw [expand_number number, expand_number (startsNumber_expand number), List.cons_inj_right,
      List.cons_inj_right, ih]
    exact not_congr (hasParted_code isCode (read_number number)).symm
  | code w e s isCode kind found ih =>
    have nonempty : w ≠ [] := by
      obtain ⟨x, rfl, -⟩ := isCode
      exact List.cons_ne_nil '&' x
    have written : expand (e ++ expand s) = e ++ expand (expand s) := by
      rcases kind with reference | ⟨rfl, -⟩
      · exact expand_reference reference _
      · rfl
    rw [expand_append nonempty found, Option.getD_some, written, List.append_cancel_left_eq,
      hasParted_code isCode found, ih]

/-- A plus sign and a minus sign join behind an ampersand when the code between them is gone. -/
theorem expand_expand_ne : expand (expand "&+&#d-") ≠ expand "&+&#d-" := by decide

end Twice

end Stencil.EntityCode
