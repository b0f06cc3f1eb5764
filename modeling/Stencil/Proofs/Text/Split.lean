import Mathlib.Data.List.TakeWhile
import Stencil.Proofs.Text.Local
import Stencil.Text.Word

/-!
# Cutting a text in two

What is split off a text, together with what is left, makes up the text; what is trimmed off it is
white space.
-/

namespace Stencil.Text

/-- A text is split at a separator with none before it. -/
theorem splitFirst?_eq_some_iff {sep : Char} {s before rest : Text} :
    splitFirst? sep s = some (before, rest) ↔ s = before ++ sep :: rest ∧ sep ∉ before := by
  induction s generalizing before with
  | nil => simp [splitFirst?]
  | cons c s ih =>
    rw [splitFirst?]
    split <;> rename_i same
    · subst same
      cases before with
      | nil => simp
      | cons d before => simp +contextual [eq_comm]
    · rw [Option.map_eq_some_iff]
      constructor
      · rintro ⟨⟨start, after⟩, found, same'⟩
        obtain ⟨rfl, rfl⟩ := Prod.mk.inj same'
        obtain ⟨rfl, absent⟩ := ih.mp found
        simpa [eq_comm, absent] using same
      · rintro ⟨split, absent⟩
        cases before with
        | nil => exact absurd (List.cons.inj split).1 same
        | cons d before =>
          obtain ⟨rfl, rfl⟩ := List.cons.inj split
          exact ⟨(before, rest), ih.mpr ⟨rfl, fun h => absent (List.mem_cons_of_mem _ h)⟩, rfl⟩

/-- Two ways to cut a text at a character: one cut is before the other, or they are the same. -/
theorem append_cons_eq_append_cons {c d : Char} {u u' x x' : Text}
    (h : u ++ c :: x = u' ++ d :: x') :
    (∃ a, u' = u ++ c :: a ∧ x = a ++ d :: x') ∨ (u = u' ∧ c = d ∧ x = x') ∨
      ∃ a, u = u' ++ d :: a ∧ x' = a ++ c :: x := by
  rcases List.append_eq_append_iff.mp h with ⟨a, rfl, split⟩ | ⟨a, rfl, split⟩
  · cases a with
    | nil =>
      obtain ⟨rfl, rfl⟩ := List.cons.inj split
      exact .inr (.inl (by simp))
    | cons e a =>
      obtain ⟨rfl, rfl⟩ := List.cons.inj split
      exact .inl ⟨a, rfl, rfl⟩
  · cases a with
    | nil =>
      obtain ⟨rfl, rfl⟩ := List.cons.inj split
      exact .inr (.inl (by simp))
    | cons e a =>
      obtain ⟨rfl, rfl⟩ := List.cons.inj split
      exact .inr (.inr ⟨a, rfl, rfl⟩)

/-- What stands before a character goes on behind a text that does not have it. -/
theorem exists_of_append_cons {c : Char} {u w x t : Text} (absent : c ∉ w)
    (h : u ++ c :: x = w ++ t) : ∃ v, u = w ++ v ∧ v ++ c :: x = t := by
  rcases List.append_eq_append_iff.mp h with ⟨v, rfl, behind⟩ | ⟨v, rfl, behind⟩
  · cases v with
    | nil => exact ⟨[], by simp, behind⟩
    | cons d v =>
      obtain ⟨rfl, _⟩ := List.cons.inj behind
      exact absurd (by simp) absent
  · exact ⟨v, rfl, behind.symm⟩

theorem dropWhile_append_cons {p : Char → Bool} {c : Char} (other : p c = false) (s t : Text) :
    (s ++ c :: t).dropWhile p = s.dropWhile p ++ c :: t := by
  rw [List.dropWhile_append]
  split
  · next all =>
    rw [List.isEmpty_iff.mp all, List.dropWhile_cons_of_neg (by simp [other])]
    rfl
  · rfl

theorem takeWhile_append_cons {p : Char → Bool} {c : Char} (other : p c = false) (s t : Text) :
    (s ++ c :: t).takeWhile p = s.takeWhile p := by
  rw [List.takeWhile_append]
  split
  · next all =>
    rw [List.takeWhile_cons_of_neg (by simp [other]), List.append_nil]
    exact ((List.takeWhile_prefix p).eq_of_length all).symm
  · rfl

/-- Characters of one kind are all that is taken up to the first of another. -/
theorem takeWhile_run {p : Char → Bool} {c : Char} {s : Text} (all : ∀ d ∈ s, p d = true)
    (stops : p c = false) (t : Text) : (s ++ c :: t).takeWhile p = s := by
  rw [takeWhile_append_cons stops, List.takeWhile_eq_self_iff.mpr all]

theorem dropWhile_run {p : Char → Bool} {c : Char} {s : Text} (all : ∀ d ∈ s, p d = true)
    (stops : p c = false) (t : Text) : (s ++ c :: t).dropWhile p = c :: t := by
  rw [dropWhile_append_cons stops, List.dropWhile_eq_nil_iff.mpr all, List.nil_append]

theorem takeWhile_all {p : Char → Bool} {s t : Text} (all : ∀ c ∈ s, p c = true)
    (stops : ∀ c ∈ t.head?, p c = false) : (s ++ t).takeWhile p = s := by
  cases t with
  | nil => rw [List.append_nil, List.takeWhile_eq_self_iff.mpr all]
  | cons c t => exact takeWhile_run all (stops c rfl) t

theorem dropWhile_all {p : Char → Bool} {s t : Text} (all : ∀ c ∈ s, p c = true)
    (stops : ∀ c ∈ t.head?, p c = false) : (s ++ t).dropWhile p = t := by
  cases t with
  | nil => rw [List.append_nil, List.dropWhile_eq_nil_iff.mpr all]
  | cons c t => exact dropWhile_run all (stops c rfl) t

def spaces : List Nat :=
  List.range' 9 5 ++ List.range' 0x2000 11 ++
    [0x20, 0x85, 0xA0, 0x1680, 0x2028, 0x2029, 0x202F, 0x205F, 0x3000]

theorem mem_spaces {c : Char} (space : isSpace c = true) : c.toNat ∈ spaces := by
  simp only [isSpace, Bool.or_eq_true, Bool.and_eq_true, decide_eq_true_eq, beq_iff_eq] at space
  simp only [spaces, List.mem_append, List.mem_range'_1, List.mem_cons, List.not_mem_nil, or_false]
  omega

theorem not_isSpace_of_isWord {c : Char} (word : isWord c = true) : isSpace c = false := by
  have others : ∀ n ∈ spaces, isWord (Char.ofNat n) = false := by decide +kernel
  by_contra space
  have other := others c.toNat (mem_spaces (by simpa using space))
  rw [Char.ofNat_toNat, word] at other
  exact absurd other (by decide)

theorem not_isSpace_of_isDigit {c : Char} (digit : isDigit c = true) : isSpace c = false := by
  obtain ⟨-, high⟩ : 48 ≤ c.toNat ∧ c.toNat ≤ 57 := by
    simpa [isDigit, Char.le_def, UInt32.le_iff_toNat_le] using digit
  have ascii : c.toNat < 128 := by omega
  exact not_isSpace_of_isWord (by simp [isWord, ascii, digit])

theorem mem_dropWhile {p : Char → Bool} {c : Char} {s : Text} (member : c ∈ s)
    (kept : p c = false) : c ∈ s.dropWhile p := by
  have split := List.takeWhile_append_dropWhile (p := p) (l := s)
  rw [← split] at member
  rcases List.mem_append.mp member with taken | dropped
  · exact absurd (List.mem_takeWhile_imp taken) (by simp [kept])
  · exact dropped

theorem mem_trim {c : Char} {s : Text} (member : c ∈ s) (visible : isSpace c = false) :
    c ∈ trim s := by
  have started : c ∈ (trimStart s).reverse := List.mem_reverse.mpr (mem_dropWhile member visible)
  exact List.mem_reverse.mpr (mem_dropWhile started visible)

theorem dropEndWhile_prefix (p : Char → Bool) (s : Text) : dropEndWhile p s <+: s := by
  rw [dropEndWhile, ← List.reverse_suffix, List.reverse_reverse]
  exact List.dropWhile_suffix p

theorem trim_infix (s : Text) : trim s <:+: s := by
  have part : trim s <+: trimStart s := dropEndWhile_prefix isSpace _
  exact part.isInfix.trans (List.dropWhile_suffix isSpace).isInfix

/-- What is dropped from the end of a text. -/
theorem exists_dropEndWhile (p : Char → Bool) (s : Text) :
    ∃ dropped, s = dropEndWhile p s ++ dropped ∧ ∀ c ∈ dropped, p c = true := by
  refine ⟨(s.reverse.takeWhile p).reverse, ?_, fun c member => ?_⟩
  · rw [dropEndWhile, ← List.reverse_append, List.takeWhile_append_dropWhile, List.reverse_reverse]
  · exact List.mem_takeWhile_imp (List.mem_reverse.mp member)

theorem not_of_getLast_dropEndWhile {p : Char → Bool} {s : Text} {c : Char}
    (last : (dropEndWhile p s).getLast? = some c) : p c = false := by
  rw [dropEndWhile, List.getLast?_reverse] at last
  have stopped := List.head?_dropWhile_not p s.reverse
  rwa [last] at stopped

/-- Nothing is dropped from what stands before a character that is kept. -/
theorem dropEndWhile_append {p : Char → Bool} {s : Text}
    (kept : ∀ c ∈ s.getLast?, p c = false) (t : Text) :
    dropEndWhile p (s ++ t) = s ++ dropEndWhile p t := by
  have whole : s.reverse.dropWhile p = s.reverse := by
    cases turned : s.reverse with
    | nil => rfl
    | cons c others =>
      have last : s.getLast? = some c := by rw [← List.head?_reverse, turned]; rfl
      exact List.dropWhile_cons_of_neg (by simp [kept c last])
  rw [dropEndWhile, List.reverse_append, List.dropWhile_append]
  split
  · next all =>
    rw [whole, List.reverse_reverse, dropEndWhile, List.isEmpty_iff.mp all]
    simp
  · simp [dropEndWhile]

theorem dropEndWhile_eq_self {p : Char → Bool} {s : Text}
    (kept : ∀ c ∈ s.getLast?, p c = false) : dropEndWhile p s = s := by
  simpa [dropEndWhile] using dropEndWhile_append kept []

/-- A text begins and ends with no white space if trimming leaves it as it is. -/
theorem ends_of_trim_eq {s : Text} (trimmed : trim s = s) :
    (∀ c ∈ s.head?, isSpace c = false) ∧ ∀ c ∈ s.getLast?, isSpace c = false := by
  have start : trimStart s = s := by
    refine (List.dropWhile_suffix isSpace).eq_of_length_le ?_
    have start : dropEndWhile isSpace (trimStart s) <+: trimStart s := dropEndWhile_prefix isSpace _
    rw [show dropEndWhile isSpace (trimStart s) = s from trimmed] at start
    exact start.length_le
  refine ⟨fun c first => ?_, fun c last => ?_⟩
  · have stopped := List.head?_dropWhile_not isSpace s
    rw [show s.dropWhile isSpace = s from start] at stopped
    rw [Option.mem_def] at first
    simpa [first] using stopped
  · rw [← trimmed] at last
    exact not_of_getLast_dropEndWhile last

/-- White space before a text that has none at its ends is trimmed. -/
theorem trim_append {s t : Text} (blank : ∀ c ∈ t, isSpace c = true)
    (first : ∀ c ∈ s.head?, isSpace c = false) (last : ∀ c ∈ s.getLast?, isSpace c = false) :
    trim (t ++ s) = s := by
  have start : trimStart (t ++ s) = s := by
    rw [trimStart, List.dropWhile_append_of_pos blank]
    cases s with
    | nil => rfl
    | cons c s => exact List.dropWhile_cons_of_neg (by simp [first c rfl])
  rw [trim, start]
  exact dropEndWhile_eq_self last

theorem mem_of_mem_head?_append {c : Char} {s t : Text} (nonempty : s ≠ [])
    (first : c ∈ (s ++ t).head?) : c ∈ s := by
  obtain ⟨d, rest, rfl⟩ := List.exists_cons_of_ne_nil nonempty
  exact Option.some.inj first ▸ List.mem_cons_self

/-- White space around a text that has none is trimmed. -/
theorem trim_between {s front back : Text} (visible : ∀ c ∈ s, isSpace c = false)
    (nonempty : s ≠ []) (before : isSpaceOnly front = true)
    (after : isSpaceOnly back = true) : trim (front ++ s ++ back) = s := by
  have blank := List.all_eq_true.mp before
  have start : trimStart (front ++ s ++ back) = s ++ back := by
    rw [trimStart, List.append_assoc]
    exact dropWhile_all blank fun c first => visible c (mem_of_mem_head?_append nonempty first)
  have finish : trimEnd back = [] := by
    have dropped : back.reverse.dropWhile isSpace = [] :=
      List.dropWhile_eq_nil_iff.mpr fun c member =>
        List.all_eq_true.mp after c (List.mem_reverse.mp member)
    rw [trimEnd, dropEndWhile, dropped, List.reverse_nil]
  have kept : trimEnd (s ++ back) = s ++ trimEnd back :=
    dropEndWhile_append (fun c last => visible c (List.mem_of_mem_getLast? last)) back
  rw [trim, start, kept, finish, List.append_nil]

/-- A mark that follows a run of characters cuts the text behind the run. -/
theorem eq_of_after?_dropWhile {p : Char → Bool} {mark s rest : Text}
    (h : after? mark (s.dropWhile p) = some rest) : s = s.takeWhile p ++ mark ++ rest := by
  rw [List.append_assoc, ← after?_eq_some h, List.takeWhile_append_dropWhile]

/-- A text is split at a place that is recognised. -/
theorem splitWhere?_split {after : Text → Option Text} {s before rest : Text}
    (h : splitWhere? after s = some (before, rest)) :
    ∃ tail, s = before ++ tail ∧ after tail = some rest := by
  induction s generalizing before with
  | nil =>
    obtain ⟨_, found, same⟩ := Option.map_eq_some_iff.mp h
    obtain ⟨rfl, rfl⟩ := Prod.mk.inj same
    exact ⟨[], rfl, found⟩
  | cons c s ih =>
    rw [splitWhere?] at h
    split at h <;> rename_i found
    · obtain ⟨rfl, rfl⟩ := Prod.mk.inj (Option.some.inj h)
      exact ⟨c :: s, rfl, found⟩
    · obtain ⟨⟨start, _⟩, later, same⟩ := Option.map_eq_some_iff.mp h
      obtain ⟨rfl, rfl⟩ := Prod.mk.inj same
      obtain ⟨tail, rfl, there⟩ := ih later
      exact ⟨tail, rfl, there⟩

theorem splitAtFirst?_eq_some {mark s before rest : Text}
    (h : splitAtFirst? mark s = some (before, rest)) : s = before ++ mark ++ rest := by
  obtain ⟨tail, rfl, there⟩ := splitWhere?_split h
  rw [after?_eq_some there, List.append_assoc]

theorem splitAtFirst?_mark (mark rest : Text) :
    splitAtFirst? mark (mark ++ rest) = some ([], rest) := by
  unfold splitAtFirst?
  cases all : mark ++ rest with
  | nil =>
    obtain ⟨rfl, rfl⟩ := List.append_eq_nil_iff.mp all
    rfl
  | cons c s =>
    have found : after? mark (c :: s) = some rest := all ▸ after?_append mark rest
    simp [splitWhere?, found]

/-- The first occurrence of a mark is the one with the least in front of it. -/
theorem splitAtFirst?_eq_some_iff {mark s before rest : Text} :
    splitAtFirst? mark s = some (before, rest) ↔ s = before ++ mark ++ rest ∧
      ∀ before' rest', s = before' ++ mark ++ rest' → before.length ≤ before'.length := by
  refine ⟨fun h => ⟨splitAtFirst?_eq_some h, ?_⟩, ?_⟩
  · unfold splitAtFirst? at h
    induction s generalizing before with
    | nil =>
      obtain ⟨_, _, same⟩ := Option.map_eq_some_iff.mp h
      obtain ⟨rfl, rfl⟩ := Prod.mk.inj same
      exact fun _ _ _ => Nat.zero_le _
    | cons c s ih =>
      rw [splitWhere?] at h
      split at h <;> rename_i found
      · obtain ⟨rfl, rfl⟩ := Prod.mk.inj (Option.some.inj h)
        exact fun _ _ _ => Nat.zero_le _
      · obtain ⟨⟨start, _⟩, later, same⟩ := Option.map_eq_some_iff.mp h
        obtain ⟨rfl, rfl⟩ := Prod.mk.inj same
        intro before' rest' split
        cases before' with
        | nil =>
          rw [split, List.nil_append, after?_append] at found
          simp at found
        | cons d before' =>
          obtain ⟨rfl, behind⟩ := List.cons.inj split
          exact Nat.succ_le_succ (ih later before' rest' behind)
  · rintro ⟨rfl, first⟩
    induction before with
    | nil => exact splitAtFirst?_mark mark rest
    | cons c before ih =>
      have later : after? mark (c :: (before ++ mark ++ rest)) = none := by
        cases found : after? mark (c :: (before ++ mark ++ rest)) with
        | none => rfl
        | some rest' =>
          have early := first [] rest' (by simpa using after?_eq_some found)
          simp at early
      have rest_first (before' rest' : Text)
          (split : before ++ mark ++ rest = before' ++ mark ++ rest') :
          before.length ≤ before'.length := by
        have next := first (c :: before') rest' (by simpa using split)
        simpa using next
      unfold splitAtFirst? at ih ⊢
      simp only [List.cons_append, splitWhere?, later, ih rest_first, Option.map_some]

/-- A text can be split at a mark exactly if the mark is in it. -/
theorem splitAtFirst?_isSome_iff {mark s : Text} :
    (splitAtFirst? mark s).isSome ↔ mark <:+: s := by
  constructor
  · intro found
    obtain ⟨⟨before, rest⟩, split⟩ := Option.isSome_iff_exists.mp found
    exact ⟨before, rest, (splitAtFirst?_eq_some split).symm⟩
  · rintro ⟨before, rest, rfl⟩
    induction before with
    | nil => exact Option.isSome_of_eq_some (splitAtFirst?_mark mark rest)
    | cons c before ih =>
      unfold splitAtFirst? at ih ⊢
      rw [List.cons_append, List.cons_append, splitWhere?]
      split
      · rfl
      · simpa using ih

/-- A mark behind a text that does not hold its first character cuts there. -/
theorem splitAtFirst?_append {c : Char} {mark s : Text} (absent : c ∉ s) (rest : Text) :
    splitAtFirst? (c :: mark) (s ++ c :: (mark ++ rest)) = some (s, rest) := by
  induction s with
  | nil =>
    have found : after? (c :: mark) (c :: (mark ++ rest)) = some rest :=
      after?_append (c :: mark) rest
    simp [splitAtFirst?, splitWhere?, found]
  | cons d s ih =>
    have differs : c ≠ d := fun same => absent (same ▸ List.mem_cons_self)
    have later := ih fun member => absent (List.mem_cons_of_mem d member)
    unfold splitAtFirst? at later ⊢
    simp [splitWhere?, after?, differs, later]

theorem splitAtLast?_eq_some {mark s before after : Text}
    (h : splitAtLast? mark s = some (before, after)) : s = before ++ mark ++ after := by
  obtain ⟨⟨behind, ahead⟩, split, same⟩ := Option.map_eq_some_iff.mp h
  obtain ⟨rfl, rfl⟩ := Prod.mk.inj same
  have turned := congrArg List.reverse (splitAtFirst?_eq_some split)
  rw [List.reverse_reverse] at turned
  rw [turned]
  simp

end Stencil.Text
