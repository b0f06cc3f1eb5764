import Stencil.Block.AttributeLine
import Stencil.Block.ItemList
import Stencil.Block.Line
import Stencil.Proofs.Text.Split

/-!
# What lines are read as

A line that is read as a heading, a quotation or an item is a mark with a content behind it, once
the blanks before the mark are passed over, and a line of attributes is a text between braces.  What
is proved about the content of such a line is proved from this shape.
-/

namespace Stencil

variable {line content : Text}

/-- A line of attributes is a text without braces between two braces. -/
theorem attributeLine?_eq_some_iff :
    attributeLine? line = some content ↔
      ∃ inner, Text.trim line = '\x7b' :: (inner ++ ['\x7d']) ∧
        (∀ c ∈ inner, c ≠ '\x7b' ∧ c ≠ '\x7d') ∧ content = Text.trim inner := by
  constructor
  · intro read
    unfold attributeLine? at read
    split at read
    · rename_i s brace
      split at read
      · rename_i ends
        obtain ⟨inner, rfl⟩ := List.getLast?_eq_some_iff.mp ends
        simp only [List.dropLast_concat] at read
        split at read <;> rename_i plain
        · simp at read
        · exact ⟨inner, brace, by simpa using plain, (Option.some.inj read).symm⟩
      · simp at read
    · simp at read
  · rintro ⟨inner, brace, plain, rfl⟩
    have noBrace : inner.any (fun c => c == '\x7b' || c == '\x7d') = false := by simpa using plain
    simp [attributeLine?, brace, noBrace]

namespace Line

/-- A heading is one to six hash signs with blanks and a content behind them.  Two blanks or more
are enough, and the last of them is the content then. -/
theorem heading?_eq_some {level : Nat} (read : heading? line = some (level, content)) :
    1 ≤ level ∧ level ≤ 6 ∧ ∃ behind,
      line.dropWhile isBlank = List.replicate level '#' ++ behind ∧
        behind.takeWhile isBlank ≠ [] ∧
        (behind.dropWhile isBlank ≠ [] ∧
            content = Text.dropEndWhile isBlank (behind.dropWhile isBlank) ∨
          behind.dropWhile isBlank = [] ∧ 2 ≤ (behind.takeWhile isBlank).length ∧
            lastBlank? (behind.takeWhile isBlank) = some content) := by
  have signs : (line.dropWhile isBlank).takeWhile (· == '#') =
      List.replicate ((line.dropWhile isBlank).takeWhile (· == '#')).length '#' :=
    List.eq_replicate_of_mem fun c member => by simpa using List.mem_takeWhile_imp member
  have shape := List.takeWhile_append_dropWhile (p := (· == '#')) (l := line.dropWhile isBlank)
  rw [signs] at shape
  unfold heading? at read
  dsimp only at read
  split at read <;> rename_i marked
  · simp at read
  · simp only [not_or, Nat.not_lt, List.isEmpty_iff] at marked
    obtain ⟨some, few, blanks⟩ := marked
    split at read <;> rename_i empty
    · obtain ⟨rfl, rfl⟩ := Prod.mk.inj (Option.some.inj read)
      exact ⟨Nat.pos_of_ne_zero some, few, _, shape.symm, blanks, .inl ⟨by simpa using empty, rfl⟩⟩
    · split at read <;> rename_i single
      · simp at read
      · obtain ⟨content, found, same⟩ := Option.map_eq_some_iff.mp read
        obtain ⟨rfl, rfl⟩ := Prod.mk.inj same
        exact ⟨Nat.pos_of_ne_zero some, few, _, shape.symm, blanks,
          .inr ⟨by simpa using empty, Nat.le_of_not_lt single, found⟩⟩

/-- A quotation is a bracket with a content behind it, or with blanks alone, the last of which is
the content then. -/
theorem quotation?_eq_some_iff :
    quotation? line = some content ↔
      ∃ behind, line.dropWhile isBlank = '>' :: behind ∧
        (behind.dropWhile isBlank ≠ [] ∧ content = behind.dropWhile isBlank ∨
          behind.dropWhile isBlank = [] ∧
            lastBlank? (behind.takeWhile isBlank) = some content) := by
  constructor
  · intro read
    unfold quotation? at read
    split at read
    · rename_i behind mark
      refine ⟨behind, mark, ?_⟩
      dsimp only at read
      split at read <;> rename_i empty
      · exact .inr ⟨List.isEmpty_iff.mp empty, read⟩
      · exact .inl ⟨by simpa using empty, (Option.some.inj read).symm⟩
    · simp at read
  · rintro ⟨behind, mark, ⟨some, rfl⟩ | ⟨none, last⟩⟩
    · simp [quotation?, mark, some]
    · simp [quotation?, mark, none, last]

end Line

namespace ItemList

variable {item : Item}

/-- The content of a mark is what is left behind the blanks after it, of which there is at least
one. -/
theorem content?_eq_some_iff {afterMark : Text} :
    content? afterMark = some content ↔
      ∃ c s, afterMark = c :: s ∧ isBlank c = true ∧ content = s.dropWhile isBlank := by
  constructor
  · intro read
    unfold content? at read
    split at read
    · split at read <;> rename_i blank
      · exact ⟨_, _, rfl, blank, (Option.some.inj read).symm⟩
      · simp at read
    · simp at read
  · rintro ⟨c, s, rfl, blank, rfl⟩
    exact if_pos blank

/-- The mark of an item, with the kind of list and the number that it gives. -/
inductive IsMark : Family → Option Nat → Text → Prop
  | sign {c : Char} (bullet : isBullet c = true) : IsMark (.bullet c) none [c]
  | number {digits : Text} (some : digits ≠ []) (all : ∀ d ∈ digits, isDigit d = true) :
    IsMark .numbered (Text.index? digits) (digits ++ ['.'])

/-- An item is a mark with a blank and a content behind it. -/
theorem item?_eq_some (read : item? line = some item) :
    item.indent = indentOf line ∧ ∃ mark behind,
      line.dropWhile isBlank = mark ++ behind ∧ IsMark item.family item.number mark ∧
        content? behind = some item.content := by
  unfold item? at read
  dsimp only at read
  split at read
  · simp at read
  · rename_i c rest mark
    split at read
    · rename_i bullet
      obtain ⟨content, found, rfl⟩ := Option.map_eq_some_iff.mp read
      exact ⟨rfl, [c], rest, mark, .sign bullet, found⟩
    · split at read <;> rename_i digits
      · simp at read
      · obtain ⟨behind, period, read⟩ := Option.bind_eq_some_iff.mp read
        obtain ⟨content, found, same⟩ := Option.bind_eq_some_iff.mp read
        obtain rfl := Option.some.inj same
        exact ⟨rfl, _, behind, Text.eq_of_after?_dropWhile period,
          .number (by simpa using digits) fun _ => List.mem_takeWhile_imp, found⟩

end ItemList

end Stencil
