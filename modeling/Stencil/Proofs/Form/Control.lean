import Stencil.Form.Expand
import Stencil.Proofs.Inline.Tokens

/-!
# How controls are written

A control is written between brackets, with its values in braces before the closing one and its
attributes in braces behind it.
-/

namespace Stencil.Form

variable {s : Text}

/-- The values of a control end before a closing brace, and no character of them is lost. -/
theorem valuesEnd?_eq_some {inGroup : Bool} {values rest : Text}
    (h : valuesEnd? inGroup s = some (values, rest)) : s = values ++ '\x7d' :: rest := by
  fun_induction valuesEnd? inGroup s generalizing values with
  | case1 => simp at h
  | case2 s =>
    obtain ⟨rfl, rfl⟩ := Prod.mk.inj (Option.some.inj h)
    rfl
  | case3 => simp at h
  | case4 _ c s =>
    rename_i ih
    obtain ⟨answer, ended, same⟩ := Option.map_eq_some_iff.mp h
    obtain ⟨rfl, rfl⟩ := Prod.mk.inj same
    rw [ih ended, List.cons_append]

/-- The values of a control stand in braces before its closing bracket, with gaps around them. -/
theorem readValues_eq_some {values : Option Text} {rest : Text}
    (h : readValues s = some (values, rest)) :
    ∃ gap gap', s = gap ++ (braced values ++ gap' ++ ']' :: rest) := by
  unfold readValues at h
  split at h
  · rename_i t brace
    obtain ⟨⟨values, t'⟩, ended, h⟩ := Option.bind_eq_some_iff.mp h
    obtain ⟨rest', closed, same⟩ := Option.bind_eq_some_iff.mp h
    obtain ⟨rfl, rfl⟩ := Prod.mk.inj (Option.some.inj same)
    refine ⟨s.takeWhile isBlank, t'.takeWhile isBlank, ?_⟩
    calc s = s.takeWhile isBlank ++ '\x7b' :: t := by
          rw [← brace, List.takeWhile_append_dropWhile]
      _ = s.takeWhile isBlank ++ '\x7b' :: (values ++ '\x7d' ::
          (t'.takeWhile isBlank ++ [']'] ++ rest')) := by
        rw [← Text.eq_of_after?_dropWhile closed, ← valuesEnd?_eq_some ended]
      _ = s.takeWhile isBlank ++
          (braced (some values) ++ t'.takeWhile isBlank ++ ']' :: rest') := by
        simp [braced]
  · obtain ⟨rest', closed, same⟩ := Option.map_eq_some_iff.mp h
    obtain ⟨rfl, rfl⟩ := Prod.mk.inj same
    exact ⟨s.takeWhile isBlank, [],
      (Text.eq_of_after?_dropWhile closed).trans (by simp [braced])⟩

/-- What a control is written as: its values and attributes in braces, if there are any. -/
theorem Control.read_eq_some {before : Option Char} {rest : Text} {control : Control}
    (h : Control.read before s = some (control, rest)) :
    ∃ front gap word, s = '[' :: (front ++ (braced control.values ++ gap ++
        ']' :: (braced control.attributes ++ rest))) ∧
      control.kind = .ofName (Text.lower word) ∧ (∀ c ∈ word, isAsciiLetter c = true) ∧
      ∀ c ∈ control.name, isNameChar c = true := by
  obtain ⟨inside, opened, h⟩ := Option.bind_eq_some_iff.mp h
  dsimp only at h
  split at h
  · simp at h
  · split at h
    · simp at h
    · obtain ⟨⟨values, behind⟩, valued, same⟩ := Option.bind_eq_some_iff.mp h
      cases suffix : bracedSuffix behind with
      | mk attributes rest' =>
        dsimp only at same
        rw [suffix] at same
        obtain ⟨rfl, rfl⟩ := Prod.mk.inj (Option.some.inj same)
        obtain ⟨gap, gap', split⟩ := readValues_eq_some valued
        rw [bracedSuffix_eq suffix] at split
        obtain ⟨front, whole⟩ := (List.dropWhile_suffix isNameChar).trans
          ((List.dropWhile_suffix isBlank).trans
            (List.dropWhile_suffix isAsciiLetter (l := inside)))
        refine ⟨front ++ gap, gap', inside.takeWhile isAsciiLetter, ?_, rfl,
          fun c => List.mem_takeWhile_imp, fun c => List.mem_takeWhile_imp⟩
        rw [Text.after?_eq_some opened, ← whole, split]
        simp

theorem Control.delimited_read : Reader.Delimited Control.read ['['] [']', '\x7d'] := by
  intro before s control rest found
  obtain ⟨front, gap, _, rfl, _⟩ := read_eq_some found
  obtain ⟨middle, last, split, ends⟩ := exists_last ']' control.attributes
  refine ⟨'[', front ++ (braced control.values ++ gap ++ middle), last, ?_, List.mem_cons_self,
    ends⟩
  have behind : ']' :: (braced control.attributes ++ rest) = middle ++ last :: rest := by
    rw [← List.cons_append, split, List.append_assoc, List.singleton_append]
  simp [behind]

end Stencil.Form
