import Stencil.Html.Element
import Stencil.Proofs.Text.Split
import Stencil.Proofs.Text.Whole

/-!
# Elements that are read as a whole

An element begins with an opening bracket and its name, in letters of either case, and ends with a
closing bracket.  Where its name does not follow a bracket, nothing is read.
-/

namespace Stencil

/-- A character has a lower case of its own only if it is a letter from A to Z. -/
theorem toNat_of_toLower_eq {c d : Char} (h : c.toLower = d) :
    c = d ∨ c.toNat + 32 = d.toNat ∧ 65 ≤ c.toNat ∧ c.toNat ≤ 90 := by
  unfold Char.toLower at h
  split at h
  case isTrue upper =>
    have low : 65 ≤ c.toNat := UInt32.le_iff_toNat_le.mp upper.1
    have high : c.toNat ≤ 90 := UInt32.le_iff_toNat_le.mp upper.2
    have same := congrArg Char.toNat h
    simp at same
    exact .inr (by omega)
  case isFalse => exact .inl h

/-- A character whose lower case is no letter is that lower case. -/
theorem eq_of_toLower_eq {c d : Char} (h : c.toLower = d) (other : isAsciiLetter d = false) :
    c = d := by
  rcases toNat_of_toLower_eq h with same | ⟨value, low, high⟩
  · exact same
  · have letter : isAsciiLetter d = true := by
      have first : 'a' ≤ d := by
        show 97 ≤ d.toNat
        omega
      have last : d ≤ 'z' := by
        show d.toNat ≤ 122
        omega
      simp [isAsciiLetter, first, last]
    simp [letter] at other

/-- The folding of letters changes no other character into one. -/
theorem eq_of_foldLetter_eq {c d : Char} (h : foldLetter c = d) (other : isAsciiLetter d = false) :
    c = d := by
  unfold foldLetter at h
  split at h
  · subst h
    exact absurd other (by decide)
  · split at h
    · subst h
      exact absurd other (by decide)
    · exact eq_of_toLower_eq h other

theorem eq_of_foldLetter_eq_c {c : Char} (h : foldLetter c = 'c') : c = 'c' ∨ c = 'C' := by
  unfold foldLetter at h
  split at h
  · exact absurd h (by decide)
  · split at h
    · exact absurd h (by decide)
    · refine (toNat_of_toLower_eq h).imp_right fun upper => Char.toNat_inj.mp ?_
      exact Nat.add_right_cancel upper.1

/-- Apart from an s and a k, letters fold as they go to lower case. -/
theorem lower_eq_of_map_foldLetter {u w : Text} (noS : 's' ∉ w) (noK : 'k' ∉ w)
    (folded : u.map foldLetter = w) : Text.lower u = w := by
  subst folded
  refine List.map_congr_left fun c member => ?_
  have image : foldLetter c ∈ u.map foldLetter := List.mem_map_of_mem member
  have noLongS : c ≠ '\u017f' := by
    rintro rfl
    exact noS image
  have noKelvin : c ≠ '\u212a' := by
    rintro rfl
    exact noK image
  simp [foldLetter, noLongS, noKelvin]

namespace Element

/-- An element is read from its open tag, its content and its closing tag, in letters of either
case. -/
theorem read_eq_some {name : Text} {before : Option Char} {s rest : Text} {e : Element}
    (h : read name before s = some (e, rest)) :
    ∃ written attrs content closing, written.map foldLetter = '<' :: name ∧
      closing.map foldLetter = "</" ++ name ++ ">" ∧
      s = written ++ attrs ++ ['>'] ++ content ++ closing ++ rest ∧
      e = ⟨written ++ attrs ++ ['>'], content, closing⟩ := by
  obtain ⟨inside, named, h⟩ := Option.bind_eq_some_iff.mp h
  dsimp only at h
  split at h
  · simp at h
  · obtain ⟨⟨attrs, body⟩, opened, h⟩ := Option.bind_eq_some_iff.mp h
    obtain ⟨⟨content, rest'⟩, closed, same⟩ := Option.bind_eq_some_iff.mp h
    obtain ⟨rfl, rfl⟩ := Prod.mk.inj (Option.some.inj same)
    obtain ⟨written, folded, rfl⟩ := Text.afterFolded?_eq_some named
    obtain ⟨rfl, _⟩ := Text.splitFirst?_eq_some_iff.mp opened
    obtain ⟨tail, rfl, ended⟩ := Text.splitWhere?_split closed
    obtain ⟨closing, foldedEnd, rfl⟩ := Text.afterFolded?_eq_some ended
    have begun : ('<' :: name).length = written.length := by rw [← folded, List.length_map]
    have ended : ("</" ++ name ++ ">").length = closing.length := by
      rw [← foldedEnd, List.length_map]
    refine ⟨written, attrs, content, closing, folded, foldedEnd, by simp, ?_⟩
    rw [begun, List.take_left, List.drop_left, ended, List.take_left]

/-- An element stands between brackets, of which the first has its name behind it. -/
theorem exists_between {name : Text} {before : Option Char} {s rest : Text} {e : Element}
    (h : read name before s = some (e, rest)) :
    ∃ written body, s = '<' :: (written ++ body ++ '>' :: rest) ∧
      written.map foldLetter = name := by
  obtain ⟨written, attrs, content, closing, folded, foldedEnd, rfl, _⟩ := read_eq_some h
  obtain ⟨first, written, rfl, bracket, letters⟩ := List.map_eq_cons_iff.mp folded
  obtain ⟨start, last, rfl, _, lastFolded⟩ := List.map_eq_append_iff.mp foldedEnd
  obtain ⟨last, _, rfl, lastBracket, nothing⟩ := List.map_eq_cons_iff.mp lastFolded
  obtain rfl := List.map_eq_nil_iff.mp nothing
  obtain rfl := eq_of_foldLetter_eq bracket (by decide)
  obtain rfl : last = '>' := eq_of_foldLetter_eq lastBracket (by decide)
  exact ⟨written, attrs ++ ['>'] ++ content ++ start, by simp, letters⟩

/-- An element begins with a bracket and its name, and ends with a bracket. -/
theorem exists_source {name : Text} {d : Char} {before : Option Char} {s rest : Text} {e : Element}
    (named : name.head? = some d) (h : read name before s = some (e, rest)) :
    ∃ c body, s = '<' :: c :: (body ++ '>' :: rest) ∧ foldLetter c = d := by
  obtain ⟨written, body, rfl, folded⟩ := exists_between h
  obtain ⟨more, rfl⟩ := List.head?_eq_some_iff.mp named
  obtain ⟨c, tail, rfl, letter, _⟩ := List.map_eq_cons_iff.mp folded
  exact ⟨c, tail ++ body, by simp, letter⟩

theorem delimited_read (name : Text) : Reader.Delimited (read name) ['<'] ['>'] := by
  intro before s e rest found
  obtain ⟨written, body, rfl, _⟩ := exists_between found
  exact ⟨'<', written ++ body, '>', rfl, List.mem_singleton_self _, List.mem_singleton_self _⟩

/-- Where no bracket has the name after it, no element is found. -/
theorem scan_eq_plain {name s : Text} (absent : ¬('<' :: name <:+: s.map foldLetter)) :
    Text.scan (read name) s = s.map .plain := by
  refine Text.scan_eq_plain fun t tail _ before => ?_
  cases found : read name before t with
  | none => rfl
  | some answer =>
    obtain ⟨written, attrs, content, closing, folded, _, split, _⟩ := read_eq_some found
    have start : written <+: t :=
      ⟨attrs ++ ['>'] ++ content ++ closing ++ answer.2, by simp [split]⟩
    exact absurd (folded ▸ (start.isInfix.trans tail.isInfix).map foldLetter) absent

end Element

end Stencil
