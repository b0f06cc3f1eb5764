import Stencil.Proofs.Text.Whole

/-!
# The lines of texts that are put together

The lines of two texts one after the other are those of the first and those of the second, where
the last of the first and the first of the second make one line (`lines_append`).  So the lines of
a text that is made of lines are these lines (`lines_ofLines`), and if they have line breaks in
them, the lines of these (`lines_ofLines_flatMap`).
-/

namespace Stencil.Text

variable {s t : Text} {parts : List Text}

theorem splitOn_eq (sep : Char) (s : Text) : splitOn sep s = List.splitOn sep s := by
  induction s with
  | nil => rfl
  | cons c s ih =>
    rw [splitOn, List.splitOn_cons_eq_if_modifyHead, ih]
    by_cases same : c = sep
    · simp [same]
    · obtain ⟨part, parts, split⟩ := List.exists_cons_of_ne_nil (List.splitOn_ne_nil sep s)
      simp [same, split]

/-- The parts of a split text have no separator in them. -/
theorem not_mem_of_mem_splitOn {sep : Char} {part : Text} (member : part ∈ splitOn sep s) :
    sep ∉ part := by
  induction s generalizing part with
  | nil =>
    obtain rfl := List.mem_singleton.mp member
    exact List.not_mem_nil
  | cons c s ih =>
    rw [splitOn] at member
    obtain ⟨first, rest, split⟩ := List.exists_cons_of_ne_nil (splitOn_ne_nil sep s)
    rw [split] at ih member
    by_cases same : c = sep
    · rw [if_pos same, List.mem_cons] at member
      rcases member with rfl | later
      · exact List.not_mem_nil
      · exact ih later
    · rw [if_neg same] at member
      rcases List.mem_cons.mp member with rfl | later
      · have apart := ih List.mem_cons_self
        rw [List.mem_cons, not_or]
        exact ⟨Ne.symm same, apart⟩
      · exact ih (List.mem_cons_of_mem _ later)

@[simp] theorem lines_ne_nil (s : Text) : lines s ≠ [] := splitOn_ne_nil '\n' s

theorem exists_lines_eq_cons (s : Text) : ∃ first back, lines s = first :: back :=
  List.exists_cons_of_ne_nil (lines_ne_nil s)

theorem exists_lines_eq_concat (s : Text) : ∃ front last, lines s = front ++ [last] :=
  (List.eq_nil_or_concat' (lines s)).resolve_left (lines_ne_nil s)

theorem ofLines_lines (s : Text) : ofLines (lines s) = s := join_splitOn '\n' s

theorem not_mem_of_mem_lines {line : Text} (member : line ∈ lines s) : '\n' ∉ line :=
  not_mem_of_mem_splitOn member

theorem infix_of_mem_lines {line : Text} (member : line ∈ lines s) : line <:+: s := by
  conv_rhs => rw [← ofLines_lines s]
  exact infix_join member

theorem lines_of_not_mem (absent : '\n' ∉ s) : lines s = [s] := by
  rw [lines, splitOn_eq]
  exact List.splitOn_eq_singleton absent

theorem lines_newline (s t : Text) : lines (s ++ '\n' :: t) = lines s ++ lines t := by
  simp only [lines, splitOn_eq]
  exact List.splitOn_append_cons_self s t

theorem lines_cons {c : Char} {first : Text} {back : List Text} (other : c ≠ '\n')
    (rest : lines s = first :: back) : lines (c :: s) = (c :: first) :: back := by
  unfold lines at rest ⊢
  rw [splitOn, if_neg other, rest]

theorem ofLines_cons_of_ne_nil {line : Text} {rest : List Text} (some : rest ≠ []) :
    ofLines (line :: rest) = line ++ '\n' :: ofLines rest := by
  obtain ⟨next, rest, rfl⟩ := List.exists_cons_of_ne_nil some
  rw [ofLines, join_cons_cons, List.append_assoc]
  rfl

theorem ofLines_append_of_ne_nil {front back : List Text} (some : front ≠ []) (some' : back ≠ []) :
    ofLines (front ++ back) = ofLines front ++ '\n' :: ofLines back := by
  induction front with
  | nil => exact absurd rfl some
  | cons line front ih =>
    cases front with
    | nil =>
      rw [List.singleton_append, ofLines_cons_of_ne_nil some']
      simp [ofLines, join]
    | cons next front =>
      have more := List.cons_ne_nil next front
      rw [List.cons_append, ofLines_cons_of_ne_nil (List.append_ne_nil_of_left_ne_nil more back),
        ih more, ofLines_cons_of_ne_nil more, List.append_assoc, List.cons_append]

/-- Texts made of lines are a text made of all these lines. -/
theorem ofLines_map_ofLines {parts : List (List Text)} (some : ∀ part ∈ parts, part ≠ []) :
    ofLines (parts.map ofLines) = ofLines parts.flatten := by
  induction parts with
  | nil => rfl
  | cons part parts ih =>
    obtain ⟨here, later⟩ := List.forall_mem_cons.mp some
    cases parts with
    | nil => simp [ofLines, join]
    | cons next parts =>
      have filled : (next :: parts).flatten ≠ [] :=
        List.append_ne_nil_of_left_ne_nil (later next List.mem_cons_self) _
      rw [List.map_cons, ofLines_cons_of_ne_nil (by simp), ih later]
      exact (ofLines_append_of_ne_nil here filled).symm

/-- Where two texts meet, the last line of one and the first of the other become one line. -/
theorem ofLines_append (front back : List Text) (last first : Text) :
    ofLines (front ++ [last]) ++ ofLines (first :: back) =
      ofLines (front ++ (last ++ first) :: back) := by
  induction front with
  | nil =>
    cases back with
    | nil => simp [ofLines, join]
    | cons next back =>
      rw [List.nil_append, List.nil_append, ofLines_cons_of_ne_nil (List.cons_ne_nil next back),
        ofLines_cons_of_ne_nil (List.cons_ne_nil next back)]
      simp [ofLines, join]
  | cons line front ih =>
    have left : front ++ [last] ≠ [] := by simp
    have whole : front ++ (last ++ first) :: back ≠ [] := by simp
    rw [List.cons_append, List.cons_append, ofLines_cons_of_ne_nil left,
      ofLines_cons_of_ne_nil whole, ← ih, List.append_assoc, List.cons_append]

/-- Lines without line breaks in them are the lines of the text that they make up. -/
theorem lines_ofLines {ls : List Text} (plain : ∀ line ∈ ls, '\n' ∉ line) (some : ls ≠ []) :
    lines (ofLines ls) = ls := by
  rw [lines, splitOn_eq]
  exact List.splitOn_intercalate '\n' plain some

/-- The last line of a text and the first line of the text behind it are one line. -/
theorem lines_append {front back : List Text} {last first : Text}
    (left : lines s = front ++ [last]) (right : lines t = first :: back) :
    lines (s ++ t) = front ++ (last ++ first) :: back := by
  have plain (line : Text) (member : line ∈ lines s ∨ line ∈ lines t) : '\n' ∉ line :=
    member.elim not_mem_of_mem_lines not_mem_of_mem_lines
  rw [left, right] at plain
  rw [← ofLines_lines s, ← ofLines_lines t, left, right, ofLines_append]
  refine lines_ofLines (fun line member => ?_) (by simp)
  rcases List.mem_append.mp member with before | member
  · exact plain line (.inl (List.mem_append_left _ before))
  · rcases List.mem_cons.mp member with rfl | after
    · rw [List.mem_append, not_or]
      exact ⟨plain last (.inl (by simp)), plain first (.inr List.mem_cons_self)⟩
    · exact plain line (.inr (List.mem_cons_of_mem _ after))

/-- Where the lines have line breaks in them, their own lines are those of the whole text. -/
theorem lines_ofLines_flatMap {ts : List Text} (some : ts ≠ []) :
    lines (ofLines ts) = ts.flatMap lines := by
  induction ts with
  | nil => exact absurd rfl some
  | cons t ts ih =>
    cases ts with
    | nil => simp [ofLines, join]
    | cons next ts =>
      rw [ofLines_cons_of_ne_nil (List.cons_ne_nil next ts), lines_newline,
        ih (List.cons_ne_nil next ts)]
      rfl

end Stencil.Text
