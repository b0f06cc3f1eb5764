import Mathlib.Data.List.Infix
import Mathlib.Data.List.TakeWhile
import Stencil.Proofs.Text.Split
import Stencil.Text.StandIn

/-!
# Words that stay whole

A word that occurs in a text occurs in what is left of it when characters are dropped, in one of its
lines and so on, as long as the characters of the word are none that matter there.  A reader spares
a word if none of its finds begins or ends inside the word.  Then an occurrence of the word is
passed over as it is or lies in one find (`kept_scan`), so that replacing what the reader finds
keeps the word if every replacement does (`infix_substitute`).
-/

namespace Stencil

namespace Text

variable {w x y s : Text} {c : Char}

theorem infix_append_of_left (h : w <:+: x) (y : Text) : w <:+: x ++ y :=
  h.trans (List.prefix_append x y).isInfix

theorem infix_append_of_right (x : Text) (h : w <:+: y) : w <:+: x ++ y :=
  h.trans (List.suffix_append x y).isInfix

/-- A text that is part of another one that is put together of several.  Which part it is is found
from the way the other is written. -/
class IsPart (x s : Text) : Prop where
  isInfix : x <:+: s

namespace IsPart

instance self : IsPart x x := ⟨List.infix_rfl⟩

instance append_left [part : IsPart x s] : IsPart x (s ++ y) :=
  ⟨infix_append_of_left part.isInfix y⟩

instance append_right [part : IsPart x s] : IsPart x (y ++ s) :=
  ⟨infix_append_of_right y part.isInfix⟩

end IsPart

theorem infix_of_part [part : IsPart x s] (h : w <:+: x) : w <:+: s := h.trans part.isInfix

/-- A word lies on one side of a character that it has not. -/
theorem infix_append_cons (absent : c ∉ w) (h : w <:+: x ++ c :: y) : w <:+: x ∨ w <:+: y := by
  rcases List.infix_append_iff.mp h with left | right | ⟨front, back, rfl, left, right⟩
  · exact .inl left
  · rcases List.infix_cons_iff.mp right with start | right
    · cases w with
      | nil => exact .inl (List.nil_infix)
      | cons d w =>
        exact absurd (List.cons_prefix_cons.mp start).1 (List.ne_of_not_mem_cons absent).symm
    · exact .inr right
  · cases back with
    | nil => exact .inl (by simpa using left.isInfix)
    | cons d back =>
      obtain ⟨rfl, _⟩ := List.cons_prefix_cons.mp right
      exact absurd (List.mem_append_right _ List.mem_cons_self) absent

theorem infix_right (h : w <:+: x ++ y) (absent : ∀ c ∈ w.head?, c ∉ x) : w <:+: y := by
  rcases List.infix_append_iff.mp h with left | right | ⟨front, back, rfl, left, right⟩
  · cases w with
    | nil => exact List.nil_infix
    | cons c w => exact absurd (left.subset List.mem_cons_self) (absent c rfl)
  · exact right
  · cases front with
    | nil => exact right.isInfix
    | cons c front => exact absurd (left.subset List.mem_cons_self) (absent c rfl)

theorem infix_left (h : w <:+: x ++ y) (absent : ∀ c ∈ w.getLast?, c ∉ y) : w <:+: x := by
  have turned : w.reverse <:+: y.reverse ++ x.reverse := by
    rw [← List.reverse_append]
    exact List.reverse_infix.mpr h
  refine List.reverse_infix.mp (infix_right turned fun c member => ?_)
  rw [List.head?_reverse] at member
  simpa using absent c member

theorem infix_dropWhile {p : Char → Bool} (h : w <:+: s) (kept : ∀ c ∈ w.head?, p c = false) :
    w <:+: s.dropWhile p := by
  rw [← List.takeWhile_append_dropWhile (p := p) (l := s)] at h
  refine infix_right h fun c first dropped => ?_
  exact absurd (List.mem_takeWhile_imp dropped) (by simp [kept c first])

theorem infix_dropEndWhile {p : Char → Bool} (h : w <:+: s)
    (kept : ∀ c ∈ w.getLast?, p c = false) : w <:+: dropEndWhile p s := by
  refine List.reverse_infix.mp ?_
  rw [dropEndWhile, List.reverse_reverse]
  exact infix_dropWhile (List.reverse_infix.mpr h) (by simpa using kept)

theorem infix_trim (h : w <:+: s) (first : ∀ c ∈ w.head?, isSpace c = false)
    (last : ∀ c ∈ w.getLast?, isSpace c = false) : w <:+: trim s :=
  infix_dropEndWhile (infix_dropWhile h first) last

theorem infix_flatMap {f : Char → Text} (h : w <:+: s) (plain : ∀ c ∈ w, f c = [c]) :
    w <:+: s.flatMap f := by
  obtain ⟨front, back, rfl⟩ := h
  have same : w.flatMap f = w := by
    rw [List.flatMap_congr plain]
    simp
  rw [List.flatMap_append, List.flatMap_append, same]
  exact ⟨_, _, rfl⟩

theorem infix_filter {p : Char → Bool} (h : w <:+: s) (kept : ∀ c ∈ w, p c = true) :
    w <:+: s.filter p := by
  have filtered := h.filter p
  rwa [List.filter_eq_self.mpr kept] at filtered

theorem join_cons_cons (sep part next : Text) (parts : List Text) :
    join sep (part :: next :: parts) = part ++ sep ++ join sep (next :: parts) :=
  List.intercalate_cons_cons

theorem splitOn_ne_nil (sep : Char) (s : Text) : splitOn sep s ≠ [] := by
  cases s with
  | nil => simp [splitOn]
  | cons c s =>
    rw [splitOn]
    split
    · simp
    · split <;> simp

/-- Joining the parts of a split text gives it back. -/
theorem join_splitOn (sep : Char) (s : Text) : join [sep] (splitOn sep s) = s := by
  induction s with
  | nil => rfl
  | cons c s ih =>
    rw [splitOn]
    cases parts : splitOn sep s with
    | nil => exact absurd parts (splitOn_ne_nil sep s)
    | cons part rest =>
      rw [parts] at ih
      split <;> rename_i same
      · rw [join_cons_cons, ih, same]
        rfl
      · cases rest with
        | nil => rw [← ih]; rfl
        | cons next rest =>
          rw [join_cons_cons] at ih
          rw [← ih]
          exact join_cons_cons [sep] (c :: part) next rest

/-- A word without the separator lies in one of the joined parts. -/
theorem exists_infix_of_join {sep : Char} {parts : List Text} (h : w <:+: join [sep] parts)
    (some : w ≠ []) (absent : sep ∉ w) : ∃ part ∈ parts, w <:+: part := by
  induction parts with
  | nil => exact absurd (List.eq_nil_of_infix_nil h) some
  | cons part parts ih =>
    cases parts with
    | nil => exact ⟨part, List.mem_cons_self, by simpa [join] using h⟩
    | cons next parts =>
      rw [join_cons_cons, List.append_assoc] at h
      rcases infix_append_cons absent h with here | later
      · exact ⟨part, List.mem_cons_self, here⟩
      · obtain ⟨found, member, inside⟩ := ih later
        exact ⟨found, List.mem_cons_of_mem _ member, inside⟩

theorem infix_flatMap_of_mem {β : Type} {a : β} {items : List β} (member : a ∈ items)
    {f : β → Text} (h : w <:+: f a) : w <:+: items.flatMap f := by
  obtain ⟨left, right, rfl⟩ := List.append_of_mem member
  rw [List.flatMap_append, List.flatMap_cons]
  exact infix_append_of_right _ (infix_append_of_left h _)

theorem exists_infix_of_splitOn {sep : Char} (h : w <:+: s) (some : w ≠ []) (absent : sep ∉ w) :
    ∃ part ∈ splitOn sep s, w <:+: part := by
  rw [← join_splitOn sep s] at h
  exact exists_infix_of_join h some absent

theorem infix_join {sep part : Text} {parts : List Text} (member : part ∈ parts) :
    part <:+: join sep parts := by
  induction parts with
  | nil => simp at member
  | cons first parts ih =>
    cases parts with
    | nil =>
      obtain rfl := List.mem_singleton.mp member
      simp [join]
    | cons next parts =>
      rw [join_cons_cons]
      rcases List.mem_cons.mp member with rfl | later
      · exact ⟨[], _, List.append_assoc _ _ _ |>.symm⟩
      · exact (ih later).trans (List.suffix_append _ _).isInfix

end Text

variable {α : Type} {read : Reader α} {w s : Text}

/-- Whether a reader cuts a word nowhere: no find begins inside the word, and none that reaches the
word ends inside it. -/
def Reader.Spares (read : Reader α) (w : Text) : Prop :=
  ∀ before s value rest, read before s = some (value, rest) → ∃ find, s = find ++ rest ∧
    find ≠ [] ∧ (∀ c ∈ find.head?, c ∉ w.tail) ∧
    ((∀ c ∈ w.head?, c ∉ find) ∨ ∀ c ∈ find.getLast?, c ∉ w.dropLast)

/-- Whether every find of a reader begins with one of some characters and ends with one of
others. -/
def Reader.Delimited (read : Reader α) (firsts lasts : List Char) : Prop :=
  ∀ before s value rest, read before s = some (value, rest) →
    ∃ first middle last, s = first :: (middle ++ last :: rest) ∧ first ∈ firsts ∧ last ∈ lasts

/-- Nothing is found within a word that is spared. -/
theorem Reader.Spares.read_eq_none (spares : read.Spares w) {t : Text} (tail : t <:+ w.tail)
    (some : t ≠ []) (before : Option Char) (back : Text) : read before (t ++ back) = none := by
  cases within : read before (t ++ back) with
  | none => rfl
  | some answer =>
    obtain ⟨find, split, nonempty, outside, _⟩ := spares before _ answer.1 answer.2 within
    obtain ⟨d, find, rfl⟩ := List.exists_cons_of_ne_nil nonempty
    obtain ⟨e, t, rfl⟩ := List.exists_cons_of_ne_nil some
    obtain ⟨rfl, _⟩ := List.cons.inj split
    exact absurd (tail.subset List.mem_cons_self) (outside _ rfl)

/-- A reader spares a word in which its finds can neither begin nor end. -/
theorem Reader.Delimited.spares {firsts lasts : List Char} (delimited : read.Delimited firsts lasts)
    (begins : ∀ c ∈ firsts, c ∉ w.tail) (ends : ∀ c ∈ lasts, c ∉ w.dropLast) : read.Spares w := by
  intro before s value rest found
  obtain ⟨first, middle, last, rfl, opens, closes⟩ := delimited before s value rest found
  refine ⟨first :: (middle ++ [last]), by simp, by simp, ?_, .inr ?_⟩
  · simpa using begins first opens
  · rw [← List.cons_append, List.getLast?_concat]
    simpa using ends last closes

namespace Text

/-- Whether a word is passed over among some pieces, at a place where the reader finds nothing, or
lies in a find. -/
def Kept (read : Reader α) (w : Text) (pieces : List (Piece α)) : Prop :=
  (∃ left right before rest, pieces = left ++ w.map .plain ++ right ∧
    read before (w ++ rest) = none) ∨
  ∃ source value, .found source value ∈ pieces ∧ w <:+: source

theorem Kept.cons {pieces : List (Piece α)} (kept : Kept read w pieces) (piece : Piece α) :
    Kept read w (piece :: pieces) := by
  rcases kept with ⟨left, right, before, rest, rfl, nothing⟩ | ⟨source, value, member, inside⟩
  · exact .inl ⟨piece :: left, right, before, rest, rfl, nothing⟩
  · exact .inr ⟨source, value, List.mem_cons_of_mem _ member, inside⟩

/-- A find that reaches a word and does not end inside it takes all of it. -/
theorem infix_of_uncut {front find rest back : Text} (split : front ++ w ++ back = find ++ rest)
    (reaches : front.length < find.length)
    (uncut : (∀ c ∈ w.head?, c ∉ find) ∨ ∀ c ∈ find.getLast?, c ∉ w.dropLast) : w <:+: find := by
  rw [List.append_assoc] at split
  rcases List.append_eq_append_iff.mp split with ⟨more, rfl, rest'⟩ | ⟨more, rfl, _⟩
  · rcases List.append_eq_append_iff.mp rest' with ⟨extra, rfl, _⟩ | ⟨missing, rfl, _⟩
    · exact ⟨front, extra, List.append_assoc _ _ _⟩
    · cases more with
      | nil => simp at reaches
      | cons c more =>
        rcases uncut with outside | ends
        · exact absurd (List.mem_append_right front List.mem_cons_self) (outside c rfl)
        · cases missing with
          | nil => exact ⟨front, [], by simp⟩
          | cons d missing =>
            -- The last character of the find is one of the word, and not the last of it.
            have last := List.getLast_mem (List.cons_ne_nil c more)
            refine absurd ?_ (ends ((c :: more).getLast (List.cons_ne_nil c more)) ?_)
            · rw [List.dropLast_append_of_ne_nil (List.cons_ne_nil d missing)]
              exact List.mem_append_left _ last
            · rw [List.getLast?_append_of_ne_nil _ (List.cons_ne_nil c more)]
              exact List.getLast?_eq_some_getLast _
  · rw [List.length_append] at reaches
    omega

/-- Every occurrence of a word that is spared is kept by the scan. -/
theorem kept_scanFrom (spares : read.Spares w) (filled : w ≠ []) (before : Option Char) {skip : Nat}
    {front : Text} (ahead : skip ≤ front.length) (back : Text) :
    Kept read w (scanFrom read before skip (front ++ w ++ back)) := by
  induction front generalizing before skip with
  | nil =>
    obtain rfl := Nat.le_zero.mp ahead
    rw [List.nil_append]
    obtain ⟨c, w, rfl⟩ := List.exists_cons_of_ne_nil filled
    cases found : read before (c :: w ++ back) with
    | some answer =>
      obtain ⟨find, split, nonempty, _, uncut⟩ := spares before _ answer.1 answer.2 found
      have inside : c :: w <:+: find :=
        @infix_of_uncut (c :: w) [] find answer.2 back split (List.length_pos_iff.mpr nonempty)
          uncut
      rw [List.cons_append] at found split ⊢
      rw [scanFrom_of_read found split nonempty]
      exact .inr ⟨find, answer.1, List.mem_cons_self, inside⟩
    | none =>
      -- Nothing is found later in the word either, so all of it is passed over.
      have nothing (t : Text) (tail : t <:+ w) (some : t ≠ []) (before : Option Char) :=
        spares.read_eq_none tail some before back
      obtain ⟨before', passed⟩ := scanFrom_pass read nothing (some c)
      refine .inl ⟨[], scanFrom read before' 0 back, before, back, ?_, found⟩
      rw [List.cons_append] at found ⊢
      rw [scanFrom, found]
      simp [passed]
  | cons c front ih =>
    rw [List.cons_append, List.cons_append]
    cases skip with
    | succ skip => exact ih _ (Nat.le_of_succ_le_succ ahead)
    | zero =>
      cases found : read before (c :: (front ++ w ++ back)) with
      | none =>
        rw [scanFrom, found]
        exact (ih _ (Nat.zero_le _)).cons _
      | some answer =>
        obtain ⟨find, split, nonempty, _, uncut⟩ := spares before _ answer.1 answer.2 found
        rw [scanFrom_of_read found split nonempty]
        by_cases reaches : (c :: front).length < find.length
        · exact .inr ⟨find, answer.1, List.mem_cons_self, infix_of_uncut split reaches uncut⟩
        · refine (ih _ ?_).cons _
          rw [List.length_cons] at reaches
          omega

/-- Every word that is spared and occurs in a text is kept by the scan. -/
theorem kept_scan (spares : read.Spares w) (filled : w ≠ []) (h : w <:+: s) :
    Kept read w (scan read s) := by
  obtain ⟨front, back, rfl⟩ := h
  exact kept_scanFrom spares filled none (Nat.zero_le _) back

/-- A text in which nothing is read is passed over. -/
theorem scan_eq_plain (nothing : ∀ t, t <:+ s → t ≠ [] → ∀ before, read before t = none) :
    scan read s = s.map .plain := by
  obtain ⟨before, passed⟩ := @scanFrom_pass α read s [] (by simpa using nothing) none
  rw [List.append_nil] at passed
  rw [scan, passed]
  simp [scanFrom]

/-- The pieces of a text have only characters of it. -/
theorem mem_of_mem_scanFrom {before : Option Char} {piece : Piece α} {c : Char}
    (member : piece ∈ scanFrom read before 0 s) (inside : c ∈ piece.source) : c ∈ s := by
  have source := sources_scanFrom read before 0 s
  rw [List.drop_zero] at source
  rw [← source]
  exact List.mem_flatMap.mpr ⟨piece, member, inside⟩

end Text

theorem Reader.Delimited.mono {firsts lasts firsts' lasts' : List Char}
    (delimited : read.Delimited firsts lasts) (opens : firsts ⊆ firsts') (closes : lasts ⊆ lasts') :
    read.Delimited firsts' lasts' := fun before s value rest found => by
  obtain ⟨first, middle, last, split, begins, ends⟩ := delimited before s value rest found
  exact ⟨first, middle, last, split, opens begins, closes ends⟩

theorem Reader.Delimited.cuts {firsts lasts : List Char} (delimited : read.Delimited firsts lasts)
    (before : Option Char) (s : Text) (value : α) (rest : Text)
    (found : read before s = some (value, rest)) : ∃ find, s = find ++ rest ∧ find ≠ [] := by
  obtain ⟨first, middle, last, rfl, _⟩ := delimited before s value rest found
  exact ⟨first :: (middle ++ [last]), by simp, by simp⟩

theorem Reader.Delimited.scan_eq_plain {firsts lasts : List Char}
    (delimited : read.Delimited firsts lasts) (absent : ∀ c ∈ s, c ∉ firsts) :
    Text.scan read s = s.map .plain := by
  refine Text.scan_eq_plain fun t tail _ before => ?_
  cases found : read before t with
  | none => rfl
  | some answer =>
    obtain ⟨first, middle, last, rfl, opens, _⟩ := delimited before t answer.1 answer.2 found
    exact absurd opens (absent first (tail.subset List.mem_cons_self))

theorem Text.finds_of_scan_eq_plain (plain : scan read s = s.map .plain) : finds read s = [] := by
  rw [finds, plain]
  simp

/-- The source of a find, where finds are delimited. -/
theorem Reader.Delimited.source {firsts lasts : List Char} (delimited : read.Delimited firsts lasts)
    {source : Text} {value : α} (member : .found source value ∈ Text.scan read s) :
    ∃ first middle last, source = first :: (middle ++ [last]) ∧ first ∈ firsts ∧ last ∈ lasts := by
  obtain ⟨before, rest, found⟩ := Text.read_of_found_mem delimited.cuts member
  obtain ⟨first, middle, last, split, opens, closes⟩ := delimited before _ value rest found
  refine ⟨first, middle, last, List.append_cancel_right (split.trans ?_), opens, closes⟩
  simp

theorem Reader.Spares.cuts (spares : read.Spares w) (before : Option Char) (s : Text) (value : α)
    (rest : Text) (found : read before s = some (value, rest)) :
    ∃ find, s = find ++ rest ∧ find ≠ [] := by
  obtain ⟨find, split, nonempty, _⟩ := spares before s value rest found
  exact ⟨find, split, nonempty⟩

namespace Text

theorem ofPieces_append (write : Text → α → Text) (pieces more : List (Piece α)) :
    ofPieces write (pieces ++ more) = ofPieces write pieces ++ ofPieces write more :=
  List.flatMap_append

theorem ofPieces_map_plain (write : Text → α → Text) (s : Text) :
    ofPieces write (s.map .plain) = s := by
  rw [ofPieces, List.flatMap_map]
  simp

theorem infix_ofPieces_of_mem {pieces : List (Piece α)} {source : Text} {value : α}
    (member : .found source value ∈ pieces) (write : Text → α → Text) :
    write source value <:+: ofPieces write pieces := by
  obtain ⟨left, right, rfl⟩ := List.append_of_mem member
  rw [ofPieces_append]
  exact ⟨ofPieces write left, ofPieces write right, List.append_assoc _ _ _⟩

theorem infix_ofPieces {write : Text → α → Text} {pieces : List (Piece α)}
    (kept : Kept read w pieces)
    (keeps : ∀ source value, .found source value ∈ pieces → w <:+: source →
      w <:+: write source value) : w <:+: ofPieces write pieces := by
  rcases kept with ⟨left, right, _, _, rfl, _⟩ | ⟨source, value, member, inside⟩
  · rw [ofPieces_append, ofPieces_append, ofPieces_map_plain]
    exact ⟨_, _, rfl⟩
  · exact (keeps source value member inside).trans (infix_ofPieces_of_mem member write)

/-- A word that is passed over is in one of the texts around the finds. -/
theorem exists_infix_around (left right : List (Piece α)) :
    ∃ t ∈ around (left ++ w.map .plain ++ right), w <:+: t := by
  induction left with
  | nil =>
    rw [List.nil_append, around_map_plain_append]
    exact ⟨_, List.mem_cons_self, (List.prefix_append w _).isInfix⟩
  | cons piece left ih =>
    obtain ⟨t, member, inside⟩ := ih
    cases piece with
    | plain c =>
      rcases List.mem_cons.mp member with rfl | later
      · exact ⟨_, List.mem_cons_self, inside.trans (List.suffix_cons c _).isInfix⟩
      · exact ⟨t, List.mem_cons_of_mem _ later, inside⟩
    | found source value => exact ⟨t, List.mem_cons_of_mem _ member, inside⟩

theorem exists_part_of_mem {pieces : List (Piece α)} {source : Text} {value : α}
    (member : .found source value ∈ pieces) : ∃ part ∈ (parts pieces).2, part.1.1 = source := by
  induction pieces with
  | nil => simp at member
  | cons piece pieces ih =>
    cases piece with
    | plain c =>
      rcases List.mem_cons.mp member with same | later
      · simp at same
      · exact ih later
    | found source' value' =>
      rcases List.mem_cons.mp member with same | later
      · obtain ⟨rfl, rfl⟩ := Piece.found.inj same
        exact ⟨_, List.mem_cons_self, rfl⟩
      · obtain ⟨part, there, same⟩ := ih later
        exact ⟨part, List.mem_cons_of_mem _ there, same⟩

theorem infix_weave {around between : List Text} {v : Text} (member : v ∈ between)
    (length : around.length = between.length + 1) : v <:+: weave around between := by
  induction between generalizing around with
  | nil => simp at member
  | cons u between ih =>
    obtain ⟨s, around, rfl⟩ := List.exists_cons_of_length_eq_add_one length
    rw [weave]
    rcases List.mem_cons.mp member with rfl | later
    · exact infix_append_of_left (infix_append_of_right s List.infix_rfl) _
    · exact infix_append_of_right _ (ih later (by simpa using length))

/-- Replacing finds keeps a word that the reader spares, if every replacement does. -/
theorem infix_substitute {write : Text → α → Text} (spares : read.Spares w) (filled : w ≠ [])
    (h : w <:+: s)
    (keeps : ∀ before source value rest, read before (source ++ rest) = some (value, rest) →
      w <:+: source → w <:+: write source value) : w <:+: substitute read write s := by
  refine infix_ofPieces (kept_scan spares filled h) fun source value member inside => ?_
  obtain ⟨before, rest, found⟩ := read_of_found_mem spares.cuts member
  exact keeps before source value rest found inside

end Text

namespace StandIn

variable {kind : StandIn} {write : Text → α → Text}

theorem place_plain_append (s : Text) (n : Nat) (pieces : List (Piece α)) :
    kind.place write n (s.map .plain ++ pieces) =
      (s ++ (kind.place write n pieces).1, (kind.place write n pieces).2) := by
  induction s with
  | nil => rfl
  | cons c s ih => simp [place, ih]

/-- A word stays in the text in which stand-ins are placed, or it is in a part that was taken out
and whose stand-in is in the text. -/
theorem infix_place {pieces : List (Piece α)} (kept : Text.Kept read w pieces)
    (keeps : ∀ source value, .found source value ∈ pieces → w <:+: source →
      w <:+: write source value) (n : Nat) :
    w <:+: (kind.place write n pieces).1 ∨
      ∃ i part, (kind.place write n pieces).2[i]? = some part ∧ w <:+: part ∧
        kind.token (n + i) <:+: (kind.place write n pieces).1 := by
  rcases kept with ⟨left, right, _, _, rfl, _⟩ | ⟨source, value, member, inside⟩
  · left
    clear keeps
    induction left generalizing n with
    | nil =>
      rw [List.nil_append, place_plain_append]
      exact (List.prefix_append w _).isInfix
    | cons piece left ih =>
      cases piece with
      | plain c => exact (ih n).trans (List.suffix_cons c _).isInfix
      | found source value => exact (ih (n + 1)).trans (List.suffix_append _ _).isInfix
  · right
    have written := keeps source value member inside
    clear keeps
    induction pieces generalizing n with
    | nil => simp at member
    | cons piece pieces ih =>
      rcases List.mem_cons.mp member with rfl | later
      · exact ⟨0, _, rfl, written, (List.prefix_append _ _).isInfix⟩
      · cases piece with
        | plain c =>
          obtain ⟨i, part, there, inside, token⟩ := ih n later
          exact ⟨i, part, there, inside, token.trans (List.suffix_cons c _).isInfix⟩
        | found source value =>
          obtain ⟨i, part, there, inside, token⟩ := ih (n + 1) later
          refine ⟨i + 1, part, there, inside, ?_⟩
          rw [show n + (i + 1) = n + 1 + i by omega]
          exact token.trans (List.suffix_append _ _).isInfix

/-- Where finds begin with a character of some and stand-ins hold none of these, a part takes one
of them away, so that there are no more parts than such characters. -/
theorem length_place {characters : List Char} {pieces : List (Piece α)}
    (begins : ∀ source value, .found source value ∈ pieces → ∃ c ∈ source, c ∈ characters)
    (token : ∀ n, ∀ c ∈ kind.token n, c ∉ characters) (n : Nat) :
    (kind.place write n pieces).2.length + (kind.place write n pieces).1.countP (· ∈ characters) ≤
      (pieces.flatMap Piece.source).countP (· ∈ characters) := by
  induction pieces generalizing n with
  | nil => exact Nat.le_refl 0
  | cons piece pieces ih =>
    have rest (n : Nat) := ih (fun source value member =>
      begins source value (List.mem_cons_of_mem _ member)) n
    rw [List.flatMap_cons, List.countP_append]
    cases piece with
    | plain c =>
      have rest := rest n
      simp only [place, List.countP_cons, Piece.source, List.countP_nil]
      omega
    | found source value =>
      have rest := rest (n + 1)
      obtain ⟨c, inside, known⟩ := begins source value List.mem_cons_self
      have some : 0 < source.countP (· ∈ characters) :=
        List.countP_pos_iff.mpr ⟨c, inside, by simpa using known⟩
      have none : (kind.token n).countP (· ∈ characters) = 0 :=
        List.countP_eq_zero.mpr fun c member => by simpa using token n c member
      simp only [place, List.length_cons, List.countP_append, Piece.source]
      omega

/-- As `length_place`, for the finds of a delimited reader. -/
theorem length_place_scan {characters firsts lasts : List Char}
    (delimited : read.Delimited firsts lasts) (begins : ∀ c ∈ firsts, c ∈ characters)
    (token : ∀ n, ∀ c ∈ kind.token n, c ∉ characters) (n : Nat) :
    (kind.place write n (Text.scan read s)).2.length +
        (kind.place write n (Text.scan read s)).1.countP (· ∈ characters) ≤
      s.countP (· ∈ characters) := by
  refine (length_place (fun source value member => ?_) token n).trans_eq ?_
  · obtain ⟨first, middle, last, rfl, opens, _⟩ := delimited.source member
    exact ⟨first, List.mem_cons_self, begins first opens⟩
  · rw [Text.sources_scan]

theorem lt_countP_of_place {characters firsts lasts : List Char}
    (delimited : read.Delimited firsts lasts) (begins : ∀ c ∈ firsts, c ∈ characters)
    (token : ∀ n, ∀ c ∈ kind.token n, c ∉ characters) {n i : Nat} {part : Text}
    (there : (kind.place write n (Text.scan read s)).2[i]? = some part) :
    i < s.countP (· ∈ characters) := by
  have count :=
    @length_place_scan α read s kind write characters firsts lasts delimited begins token n
  have inside := (List.getElem?_eq_some_iff.mp there).1
  omega

/-- A text with stand-ins has no characters but those of the text and of its stand-ins. -/
theorem mem_place {pieces : List (Piece α)} {n : Nat} {c : Char}
    (member : c ∈ (kind.place write n pieces).1) :
    c ∈ pieces.flatMap Piece.source ∨ ∃ i, c ∈ kind.token i := by
  induction pieces generalizing n with
  | nil => simp [place] at member
  | cons piece pieces ih =>
    cases piece with
    | plain d =>
      rcases List.mem_cons.mp member with rfl | later
      · exact .inl List.mem_cons_self
      · exact (ih later).imp_left (List.mem_append_right _)
    | found source value =>
      rcases List.mem_append.mp member with token | later
      · exact .inr ⟨n, token⟩
      · exact (ih later).imp_left (List.mem_append_right _)

/-- A word without the character that begins stand-ins stands where it stood in the source. -/
theorem prefix_of_place {pieces : List (Piece α)} {n : Nat} (absent : kind.opening ∉ w)
    (h : w <+: (kind.place write n pieces).1) : w <+: pieces.flatMap Piece.source := by
  induction pieces generalizing n w with
  | nil => exact h
  | cons piece pieces ih =>
    cases w with
    | nil => exact List.nil_prefix
    | cons c w =>
      cases piece with
      | plain d =>
        obtain ⟨rfl, rest⟩ := List.cons_prefix_cons.mp h
        exact List.cons_prefix_cons.mpr ⟨rfl, ih (fun member =>
          absent (List.mem_cons_of_mem _ member)) rest⟩
      | found source value =>
        obtain ⟨rfl, _⟩ := List.cons_prefix_cons.mp h
        exact absurd List.mem_cons_self absent

/-- A word that no stand-in can begin or be part of was in the text before. -/
theorem infix_of_place {pieces : List (Piece α)} {n : Nat} (absent : kind.opening ∉ w)
    (first : ∀ c ∈ w.head?, ∀ i, c ∉ kind.token i) (h : w <:+: (kind.place write n pieces).1) :
    w <:+: pieces.flatMap Piece.source := by
  induction pieces generalizing n with
  | nil => exact h
  | cons piece pieces ih =>
    cases piece with
    | plain c =>
      rcases List.infix_cons_iff.mp h with start | later
      · exact (@prefix_of_place α w kind write (.plain c :: pieces) n absent start).isInfix
      · exact (ih later).trans (List.suffix_cons c _).isInfix
    | found source value =>
      have later := Text.infix_right h fun c member => first c member n
      exact Text.infix_append_of_right source (ih later)

end StandIn

end Stencil
