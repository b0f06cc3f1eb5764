import Stencil.Proofs.Text.Token

/-!
# Texts that rise

Whatever a stage writes into a text begins with an opening bracket, where none was.  So if brackets
stand above all other characters, a text that a stage changes rises in the order of the dictionary,
and no later stage can bring it down again (`Rises.trans`, `Rises.ne`).  A chain of stages therefore
leaves a text as it is only if each of them does (`LiftsAt.comp`).

Two things make up the fine print.  A paragraph may be written before a bracket, and is then told
by its name, which stands above the names behind that bracket.  And where texts have stand-ins, they
must not begin to differ inside one, so that they rise as well when the stand-ins are filled.
-/

namespace Stencil

def standInChars : List Char := allStandIns.map StandIn.opening ++ allStandIns.map StandIn.closing

/-- How high a character stands. -/
def height (c : Char) : Nat := if c = '<' then 2 else if c = 'p' then 1 else 0

/-- Whether a digit may stand at the end of a text without belonging to a stand-in. -/
def EndsOutside (u : Text) : Prop := ∀ e ∈ u.getLast?, isDigit e = false ∧ e ∉ standInChars

/-- Whether a text that goes on with `c` after `u` may go on with `d` and `y` instead without
regard to stand-ins: `c` belongs to none, or it begins the stand-in for code at which a paragraph
begins. -/
def Replaceable (u : Text) (c d : Char) (y : Text) : Prop :=
  (c ∉ standInChars ∧ (isDigit c = true → EndsOutside u)) ∨
    (c = Code.inline.opening ∧ d = '<' ∧ ∃ e ∈ y.head?, 0 < height e)

/-- Whether a text rises to another: where they first differ, the other has a higher character. -/
def Rises (s t : Text) : Prop :=
  ∃ u c x d y, s = u ++ c :: x ∧ t = u ++ d :: y ∧ height c < height d ∧ Replaceable u c d y

variable {s t v w : Text} {c d : Char}

theorem height_le (c : Char) : height c ≤ 2 := by
  unfold height
  split
  · exact Nat.le_refl 2
  · split <;> decide

namespace Rises

/-- A text begins to rise where a bracket takes the place of another character. -/
theorem of_bracket {x y : Text} (other : c ≠ '<') (plain : c ∉ standInChars) :
    Rises (c :: x) ('<' :: y) := by
  refine ⟨[], c, x, '<', y, rfl, rfl, ?_, .inl ⟨plain, fun _ => by simp [EndsOutside]⟩⟩
  rw [height, if_neg other]
  split <;> decide

/-- As `of_bracket`, for characters of a kind to which neither brackets nor stand-ins belong. -/
theorem of_first {p : Char → Bool} {x y : Text} (first : p c = true)
    (apart : ∀ d ∈ '<' :: standInChars, p d = false) : Rises (c :: x) ('<' :: y) := by
  have other {d : Char} (member : d ∈ '<' :: standInChars) : c ≠ d := by
    rintro rfl
    simp [apart c member] at first
  exact of_bracket (other List.mem_cons_self) fun member =>
    other (List.mem_cons_of_mem _ member) rfl

/-- A text rises to none that goes on behind it. -/
theorem not_isPrefix (h : Rises s t) : ¬s <+: t := by
  obtain ⟨u, c, x, d, y, rfl, rfl, higher, _⟩ := h
  intro start
  obtain ⟨rfl, _⟩ := List.cons_prefix_cons.mp ((List.prefix_append_right_inj u).mp start)
  exact Nat.lt_irrefl _ higher

theorem ne (h : Rises s t) : s ≠ t := fun same => h.not_isPrefix (same ▸ List.prefix_refl s)

/-- Rising is transitive. -/
theorem trans (h : Rises s t) (h' : Rises t v) : Rises s v := by
  obtain ⟨u, c, x, d, y, rfl, rfl, higher, free⟩ := h
  obtain ⟨u', c', x', d', y', split, rfl, higher', free'⟩ := h'
  rcases Text.append_cons_eq_append_cons split with ⟨a, rfl, rfl⟩ | ⟨rfl, rfl, rfl⟩ | ⟨a, rfl, rfl⟩
  · -- The first change comes first, and the second may be in what it brought.
    refine ⟨u, c, x, d, a ++ d' :: y', rfl, by simp, higher, free.imp_right ?_⟩
    rintro ⟨code, bracket, e, first, above⟩
    refine ⟨code, bracket, ?_⟩
    cases a with
    | nil =>
      obtain rfl := Option.some.inj first
      exact ⟨d', rfl, Nat.zero_lt_of_lt higher'⟩
    | cons f a => exact ⟨e, first, above⟩
  · refine ⟨u, c, x, d', y', rfl, rfl, higher.trans higher', free.imp_right ?_⟩
    rintro ⟨_, rfl, _⟩
    exact absurd higher' (Nat.not_lt.mpr (height_le d'))
  · exact ⟨u', c', a ++ c :: x, d', y', by simp, rfl, higher', free'⟩

theorem append (h : Rises s t) (v v' : Text) : Rises (s ++ v) (t ++ v') := by
  obtain ⟨u, c, x, d, y, rfl, rfl, higher, free⟩ := h
  refine ⟨u, c, x ++ v, d, y ++ v', by simp, by simp, higher, free.imp_right ?_⟩
  rintro ⟨code, bracket, e, first, above⟩
  refine ⟨code, bracket, e, ?_, above⟩
  cases y with
  | nil => simp at first
  | cons f y => exact first

/-- What stands before rising texts does not matter, unless it may end in a stand-in. -/
theorem append_left (w : Text) (h : Rises s t)
    (apart : (∀ c ∈ s.head?, isDigit c = false) ∨ EndsOutside w) :
    Rises (w ++ s) (w ++ t) := by
  obtain ⟨u, c, x, d, y, rfl, rfl, higher, free⟩ := h
  refine ⟨w ++ u, c, x, d, y, by simp, by simp, higher, free.imp_left ?_⟩
  rintro ⟨plain, line⟩
  refine ⟨plain, fun digit e last => ?_⟩
  rcases List.eq_nil_or_concat' u with rfl | ⟨u, f, rfl⟩
  · rcases apart with other | ended
    · simp [other c rfl] at digit
    · exact ended e (by simpa using last)
  · refine line digit e ?_
    simpa [← List.append_assoc] using last

/-- A text rises as well to what is left when characters are dropped that it has not. -/
theorem filter {keep : Char → Bool} (h : Rises s t) (kept : ∀ c ∈ s, keep c = true)
    (high : ∀ c, 0 < height c → keep c = true) : Rises s (t.filter keep) := by
  obtain ⟨u, c, x, d, y, rfl, rfl, higher, free⟩ := h
  have same : u.filter keep = u := List.filter_eq_self.mpr fun c member => kept c (by simp [member])
  refine ⟨u, c, x, d, y.filter keep, rfl, ?_, higher, free.imp_right ?_⟩
  · rw [List.filter_append, same, List.filter_cons_of_pos (high d (Nat.zero_lt_of_lt higher))]
  · rintro ⟨code, bracket, e, first, above⟩
    refine ⟨code, bracket, e, ?_, above⟩
    obtain ⟨y, rfl⟩ : ∃ y', y = e :: y' := by
      cases y with
      | nil => simp at first
      | cons f y => exact ⟨y, by simpa using first⟩
    rw [List.filter_cons_of_pos (high e above)]
    rfl

/-- What stands behind the place where a text rises does not matter. -/
theorem change_tail {p : Char → Bool} {r r' : Text} (h : Rises s (w ++ r))
    (far : s.countP p + 1 < w.countP p) : Rises s (w ++ r') := by
  obtain ⟨u, c, x, d, y, rfl, split, higher, free⟩ := h
  rw [List.countP_append] at far
  rcases List.append_eq_append_iff.mp split with ⟨a, rfl, _⟩ | ⟨a, rfl, rest⟩
  · rw [List.countP_append] at far
    omega
  · have long : 2 ≤ a.length := by
      have some := List.countP_le_length (p := p) (l := a)
      rw [List.countP_append] at far
      omega
    obtain ⟨f, e, a, rfl⟩ : ∃ f e a', a = f :: e :: a' := by
      cases a with
      | nil => simp at long
      | cons f a =>
        cases a with
        | nil => simp at long
        | cons e a => exact ⟨f, e, a, rfl⟩
    obtain ⟨rfl, rfl⟩ := List.cons.inj rest
    exact ⟨u, c, x, d, e :: a ++ r', rfl, by simp, higher, free⟩

end Rises

/-- Whether lines rise: after some that are the same, a line rises to another. -/
inductive LinesRise : List Text → List Text → Prop where
  | here {line line' : Text} (rises : Rises line line') (rest rest' : List Text) :
    LinesRise (line :: rest) (line' :: rest')
  | later (line : Text) {rest rest' : List Text} (rises : LinesRise rest rest') :
    LinesRise (line :: rest) (line :: rest')

theorem ofLines_cons (rest : List Text) :
    ∃ after, ∀ line, Text.ofLines (line :: rest) = line ++ after := by
  cases rest with
  | nil => exact ⟨[], fun _ => by simp [Text.ofLines, Text.join]⟩
  | cons next rest =>
    exact ⟨['\n'] ++ Text.ofLines (next :: rest), fun _ => by
      rw [Text.ofLines, Text.join_cons_cons, List.append_assoc]
      rfl⟩

/-- A text rises if its lines do. -/
theorem LinesRise.rises {lines lines' : List Text} (h : LinesRise lines lines') :
    Rises (Text.ofLines lines) (Text.ofLines lines') := by
  induction h with
  | here rises rest rest' =>
    obtain ⟨after, split⟩ := ofLines_cons rest
    obtain ⟨after', split'⟩ := ofLines_cons rest'
    rw [split, split']
    exact rises.append after after'
  | later line rises ih =>
    rename_i rest rest'
    have split {rest : List Text} (some : rest ≠ []) :
        Text.ofLines (line :: rest) = (line ++ ['\n']) ++ Text.ofLines rest := by
      obtain ⟨next, rest, rfl⟩ := List.exists_cons_of_ne_nil some
      exact Text.join_cons_cons _ _ _ _
    have some : rest ≠ [] ∧ rest' ≠ [] := by cases rises <;> simp
    rw [split some.1, split some.2]
    refine ih.append_left _ (.inr fun e last => ?_)
    obtain rfl : '\n' = e := by simpa using last
    decide

/-- Whether a stage leaves a text as it is if the text is quiet, and lets it rise otherwise. -/
structure LiftsAt (stage : Text → Text) (quiet : Text → Prop) (s : Text) : Prop where
  eq_self : quiet s → stage s = s
  rises : ¬quiet s → Rises s (stage s)

namespace LiftsAt

variable {stage stage' : Text → Text} {quiet quiet' : Text → Prop}

theorem eq_self_iff (lifts : LiftsAt stage quiet s) : stage s = s ↔ quiet s := by
  refine ⟨fun same => ?_, lifts.eq_self⟩
  by_contra loud
  exact (lifts.rises loud).ne same.symm

theorem of_iff (lifts : LiftsAt stage quiet s) (same : quiet s ↔ quiet' s) :
    LiftsAt stage quiet' s :=
  ⟨fun calm => lifts.eq_self (same.mpr calm), fun loud => lifts.rises (mt same.mp loud)⟩

/-- Where each of two stages lifts, both together do. -/
theorem comp (first : LiftsAt stage quiet s) (second : ∀ t, LiftsAt stage' quiet' t) :
    LiftsAt (fun s => stage' (stage s)) (fun s => quiet s ∧ quiet' s) s where
  eq_self := by
    rintro ⟨calm, calm'⟩
    rw [first.eq_self calm, (second s).eq_self calm']
  rises := by
    intro loud
    by_cases calm : quiet s
    · rw [first.eq_self calm]
      exact (second s).rises fun calm' => loud ⟨calm, calm'⟩
    · by_cases calm' : quiet' (stage s)
      · rw [(second _).eq_self calm']
        exact first.rises calm
      · exact (first.rises calm).trans ((second _).rises calm')

end LiftsAt

/-- A stage that compiles lines lifts, if it leaves quiet lines and lets others rise. -/
theorem liftsAt_lines {compile : List Text → List Text} {quiet : List Text → Prop}
    (leaves : quiet (Text.lines s) → compile (Text.lines s) = Text.lines s)
    (lifts : ¬quiet (Text.lines s) → LinesRise (Text.lines s) (compile (Text.lines s))) :
    LiftsAt (fun s => Text.ofLines (compile (Text.lines s))) (fun s => quiet (Text.lines s)) s where
  eq_self calm := by
    rw [leaves calm]
    exact Text.join_splitOn '\n' s
  rises loud := by
    have rises := (lifts loud).rises
    rwa [Text.ofLines, Text.lines, Text.join_splitOn] at rises

/-- Whether every find of a reader begins with one character. -/
def Reader.Begins {α : Type} (read : Reader α) (first : Char) : Prop :=
  ∀ before s value rest, read before s = some (value, rest) → ∃ find, s = first :: find ++ rest

theorem Reader.Delimited.begins {α : Type} {read : Reader α} {first : Char} {lasts : List Char}
    (delimited : read.Delimited [first] lasts) : read.Begins first :=
  fun before s value rest found => by
    obtain ⟨c, middle, last, rfl, opens, _⟩ := delimited before s value rest found
    obtain rfl := List.mem_singleton.mp opens
    exact ⟨middle ++ [last], by simp⟩

namespace Text

variable {α : Type} {read : Reader α} {write : Text → α → Text}

/-- Finds are the values of the pieces that are not single characters. -/
theorem mem_finds {value : α} :
    value ∈ finds read s ↔ ∃ source, .found source value ∈ scan read s := by
  rw [finds, List.mem_filterMap]
  constructor
  · rintro ⟨piece, member, same⟩
    cases piece with
    | plain c => simp at same
    | found source value' =>
      obtain rfl := Option.some.inj same
      exact ⟨source, member⟩
  · rintro ⟨source, member⟩
    exact ⟨_, member, rfl⟩

/-- A text in which nothing is found is passed over. -/
theorem scan_eq_plain_of_finds (none : finds read s = []) : scan read s = s.map .plain := by
  have plain : ∀ pieces : List (Piece α), (∀ source value, .found source value ∉ pieces) →
      pieces = (pieces.flatMap Piece.source).map .plain := by
    intro pieces absent
    induction pieces with
    | nil => rfl
    | cons piece pieces ih =>
      have rest := ih fun source value member => absent source value (List.mem_cons_of_mem _ member)
      cases piece with
      | plain c => exact congrArg (.plain c :: ·) rest
      | found source value => exact absurd List.mem_cons_self (absent source value)
  have scanned := plain (scan read s) fun source value member => by
    have inside : value ∈ finds read s := mem_finds.mpr ⟨source, member⟩
    simp [none] at inside
  rwa [sources_scan] at scanned

/-- Where a text is passed over, nothing is read at any place of it. -/
theorem exists_read_eq_none {before : Option Char} (some : t ≠ [])
    (passed : scanFrom read before 0 (s ++ t) = (s ++ t).map .plain) :
    ∃ before', read before' t = none := by
  induction s generalizing before with
  | nil =>
    obtain ⟨c, t, rfl⟩ := List.exists_cons_of_ne_nil some
    refine ⟨before, ?_⟩
    rw [List.nil_append, scanFrom] at passed
    cases found : read before (c :: t) with
    | none => rfl
    | some answer => simp [found] at passed
  | cons c s ih =>
    rw [List.cons_append, scanFrom] at passed
    cases found : read before (c :: (s ++ t)) with
    | none =>
      rw [found] at passed
      exact ih (List.cons.inj passed).2
    | some answer => simp [found] at passed

/-- Where one reader finds nothing, neither does one that reads at fewer places. -/
theorem finds_eq_nil_of_imp {β : Type} {read' : Reader β}
    (fewer : ∀ before s, read before s = none → read' before s = none)
    (none : finds read s = []) : finds read' s = [] := by
  have scanned := scan_eq_plain_of_finds none
  have passed : scan read' s = s.map .plain := by
    clear none
    unfold scan at scanned ⊢
    generalize (Option.none : Option Char) = before at scanned ⊢
    induction s generalizing before with
    | nil => rfl
    | cons c s ih =>
      rw [scanFrom] at scanned ⊢
      cases found : read before (c :: s) with
      | some answer => simp [found] at scanned
      | none =>
        rw [found] at scanned
        rw [fewer _ _ found]
        exact congrArg (Piece.plain c :: ·) (ih _ (List.cons.inj scanned).2)
  rw [finds, passed]
  simp

/-- Pieces in which every find is written as it stood give the text that they make up. -/
theorem ofPieces_eq_sources {pieces : List (Piece α)}
    (leaves : ∀ source value, .found source value ∈ pieces → write source value = source) :
    ofPieces write pieces = pieces.flatMap Piece.source := by
  refine List.flatMap_congr fun piece member => ?_
  cases piece with
  | plain c => rfl
  | found source value => exact leaves source value member

/-- The first of some pieces that is a find with a value of some kind. -/
theorem exists_first_found {p : α → Prop} {pieces : List (Piece α)} {source : Text} {value : α}
    (member : .found source value ∈ pieces) (holds : p value) :
    ∃ left source value right, pieces = left ++ .found source value :: right ∧ p value ∧
      ∀ source value, .found source value ∈ left → ¬p value := by
  induction pieces with
  | nil => simp at member
  | cons piece pieces ih =>
    by_cases first : ∃ source value, piece = .found source value ∧ p value
    · obtain ⟨source, value, rfl, holds⟩ := first
      exact ⟨[], source, value, pieces, rfl, holds, by simp⟩
    · rcases List.mem_cons.mp member with same | later
      · exact absurd ⟨source, value, same.symm, holds⟩ first
      · obtain ⟨left, source, value, right, rfl, holds, before⟩ := ih later
        refine ⟨piece :: left, source, value, right, rfl, holds, fun source value member => ?_⟩
        rcases List.mem_cons.mp member with same | inside
        · exact fun holds => first ⟨source, value, same.symm, holds⟩
        · exact before source value inside

/-- A stage that replaces finds lifts, if it lets every find rise that it does not leave. -/
theorem liftsAt_substitute {idle : α → Prop}
    (opens : ∀ source value, .found source value ∈ scan read s → ∀ c ∈ source.head?,
      isDigit c = false)
    (leaves : ∀ source value, .found source value ∈ scan read s → idle value →
      write source value = source)
    (lifts : ∀ source value, .found source value ∈ scan read s → ¬idle value →
      Rises source (write source value)) :
    LiftsAt (substitute read write) (fun s => ∀ value ∈ finds read s, idle value) s where
  eq_self := by
    intro calm
    rw [substitute, ofPieces_eq_sources, sources_scan]
    exact fun source value member =>
      leaves source value member (calm value (mem_finds.mpr ⟨source, member⟩))
  rises := by
    intro loud
    obtain ⟨value, found, lively⟩ : ∃ value ∈ finds read s, ¬idle value := by simpa using loud
    obtain ⟨source, member⟩ := mem_finds.mp found
    obtain ⟨left, source, value, right, split, lively, before⟩ :=
      exists_first_found (p := (¬idle ·)) member lively
    have here : .found source value ∈ scan read s := by simp [split]
    have kept : ofPieces write left = left.flatMap Piece.source :=
      ofPieces_eq_sources fun source value member =>
        leaves source value (by simp [split, member]) (not_not.mp (before source value member))
    have whole : s = left.flatMap Piece.source ++ (source ++ right.flatMap Piece.source) := by
      rw [← sources_scan read s, split, List.flatMap_append, List.flatMap_cons]
      rfl
    have replaced : substitute read write s =
        left.flatMap Piece.source ++ (write source value ++ ofPieces write right) := by
      rw [substitute, split, ofPieces_append, kept]
      rfl
    have rises := lifts source value here lively
    rw [replaced]
    nth_rewrite 1 [whole]
    refine (rises.append _ _).append_left _ (.inl fun c first => opens source value here c ?_)
    obtain ⟨u, d, x, _, _, rfl, _⟩ := rises
    cases u <;> simpa using first

/-- As `liftsAt_substitute`, where every find begins with the same character and what is written
for it with a bracket. -/
theorem liftsAt_of_begins {idle : α → Prop} {first : Char}
    (begins : read.Begins first)
    (free : isDigit first = false ∧ first ∉ standInChars ∧ first ≠ '<')
    (leaves : ∀ source value, idle value → write source value = source)
    (writes : ∀ source value, .found source value ∈ scan read s → ¬idle value →
      ∃ y, write source value = '<' :: y) :
    LiftsAt (substitute read write) (fun s => ∀ value ∈ finds read s, idle value) s := by
  have source {source : Text} {value : α} (member : .found source value ∈ scan read s) :
      ∃ x, source = first :: x := by
    obtain ⟨before, rest, found⟩ := read_of_found_mem (fun before s value rest found => by
      obtain ⟨find, rfl⟩ := begins before s value rest found
      exact ⟨first :: find, rfl, List.cons_ne_nil _ _⟩) member
    obtain ⟨find, split⟩ := begins before _ value rest found
    exact ⟨find, List.append_cancel_right split⟩
  refine liftsAt_substitute (fun _ _ member c opening => ?_) (fun s value _ => leaves s value)
    fun s value member lively => ?_
  · obtain ⟨x, rfl⟩ := source member
    obtain rfl := Option.some.inj opening
    exact free.1
  · obtain ⟨x, rfl⟩ := source member
    obtain ⟨y, written⟩ := writes _ value member lively
    rw [written]
    exact .of_bracket free.2.2 free.2.1

end Text

end Stencil
