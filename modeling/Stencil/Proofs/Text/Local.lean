import Stencil.Proofs.Text.Weave

/-!
# Readers that see no further than their finds

The readers of placeholders decide on a find by the text of the find alone, and an opening bracket
can stand at the start of a find only (`Reader.Local`).  For such a reader no find can begin in one
text and run on into a bracket that follows it.  So texts in which it finds nothing, woven with
tokens that begin with a bracket, are cut back into the same texts and tokens (`scanFrom_weave`).
-/

namespace Stencil

variable {α : Type}

/-- A reader is local if it finds something by the text of the find alone, whatever stands around
it, and a find has no opening bracket after its first character. -/
def Reader.Local (read : Reader α) : Prop :=
  ∀ before s value rest, read before s = some (value, rest) →
    ∃ find, s = find ++ rest ∧ find ≠ [] ∧ '<' ∉ find.tail ∧
      ∀ before' more, (read before' (find ++ more)).isSome

namespace Text

@[simp] theorem after?_append (start rest : Text) : after? start (start ++ rest) = some rest := by
  induction start with
  | nil => rfl
  | cons c start ih => simpa [after?] using ih

theorem after?_eq_some {start s rest : Text} (h : after? start s = some rest) :
    s = start ++ rest := by
  fun_induction after? start s with
  | case1 s => simpa using h
  | case2 => simp at h
  | case3 start c s ih => simpa using ih h
  | case4 a start c s differ => simp at h

theorem afterFolded?_append {fold : Char → Char} {start found : Text} (rest : Text)
    (h : found.map fold = start) : afterFolded? fold start (found ++ rest) = some rest := by
  subst h
  induction found with
  | nil => rfl
  | cons c found ih => simpa [afterFolded?] using ih

theorem afterFolded?_eq_some {fold : Char → Char} {start s rest : Text}
    (h : afterFolded? fold start s = some rest) :
    ∃ found, found.map fold = start ∧ s = found ++ rest := by
  fun_induction afterFolded? fold start s with
  | case1 s => exact ⟨[], rfl, by simpa using h⟩
  | case2 => simp at h
  | case3 start c s ih =>
    obtain ⟨found, rfl, rfl⟩ := ih h
    exact ⟨c :: found, rfl, rfl⟩
  | case4 a start c s differ => simp at h

/-- Whether a text holds nothing that a reader finds, at any place. -/
def Clear (read : Reader α) (s : Text) : Prop := ∀ t, t <:+ s → read none t = none

/-- Whether a text begins with an opening bracket, if it has a beginning. -/
def BracketFirst (s : Text) : Prop := ∀ c ∈ s.head?, c = '<'

theorem parts_map_plain_append (s : Text) (pieces : List (Piece α)) :
    parts (s.map .plain ++ pieces) = (s ++ (parts pieces).1, (parts pieces).2) := by
  induction s with
  | nil => rfl
  | cons c s ih => simp [parts, ih]

theorem foundValues_map_plain_append (s : Text) (pieces : List (Piece α)) :
    foundValues (s.map .plain ++ pieces) = foundValues pieces := by
  rw [foundValues, parts_map_plain_append, foundValues]

theorem around_map_plain_append (s : Text) (pieces : List (Piece α)) :
    around (s.map .plain ++ pieces) = (s ++ (parts pieces).1) :: (around pieces).tail := by
  rw [around, parts_map_plain_append]
  rfl

/-- There are at most as many finds as characters. -/
theorem length_foundValues_le (read : Reader α) (before : Option Char) (skip : Nat) (s : Text) :
    (foundValues (scanFrom read before skip s)).length ≤ s.length := by
  induction s generalizing before skip with
  | nil => cases skip <;> exact Nat.le_refl 0
  | cons c s ih =>
    cases skip with
    | succ skip => exact Nat.le_succ_of_le (ih (some c) skip)
    | zero =>
      rw [scanFrom]
      cases read before (c :: s) with
      | none => exact Nat.le_succ_of_le (ih (some c) 0)
      | some answer => exact Nat.succ_le_succ (ih (some c) (excess s answer.2))

/-- Characters at which nothing is found are passed over. -/
theorem scanFrom_pass (read : Reader α) {s w : Text}
    (nothing : ∀ t, t <:+ s → t ≠ [] → ∀ before, read before (t ++ w) = none)
    (before : Option Char) :
    ∃ before', scanFrom read before 0 (s ++ w) = s.map .plain ++ scanFrom read before' 0 w := by
  induction s generalizing before with
  | nil => exact ⟨before, rfl⟩
  | cons c s ih =>
    have here := nothing (c :: s) List.suffix_rfl (List.cons_ne_nil c s) before
    obtain ⟨before', rest⟩ :=
      ih (fun t inside => nothing t (inside.trans (List.suffix_cons c s))) (some c)
    refine ⟨before', ?_⟩
    rw [List.cons_append] at here ⊢
    rw [scanFrom, here, rest]
    rfl

/-- A reader that only begins at one character passes over a text without it. -/
theorem scanFrom_pass_of_notMem {read : Reader α} {c : Char}
    (opens : ∀ d, d ≠ c → ∀ before s, read before (d :: s) = none) {s : Text} (absent : c ∉ s)
    (w : Text) (before : Option Char) :
    ∃ before', scanFrom read before 0 (s ++ w) = s.map .plain ++ scanFrom read before' 0 w := by
  refine scanFrom_pass read (fun t inside nonempty b => ?_) before
  obtain ⟨d, t, rfl⟩ := List.exists_cons_of_ne_nil nonempty
  refine opens d (fun same => absent ?_) b (t ++ w)
  exact same ▸ inside.subset List.mem_cons_self

/-- What stands before a place makes no difference to a reader that does not look at it. -/
theorem scanFrom_before {read : Reader α}
    (blind : ∀ before before' s, read before s = read before' s) (before before' : Option Char)
    (skip : Nat) (s : Text) :
    scanFrom read before skip s = scanFrom read before' skip s := by
  cases s with
  | nil => cases skip <;> rfl
  | cons c s =>
    cases skip with
    | zero => rw [scanFrom, scanFrom, blind before before']
    | succ skip => rfl

theorem scanFrom_skip (read : Reader α) (s w : Text) (before : Option Char) :
    ∃ before', scanFrom read before s.length (s ++ w) = scanFrom read before' 0 w := by
  induction s generalizing before with
  | nil => exact ⟨before, rfl⟩
  | cons c s ih => exact ih (some c)

/-- A scan that comes to a find goes on behind it. -/
theorem scanFrom_found (read : Reader α) {p w : Text} {value : α} (nonempty : p ≠ [])
    {before : Option Char} (h : read before (p ++ w) = some (value, w)) :
    ∃ before', scanFrom read before 0 (p ++ w) = .found p value :: scanFrom read before' 0 w := by
  cases p with
  | nil => exact absurd rfl nonempty
  | cons c p =>
    obtain ⟨before', rest⟩ := scanFrom_skip read p w (some c)
    refine ⟨before', ?_⟩
    rw [List.cons_append] at h ⊢
    rw [scanFrom, h]
    simp [excess_eq, rest]

theorem cons_take_excess {c : Char} {s find rest : Text} (nonempty : find ≠ [])
    (split : c :: s = find ++ rest) : c :: s.take (excess s rest) = find := by
  cases find with
  | nil => exact absurd rfl nonempty
  | cons d find =>
    obtain ⟨rfl, rfl⟩ := List.cons.inj split
    simp [excess_eq]

variable {read : Reader α}

theorem scanFrom_of_read {before : Option Char} {c : Char} {s find rest : Text} {value : α}
    (found : read before (c :: s) = some (value, rest)) (split : c :: s = find ++ rest)
    (nonempty : find ≠ []) : scanFrom read before 0 (c :: s) =
      .found find value :: scanFrom read (some c) (find.length - 1) s := by
  have length : excess s rest = find.length - 1 := by
    have total := congrArg List.length split
    rw [List.length_cons, List.length_append] at total
    rw [excess_eq]
    omega
  rw [scanFrom, found]
  simp only [cons_take_excess nonempty split]
  rw [length]

/-- What a scan finds, it read at some place. -/
theorem read_of_found_mem (cuts : ∀ before s value rest, read before s = some (value, rest) →
      ∃ find, s = find ++ rest ∧ find ≠ []) {before : Option Char} {skip : Nat}
    {s source : Text} {value : α} (member : .found source value ∈ scanFrom read before skip s) :
    ∃ before' rest, read before' (source ++ rest) = some (value, rest) := by
  induction s generalizing before skip with
  | nil => simp [scanFrom] at member
  | cons c s ih =>
    cases skip with
    | succ skip => exact ih member
    | zero =>
      cases found : read before (c :: s) with
      | none =>
        rw [scanFrom, found] at member
        rcases List.mem_cons.mp member with same | later
        · simp at same
        · exact ih later
      | some answer =>
        obtain ⟨find, split, nonempty⟩ := cuts before _ answer.1 answer.2 found
        rw [scanFrom_of_read found split nonempty] at member
        rcases List.mem_cons.mp member with same | later
        · obtain ⟨rfl, rfl⟩ := Piece.found.inj same
          exact ⟨before, answer.2, split ▸ found⟩
        · exact ih later

theorem read_of_mem_foundSources (isLocal : Reader.Local read) {source : Text}
    {before : Option Char} {skip : Nat} {s : Text}
    (h : source ∈ foundSources (scanFrom read before skip s)) :
    ∃ before rest value, read before (source ++ rest) = some (value, rest) := by
  obtain ⟨part, there, rfl⟩ := List.mem_map.mp h
  obtain ⟨before, rest, found⟩ := read_of_found_mem (fun before s value rest found => by
    obtain ⟨find, split, nonempty, _, _⟩ := isLocal before s value rest found
    exact ⟨find, split, nonempty⟩) (mem_of_mem_parts there)
  exact ⟨before, rest, _, found⟩

/-- A local reader finds nothing that begins in a clear text and goes on behind it. -/
theorem read_append_of_clear (isLocal : Reader.Local read) {s w : Text} (clear : read none s = none)
    (nonempty : s ≠ []) (bracket : BracketFirst w) (before : Option Char) :
    read before (s ++ w) = none := by
  cases found : read before (s ++ w) with
  | none => rfl
  | some answer =>
    obtain ⟨value, rest⟩ := answer
    -- The find cannot lie inside the clear text, and to leave it, it would have to pass a bracket.
    obtain ⟨find, split, _, noBracket, again⟩ := isLocal _ _ _ _ found
    have inside (more : Text) : s ≠ find ++ more := by
      intro same
      have := again none more
      rw [← same, clear] at this
      exact Bool.false_ne_true this
    rcases List.append_eq_append_iff.mp split with ⟨more, rfl, rest_eq⟩ | ⟨more, same, _⟩
    · cases more with
      | nil => exact absurd (by simp) (inside [])
      | cons c more =>
        have first : c = '<' := bracket c (by simp [rest_eq])
        rw [List.tail_append_of_ne_nil nonempty, first] at noBracket
        exact absurd (by simp) noBracket
    · exact absurd same (inside more)

theorem scanFrom_clear (isLocal : Reader.Local read) {u w : Text} (clear : Clear read u)
    (bracket : BracketFirst w) (before : Option Char) :
    ∃ before', scanFrom read before 0 (u ++ w) = u.map .plain ++ scanFrom read before' 0 w :=
  scanFrom_pass read (fun t inside nonempty =>
    read_append_of_clear isLocal (clear t inside) nonempty bracket) before

/-- A text that a scan passes over wherever it stands. -/
structure IsOpaque (read : Reader α) (s : Text) : Prop where
  bracket : ∃ t, s = '<' :: t
  nothing : ∀ t, t <:+ s → t ≠ [] → ∀ before w, read before (t ++ w) = none

/-- In clear texts woven with others that are passed over nothing is found. -/
theorem foundValues_scanFrom_weave (isLocal : Reader.Local read) {us between : List Text}
    (length : us.length = between.length + 1) (clear : ∀ u ∈ us, Clear read u)
    (isOpaque : ∀ s ∈ between, IsOpaque read s) (before : Option Char) :
    foundValues (scanFrom read before 0 (weave us between)) = [] := by
  induction between generalizing us before with
  | nil =>
    obtain ⟨u, rfl⟩ := List.length_eq_one_iff.mp length
    obtain ⟨before', passed⟩ := scanFrom_clear isLocal (w := [])
      (clear u (List.mem_singleton_self u)) nofun before
    rw [List.append_nil] at passed
    rw [weave, passed, foundValues_map_plain_append]
    rfl
  | cons s between ih =>
    obtain ⟨u, us, rfl⟩ := List.exists_cons_of_length_eq_add_one length
    have here := isOpaque s List.mem_cons_self
    have bracket : BracketFirst (s ++ weave us between) := by
      obtain ⟨t, s_eq⟩ := here.bracket
      simp [BracketFirst, s_eq]
    obtain ⟨before₁, passed⟩ := scanFrom_clear isLocal (clear u List.mem_cons_self) bracket before
    obtain ⟨before₂, skipped⟩ := scanFrom_pass read (s := s) (w := weave us between)
      (fun t inside nonempty before => here.nothing t inside nonempty before _) before₁
    rw [weave, List.append_assoc, passed, skipped, foundValues_map_plain_append,
      foundValues_map_plain_append]
    exact ih (by simpa using length) (fun u member => clear u (List.mem_cons_of_mem _ member))
      (fun s member => isOpaque s (List.mem_cons_of_mem _ member)) before₂

/-- A token of a reader: a text that begins with an opening bracket and is found wherever it
stands. -/
structure IsToken (read : Reader α) (token : Text × α) : Prop where
  bracket : ∃ s, token.1 = '<' :: s
  found : ∀ before w, read before (token.1 ++ w) = some (token.2, w)

theorem IsToken.nonempty {token : Text × α} (h : IsToken read token) : token.1 ≠ [] := by
  obtain ⟨s, token_eq⟩ := h.bracket
  rw [token_eq]
  exact List.cons_ne_nil _ s

/-- Clear texts woven with tokens are cut back into the same texts and tokens. -/
theorem scanFrom_weave (isLocal : Reader.Local read) {us : List Text} {tokens : List (Text × α)}
    (length : us.length = tokens.length + 1) (clear : ∀ u ∈ us, Clear read u)
    (isToken : ∀ token ∈ tokens, IsToken read token) (before : Option Char) :
    around (scanFrom read before 0 (weave us (tokens.map Prod.fst))) = us ∧
      foundValues (scanFrom read before 0 (weave us (tokens.map Prod.fst))) =
        tokens.map Prod.snd := by
  induction tokens generalizing us before with
  | nil =>
    obtain ⟨u, rfl⟩ := List.length_eq_one_iff.mp length
    obtain ⟨before', passed⟩ := scanFrom_clear isLocal (w := [])
      (clear u (List.mem_singleton_self u)) nofun before
    rw [List.append_nil] at passed
    rw [List.map_nil, weave, passed, around_map_plain_append, foundValues_map_plain_append]
    simp [scanFrom, parts]
  | cons token tokens ih =>
    obtain ⟨u, us, rfl⟩ := List.exists_cons_of_length_eq_add_one length
    have here := isToken token List.mem_cons_self
    have all : weave (u :: us) ((token :: tokens).map Prod.fst) =
        u ++ (token.1 ++ weave us (tokens.map Prod.fst)) := by
      simp [weave]
    rw [all]
    generalize w_eq : weave us (tokens.map Prod.fst) = w
    have bracket : BracketFirst (token.1 ++ w) := by
      obtain ⟨s, token_eq⟩ := here.bracket
      simp [BracketFirst, token_eq]
    obtain ⟨before₁, passed⟩ := scanFrom_clear isLocal (clear u List.mem_cons_self) bracket before
    obtain ⟨before₂, found⟩ := scanFrom_found read here.nonempty (here.found before₁ w)
    obtain ⟨around_rest, values_rest⟩ := @ih us (by simpa using length)
      (fun u member => clear u (List.mem_cons_of_mem _ member))
      (fun token member => isToken token (List.mem_cons_of_mem _ member)) before₂
    rw [w_eq] at around_rest values_rest
    rw [passed, found, around_map_plain_append, foundValues_map_plain_append]
    simp [around_rest, values_rest, parts]

end Text

end Stencil
