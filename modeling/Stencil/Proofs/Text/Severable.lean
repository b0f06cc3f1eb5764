import Stencil.Proofs.Text.Intact

/-!
# Replacing what is found in intact texts

A text is severable if it can be cut out of every intact text without breaking a stand-in.  Readers
whose finds all are (`Reader.Severs`) leave intact texts around the finds, so that replacing the
finds by intact texts (`Intact.substitute`) or by stand-ins (`Intact.place`) gives an intact text.
Filling stand-ins with intact texts does as well (`Intact.fill`).
-/

namespace Stencil

/-- Whether a text in an intact one is intact itself and leaves intact what stands around it. -/
def Severable (N : Numbering) (u : Text) : Prop :=
  ∀ x y, Intact N (x ++ (u ++ y)) → Intact N x ∧ Intact N u ∧ Intact N y

/-- Whether whatever a reader finds is severable, and at least one character of it. -/
def Reader.Severs {α : Type} (read : Reader α) (N : Numbering) : Prop :=
  ∀ before s value rest, read before s = some (value, rest) →
    ∃ find, s = find ++ rest ∧ find ≠ [] ∧ Severable N find

variable {α : Type} {read : Reader α} {N N' : Numbering} {s u : Text} {c : Char}

theorem Severable.of_ends {first last : Char} {middle : Text} (begins : first ∉ tokenChars)
    (ends : last ∉ tokenChars) : Severable N (first :: (middle ++ [last])) := by
  intro x y h
  simp only [List.cons_append, List.append_assoc, List.nil_append, Intact.append_cons_iff begins,
    Intact.append_cons_iff ends, Intact.cons_iff begins] at h ⊢
  exact ⟨h.1, ⟨h.2.1, .nil⟩, h.2.2⟩

/-- A text in which no stand-in begins may be cut off at its end wherever it ends. -/
theorem Severable.of_unopened (begins : c ∉ tokenChars)
    (unopened : ∀ d ∈ c :: u, d ∉ N.kinds.map StandIn.opening) : Severable N (c :: u) := by
  intro x y h
  obtain ⟨left, right⟩ := h.split (.of_apart begins)
  obtain ⟨clear, behind⟩ := right.of_unopened unopened
  exact ⟨left, .of_clear clear, behind⟩

theorem Reader.Delimited.severs {firsts lasts : List Char} (delimited : read.Delimited firsts lasts)
    (begins : ∀ c ∈ firsts, c ∉ tokenChars) (ends : ∀ c ∈ lasts, c ∉ tokenChars) :
    read.Severs N := by
  intro before s value rest found
  obtain ⟨first, middle, last, rfl, opens, closes⟩ := delimited before s value rest found
  exact ⟨first :: (middle ++ [last]), by simp, by simp,
    .of_ends (begins first opens) (ends last closes)⟩

theorem Reader.Severs.severable {before : Option Char} {source rest : Text} {value : α}
    (severs : read.Severs N) (found : read before (source ++ rest) = some (value, rest)) :
    Severable N source := by
  obtain ⟨find, split, _, severable⟩ := severs before _ value rest found
  rwa [List.append_cancel_right split]

theorem Reader.Severs.exists_read {source : Text} {value : α} (severs : read.Severs N)
    (member : .found source value ∈ Text.scan read s) :
    ∃ before rest, read before (source ++ rest) = some (value, rest) := by
  refine Text.read_of_found_mem (fun before s value rest found => ?_) member
  obtain ⟨find, split, some, _⟩ := severs before s value rest found
  exact ⟨find, split, some⟩

namespace Text

/-- Replacing finds puts what they are replaced by between the texts around them. -/
theorem ofPieces_eq_parts (write : Text → α → Text) (pieces : List (Piece α)) :
    ofPieces write pieces = (parts pieces).1 ++
      (parts pieces).2.flatMap fun part => write part.1.1 part.1.2 ++ part.2 := by
  induction pieces with
  | nil => rfl
  | cons piece pieces ih =>
    cases piece with
    | plain c => exact congrArg (c :: ·) ih
    | found source value =>
      exact (congrArg (write source value ++ ·) ih).trans (List.append_assoc _ _ _).symm

end Text

namespace Intact

variable {write : Text → α → Text} {pieces : List (Piece α)} {run : Text}

/-- The texts around severable finds are intact, and so are the finds. -/
theorem parts_pieces (severable : ∀ source value, .found source value ∈ pieces →
      Severable N source) (h : Intact N (run ++ pieces.flatMap Piece.source)) :
    Intact N (run ++ (Text.parts pieces).1) ∧
      ∀ part ∈ (Text.parts pieces).2, Intact N part.1.1 ∧ Intact N part.2 := by
  induction pieces generalizing run with
  | nil => exact ⟨h, by simp [Text.parts]⟩
  | cons piece pieces ih =>
    have later (source : Text) (value : α) (member : .found source value ∈ pieces) :=
      severable source value (List.mem_cons_of_mem _ member)
    cases piece with
    | plain c =>
      have moved := @ih (run ++ [c]) later (by simpa [Piece.source] using h)
      simpa [Text.parts] using moved
    | found source value =>
      obtain ⟨before, inside, behind⟩ := severable source value List.mem_cons_self run _ h
      obtain ⟨next, rest⟩ := @ih [] later behind
      refine ⟨by simpa [Text.parts] using before, List.forall_mem_cons.mpr ⟨⟨inside, next⟩, rest⟩⟩

theorem parts (severs : read.Severs N) (h : Intact N s) :
    Intact N (Text.parts (Text.scan read s)).1 ∧
      ∀ part ∈ (Text.parts (Text.scan read s)).2, Intact N part.1.1 ∧ Intact N part.2 := by
  refine @parts_pieces α N (Text.scan read s) [] (fun source value member => ?_) ?_
  · obtain ⟨before, rest, found⟩ := severs.exists_read member
    exact severs.severable found
  · rwa [List.nil_append, Text.sources_scan]

/-- Replacing what is found by intact texts keeps a text intact. -/
theorem substitute (severs : read.Severs N)
    (writes : ∀ before source value rest, read before (source ++ rest) = some (value, rest) →
      Intact N source → Intact N (write source value)) (h : Intact N s) :
    Intact N (Text.substitute read write s) := by
  obtain ⟨first, others⟩ := h.parts severs
  rw [Text.substitute, Text.ofPieces_eq_parts]
  refine first.append (.flatMap fun part member => ?_)
  obtain ⟨source, behind⟩ := others part member
  obtain ⟨before, rest, found⟩ := severs.exists_read (Text.mem_of_mem_parts member)
  exact (writes before _ _ rest found source).append behind

end Intact

namespace StandIn

variable {kinds : List StandIn} {kind : StandIn} {filled filled' : Array Text}

theorem opening_inj : ∀ kind ∈ allStandIns, ∀ kind' ∈ allStandIns,
    kind.opening = kind'.opening → kind = kind' := by decide

theorem find?_opening (known : ∀ kind ∈ kinds, kind ∈ allStandIns) (member : kind ∈ kinds) :
    kinds.find? (fun k => k.opening == kind.opening) = some kind := by
  cases found : kinds.find? (fun k => k.opening == kind.opening) with
  | none => simpa using List.find?_eq_none.mp found kind member
  | some kind' =>
    have same : kind'.opening = kind.opening := by simpa using List.find?_some found
    have inside := known kind' (List.mem_of_find?_eq_some found)
    rw [opening_inj kind' inside kind (known kind member) same]

theorem isDigit_closing : ∀ kind ∈ allStandIns, isDigit kind.closing = false := by decide

theorem fill_append_token (known : ∀ kind ∈ kinds, kind ∈ allStandIns) (member : kind ∈ kinds)
    (i : Nat) (rest : Text) : fill kinds filled (kind.token i ++ rest) =
      ((Text.index? (Text.ofNat i)).bind fun i => filled[i]?).getD [] ++ fill kinds filled rest :=
  fill_of_some (read_token_index (find?_opening known member)
    (isDigit_closing kind (known kind member)) none rest)

theorem fill_append_of_unopened (unopened : ∀ c ∈ u, c ∉ kinds.map opening) (s : Text) :
    fill kinds filled (u ++ s) = u ++ fill kinds filled s := by
  induction u with
  | nil => rfl
  | cons c u ih =>
    obtain ⟨here, rest⟩ := List.forall_mem_cons.mp unopened
    rw [List.cons_append, fill_cons here, ih rest, List.cons_append]

/-- A stand-in of another kind has no character that begins one of some kinds. -/
theorem unopened_token (known : ∀ kind ∈ kinds, kind ∈ allStandIns) (kindKnown : kind ∈ allStandIns)
    (other : kind ∉ kinds) (i : Nat) : ∀ c ∈ kind.token i, c ∉ kinds.map opening := by
  intro c member opens
  obtain ⟨kind', inside, rfl⟩ := List.mem_map.mp opens
  have apart : ∀ kind ∈ allStandIns, ∀ kind' ∈ allStandIns,
      isDigit kind'.opening = false ∧ kind'.opening ≠ kind.closing := by decide
  obtain ⟨digit, closing⟩ := apart kind kindKnown kind' (known kind' inside)
  rcases List.mem_cons.mp member with same | member
  · exact other (opening_inj kind' (known kind' inside) kind kindKnown same ▸ inside)
  · rcases List.mem_append.mp member with number | last
    · exact absurd (Text.isDigit_of_mem_ofNat number) (by simp [digit])
    · exact closing (List.mem_singleton.mp last)

end StandIn

namespace Intact

variable {kinds : List StandIn} {kind : StandIn} {filled filled' : Array Text}

theorem not_mem_opening (part : ∀ kind ∈ kinds, kind ∈ N.kinds) (other : c ∉ N.chars) :
    c ∉ kinds.map StandIn.opening := fun member => by
  obtain ⟨kind, inside, rfl⟩ := List.mem_map.mp member
  exact other (List.mem_append_left _ (List.mem_map_of_mem (part kind inside)))

/-- The stand-ins that are read in an intact text are those that may stand in it. -/
theorem has_of_found {source : Text} {i : Nat} (h : Intact N s)
    (member : .found source (some i) ∈ Text.scan (StandIn.read N.kinds) s) :
    ∃ kind ∈ N.kinds, N.has kind i := by
  induction h with
  | nil => simp [Text.scan, Text.scanFrom] at member
  | @plain c s other _ ih =>
    have unread := StandIn.read_of_unopened (not_mem_opening (fun _ => id) other) none s
    rw [StandIn.scan_of_none unread] at member
    exact ih (by simpa using member)
  | @token kind j s inside has _ ih =>
    have read : StandIn.read N.kinds none (kind.token j ++ s) =
        some (Text.index? (Text.ofNat j), s) :=
      StandIn.read_token_index (StandIn.find?_opening N.known inside)
        (StandIn.isDigit_closing kind (N.known kind inside)) none s
    rw [StandIn.scan_of_some (u := kind.token j) (List.cons_ne_nil _ _) read] at member
    rcases List.mem_cons.mp member with same | later
    · have number := (Piece.found.inj same).2.trans (Text.index?_ofNat_eq j)
      split at number
      · obtain rfl := Option.some.inj number
        exact ⟨kind, inside, has⟩
      · simp at number
    · exact ih later

/-- Filling stand-ins of some kinds with intact texts leaves only stand-ins of the other kinds and
of those texts. -/
theorem fill (h : Intact N s) (same : N'.kinds = N.kinds) (part : ∀ kind ∈ kinds, kind ∈ N.kinds)
    (others : ∀ kind ∈ N.kinds, kind ∉ kinds → ∀ i, N.has kind i → N'.has kind i)
    (parts : ∀ kind ∈ kinds, ∀ i text, N.has kind i → filled[i]? = some text → Intact N' text) :
    Intact N' (StandIn.fill kinds filled s) := by
  have known (kind : StandIn) (inside : kind ∈ kinds) := N.known kind (part kind inside)
  have chars : N'.chars = N.chars := by rw [Numbering.chars, Numbering.chars, same]
  induction h with
  | nil => exact .nil
  | plain other _ ih =>
    rw [StandIn.fill_cons (not_mem_opening part other)]
    exact .plain (chars ▸ other) ih
  | @token kind i s inside has _ ih =>
    by_cases member : kind ∈ kinds
    · rw [StandIn.fill_append_token known member, Text.index?_ofNat_eq]
      refine .append ?_ ih
      split
      · cases there : filled[i]? with
        | none => simpa [there] using Intact.nil
        | some text => simpa [there] using parts kind member i text has there
      · exact .nil
    · rw [StandIn.fill_append_of_unopened
        (StandIn.unopened_token known (N.known kind inside) member i)]
      exact .token (same ▸ inside) (others kind inside member i has) ih

/-- An intact text is filled with the parts that its stand-ins name. -/
theorem fill_congr (h : Intact N s) (part : ∀ kind ∈ kinds, kind ∈ N.kinds)
    (agree : ∀ kind ∈ kinds, ∀ i, N.has kind i → filled'[i]? = filled[i]?) :
    StandIn.fill kinds filled' s = StandIn.fill kinds filled s := by
  have known (kind : StandIn) (inside : kind ∈ kinds) := N.known kind (part kind inside)
  induction h with
  | nil => rfl
  | plain other _ ih =>
    rw [StandIn.fill_cons (not_mem_opening part other),
      StandIn.fill_cons (not_mem_opening part other), ih]
  | @token kind i s inside has _ ih =>
    by_cases member : kind ∈ kinds
    · rw [StandIn.fill_append_token known member, StandIn.fill_append_token known member, ih,
        Text.index?_ofNat_eq]
      split
      · simp [agree kind member i has]
      · rfl
    · have unopened := StandIn.unopened_token known (N.known kind inside) member i
      rw [StandIn.fill_append_of_unopened unopened, StandIn.fill_append_of_unopened unopened, ih]

/-- Leaving stand-ins for severable finds keeps a text intact. -/
theorem place_pieces {write : Text → α → Text} {pieces : List (Piece α)} {run : Text} {n : Nat}
    (known : kind ∈ N.kinds)
    (severable : ∀ source value, .found source value ∈ pieces → Severable N source)
    (numbered : ∀ j < (kind.place write n pieces).2.length, N.has kind (n + j))
    (h : Intact N (run ++ pieces.flatMap Piece.source)) :
    Intact N (run ++ (kind.place write n pieces).1) := by
  induction pieces generalizing run n with
  | nil => exact h
  | cons piece pieces ih =>
    have later (source : Text) (value : α) (member : .found source value ∈ pieces) :=
      severable source value (List.mem_cons_of_mem _ member)
    cases piece with
    | plain c =>
      have moved := @ih (run ++ [c]) n later numbered (by simpa [Piece.source] using h)
      simpa [StandIn.place] using moved
    | found source value =>
      obtain ⟨before, _, behind⟩ := severable source value List.mem_cons_self run _ h
      have next := @ih [] (n + 1) later (fun j inside => by
        rw [Nat.add_assoc, Nat.add_comm 1 j]
        exact numbered (j + 1) (Nat.succ_lt_succ inside)) behind
      exact before.append (.token known (numbered 0 (Nat.zero_lt_succ _)) next)

theorem place {write : Text → α → Text} {n : Nat} (known : kind ∈ N.kinds) (severs : read.Severs N)
    (numbered : ∀ j < (kind.place write n (Text.scan read s)).2.length, N.has kind (n + j))
    (h : Intact N s) : Intact N (kind.place write n (Text.scan read s)).1 := by
  refine @place_pieces α N kind write (Text.scan read s) [] n known (fun source value member => ?_)
    numbered ?_
  · obtain ⟨before, rest, found⟩ := severs.exists_read member
    exact severs.severable found
  · rwa [List.nil_append, Text.sources_scan]

end Intact

/-- What is kept of the finds for which stand-ins are left. -/
theorem StandIn.place_snd (kind : StandIn) (write : Text → α → Text) (n : Nat)
    (pieces : List (Piece α)) :
    (kind.place write n pieces).2 =
      (Text.parts pieces).2.map fun part => write part.1.1 part.1.2 := by
  induction pieces generalizing n with
  | nil => rfl
  | cons piece pieces ih =>
    cases piece with
    | plain c => exact ih n
    | found source value => exact congrArg (write source value :: ·) (ih (n + 1))

end Stencil
