import Stencil.Proofs.Render.Accounting
import Stencil.Proofs.Render.Including
import Stencil.Proofs.Tag.Extraction

/-!
# What is put back as it is stored

The sweep that replaces single placeholders reads the text that the wildcards left, with the
elements they brought.  So a token in such an element is read like one of the template, and it is
replaced (`placeholder_replaced_in_script`).  What a single placeholder brings is not read again.

Between the sweeps a template text is laid out as its own texts and the elements in between
(`Wildcard.layOut`).  An element is copied if the second sweep goes over it as if it were a value
(`Positional.Copies`), which is so if and only if no token takes up a character of it
(`copies_iff`); for an element that begins and ends with its brackets, as extraction stores them,
if and only if it holds no token (`touches_iff_of_bracketed`).  A page of which no such element is
touched comes out as the second sweep leaves the template texts alone, with the elements in between
(`reinsertTags_verbatim`), and that is every page of a template none of whose elements holds a
token (`untouched_of_extract`).
-/

namespace Stencil

variable {α τ : Type}

namespace Text

/-- A find among some pieces is before some single characters or behind them. -/
theorem found_before_or_behind {before plain behind x y : List (Piece α)} {source : Text}
    {value : α} (single : .found source value ∉ plain)
    (h : before ++ (plain ++ behind) = x ++ .found source value :: y) :
    (∃ others, before = x ++ .found source value :: others) ∨
      ∃ others, x = before ++ (plain ++ others) := by
  rcases List.append_eq_append_iff.mp h with ⟨a, rfl, split⟩ | ⟨a, rfl, split⟩
  · rcases List.append_eq_append_iff.mp split with ⟨b, rfl, _⟩ | ⟨b, rfl, found⟩
    · exact .inr ⟨b, rfl⟩
    · cases b with
      | nil => exact .inr ⟨[], by simp⟩
      | cons piece b =>
        obtain ⟨rfl, _⟩ := List.cons.inj found
        exact absurd (by simp) single
  · cases a with
    | cons piece a =>
      obtain ⟨rfl, _⟩ := List.cons.inj split
      exact .inl ⟨a, rfl⟩
    | nil =>
      cases plain with
      | nil => exact .inr ⟨[], by simp⟩
      | cons piece plain =>
        obtain ⟨rfl, _⟩ := List.cons.inj split
        exact absurd List.mem_cons_self single

/-- Of two ways to cut a text the one that leaves less in front cuts that of the other. -/
theorem exists_of_append_eq_append {u w x y : Text} (h : u ++ w = x ++ y)
    (shorter : u.length ≤ x.length) : ∃ m, x = u ++ m ∧ w = m ++ y := by
  rcases List.append_eq_append_iff.mp h with cut | ⟨m, rfl, rfl⟩
  · exact cut
  · rw [List.length_append] at shorter
    obtain rfl := List.eq_nil_of_length_eq_zero (show m.length = 0 by omega)
    exact ⟨[], by simp, rfl⟩

theorem ofPiecesWith_append (write : α → τ → Text × τ) (pieces more : List (Piece α)) (t : τ) :
    ofPiecesWith write (pieces ++ more) t =
      ((ofPiecesWith write pieces t).1 ++
          (ofPiecesWith write more (ofPiecesWith write pieces t).2).1,
        (ofPiecesWith write more (ofPiecesWith write pieces t).2).2) := by
  induction pieces generalizing t with
  | nil => rfl
  | cons piece pieces ih => cases piece <;> simp [ofPiecesWith, ih]

theorem ofPiecesWith_map_plain (write : α → τ → Text × τ) (s : Text) (t : τ) :
    ofPiecesWith write (s.map .plain) t = (s, t) := by
  induction s with
  | nil => rfl
  | cons c s ih => simp [ofPiecesWith, ih]

end Text

namespace Positional

/-- Whether a text is the token of a single element, with nothing behind it. -/
def IsToken (token : Text) : Prop := ∃ value, read none token = some (value, [])

/-- Whether a token begins in a text and ends in the one that follows it. -/
def Overruns (u w : Text) : Prop :=
  ∃ x y z rest, u = x ++ y ∧ w = z ++ rest ∧ y ≠ [] ∧ z ≠ [] ∧ IsToken (y ++ z)

/-- Whether a token takes up a character of a text between two others, or runs over it from one of
these into the other. -/
def Touches (before e behind : Text) : Prop :=
  ∃ x token rest, IsToken token ∧ before ++ (e ++ behind) = x ++ (token ++ rest) ∧
    x.length < before.length + e.length ∧ before.length < x.length + token.length

/-- Whether the sweep goes over a text between two others, and does with these what it does with
them alone. -/
def Copies (before e behind : Text) : Prop :=
  Text.scan read (before ++ (e ++ behind)) =
    Text.scan read before ++ (e.map .plain ++ Text.scan read behind)

variable {u w e token s rest : Text} {value : Option (TagKind × Nat)}

theorem exists_token (h : read none s = some (value, rest)) :
    ∃ token, read none token = some (value, []) ∧ s = token ++ rest := by
  obtain ⟨k, written, digits, named, nonempty, all, rfl⟩ := read_eq_some h
  have alone := read_token named nonempty all none []
  rw [read_token named nonempty all] at h
  obtain ⟨rfl, _⟩ := Prod.mk.inj (Option.some.inj h)
  exact ⟨token written digits, by simpa using alone, rfl⟩

/-- A token has its brackets at its ends and nowhere else. -/
theorem IsToken.exists_inner (h : IsToken token) :
    ∃ inner, token = '<' :: (inner ++ ['>']) ∧ '<' ∉ inner ∧ '>' ∉ inner := by
  obtain ⟨value, found⟩ := h
  obtain ⟨k, written, digits, named, _, all, rfl⟩ := read_eq_some found
  have absent (c : Char) (name : foldLetter c ∉ k.name) (digit : isDigit c = false)
      (other : c ∉ ['@', ':']) : c ∉ ['@'] ++ written ++ [':'] ++ digits := by
    have digits_clear : c ∉ digits := fun member => absurd (all c member) (by simp [digit])
    simpa [TagKind.notMem_written named name, digits_clear] using other
  refine ⟨['@'] ++ written ++ [':'] ++ digits, by simp [Positional.token], ?_, ?_⟩
  · exact absent '<' (by cases k <;> decide) (by decide) (by decide)
  · exact absent '>' (by cases k <;> decide) (by decide) (by decide)

theorem IsToken.ne_nil (h : IsToken token) : token ≠ [] := by
  obtain ⟨inner, rfl, _, _⟩ := h.exists_inner
  exact List.cons_ne_nil _ _

theorem IsToken.bracket_notMem_tail (h : IsToken token) : '<' ∉ token.tail := by
  obtain ⟨inner, rfl, clear, _⟩ := h.exists_inner
  simp [clear]

theorem IsToken.bracket_notMem_dropLast (h : IsToken token) : '>' ∉ token.dropLast := by
  obtain ⟨inner, rfl, _, clear⟩ := h.exists_inner
  rw [← List.cons_append, List.dropLast_concat]
  simp [clear]

theorem scan_of_none {c : Char} (h : read none (c :: s) = none) :
    Text.scan read (c :: s) = .plain c :: Text.scan read s := by
  rw [Text.scan, Text.scanFrom, h]
  exact congrArg _ (scanFrom_before (some c) none 0 s)

theorem scan_of_token (h : read none token = some (value, [])) (w : Text) :
    Text.scan read (token ++ w) = .found token value :: Text.scan read w := by
  obtain ⟨before, scanned⟩ := Text.scanFrom_found read (IsToken.ne_nil ⟨value, h⟩)
    (read_append_of_some h w)
  rw [Text.scan, scanned, scanFrom_before before none]
  rfl

/-- Two texts are scanned one by one if no token runs over from one into the other. -/
theorem scan_append (apart : ¬Overruns u w) :
    Text.scan read (u ++ w) = Text.scan read u ++ Text.scan read w := by
  have later {t u : Text} (apart : ¬Overruns (t ++ u) w) : ¬Overruns u w := by
    rintro ⟨x, y, z, rest, rfl, split⟩
    exact apart ⟨t ++ x, y, z, rest, by simp, split⟩
  induction u using scan_induction with
  | nil => rfl
  | found u value rest here ih =>
    obtain ⟨token, found, rfl⟩ := exists_token here
    rw [List.append_assoc, scan_of_token found, scan_of_token found, ih (later apart),
      List.cons_append]
  | pass c u here ih =>
    have passed : read none (c :: (u ++ w)) = none := by
      cases wide : read none (c :: (u ++ w)) with
      | none => rfl
      | some answer =>
        obtain ⟨value, rest⟩ := answer
        obtain ⟨k, written, digits, beyond, named, all, token_eq, nonempty, rfl⟩ :=
          exists_overrun here wide
        obtain ⟨token, found, split⟩ := exists_token wide
        rw [← List.append_assoc, ← List.cons_append] at split
        obtain rfl := List.append_cancel_right split
        exact absurd ⟨[], c :: u, beyond, rest, rfl, rfl, List.cons_ne_nil _ _, nonempty, _, found⟩
          apart
    rw [List.cons_append, scan_of_none passed, scan_of_none here, List.cons_append,
      ih (later (t := [c]) apart)]

/-- No token runs over into a text that begins with a token. -/
theorem not_overruns_token (h : IsToken token) (u w : Text) : ¬Overruns u (token ++ w) := by
  rintro ⟨x, y, z, rest, rfl, split, nonempty, some, long⟩
  obtain ⟨inner, rfl, _, _⟩ := h.exists_inner
  obtain ⟨c, z, rfl⟩ := List.exists_cons_of_ne_nil some
  obtain ⟨rfl, _⟩ := List.cons.inj split
  exact long.bracket_notMem_tail (by simp [List.tail_append_of_ne_nil nonempty])

theorem Touches.append_left (h : Touches u e w) (t : Text) : Touches (t ++ u) e w := by
  obtain ⟨x, token, rest, isToken, split, left, right⟩ := h
  refine ⟨t ++ x, token, rest, isToken, by simp [split], ?_, ?_⟩
  · simp only [List.length_append]
    omega
  · simp only [List.length_append]
    omega

theorem Overruns.touches_right (h : Overruns u (e ++ w)) : Touches u e w := by
  obtain ⟨x, y, z, rest, rfl, split, left, right, isToken⟩ := h
  have y_length := List.length_pos_iff.mpr left
  have z_length := List.length_pos_iff.mpr right
  refine ⟨x, y ++ z, rest, isToken, by simp [split], ?_, ?_⟩
  · rw [List.length_append]
    omega
  · rw [List.length_append, List.length_append]
    omega

theorem Overruns.touches_left (h : Overruns e w) (u : Text) : Touches u e w := by
  obtain ⟨x, y, z, rest, rfl, rfl, left, right, isToken⟩ := h
  have y_length := List.length_pos_iff.mpr left
  have z_length := List.length_pos_iff.mpr right
  refine ⟨u ++ x, y ++ z, rest, isToken, by simp, ?_, ?_⟩
  · simp only [List.length_append]
    omega
  · simp only [List.length_append]
    omega

theorem touches_of_held (isToken : IsToken token) (h : token <:+: e) (u w : Text) :
    Touches u e w := by
  obtain ⟨x, rest, rfl⟩ := h
  have length := List.length_pos_iff.mpr isToken.ne_nil
  refine ⟨u ++ x, token, rest ++ w, isToken, by simp, ?_, ?_⟩
  · simp only [List.length_append]
    omega
  · simp only [List.length_append]
    omega

/-- A text is clear exactly if it holds no token. -/
theorem clear_iff : Text.Clear read s ↔ ∀ token, IsToken token → ¬token <:+: s := by
  constructor
  · rintro clear token ⟨value, found⟩ ⟨x, rest, rfl⟩
    have nothing := clear (token ++ rest) ⟨x, by simp⟩
    rw [read_append_of_some found rest] at nothing
    exact nomatch nothing
  · intro clear t inside
    cases found : read none t with
    | none => rfl
    | some answer =>
      obtain ⟨value, rest⟩ := answer
      obtain ⟨token, isToken, rfl⟩ := exists_token found
      exact absurd ((List.prefix_append token rest).isInfix.trans inside.isInfix)
        (clear token ⟨value, isToken⟩)

/-- A text between two others is copied exactly when no token takes up a character of it. -/
theorem copies_iff : Copies u e w ↔ ¬Touches u e w := by
  constructor
  · rintro copied ⟨x, token, rest, ⟨value, found⟩, split, left, right⟩
    -- The token is found whatever stands around it, so it is not in the text that is copied.
    rw [Copies, split, scan_append (not_overruns_token ⟨value, found⟩ x rest),
      scan_of_token found] at copied
    have length := List.length_pos_iff.mpr (IsToken.ne_nil ⟨value, found⟩)
    have sources (pieces : List (Piece (Option (TagKind × Nat)))) {s : Text}
        (scanned : Text.scan read s = pieces) :
        s.length = (pieces.flatMap Piece.source).length := by
      rw [← scanned, Text.sources_scan]
    rcases Text.found_before_or_behind (by simp) copied.symm with inside | ⟨others, scan_x⟩
    · obtain ⟨others, scan_u⟩ := inside
      have size := sources _ scan_u
      simp only [List.flatMap_append, List.flatMap_cons, Text.sources_scan, Piece.source,
        List.length_append] at size
      omega
    · have size := sources _ scan_x
      simp only [List.flatMap_append, List.flatMap_map, Text.sources_scan, Piece.source,
        List.flatMap_singleton', List.length_append] at size
      omega
  · intro untouched
    have left : ¬Overruns u (e ++ w) := fun runs => untouched runs.touches_right
    have right : ¬Overruns e w := fun runs => untouched (runs.touches_left u)
    have clear : Text.Clear read e := clear_iff.mpr fun token isToken inside =>
      untouched (touches_of_held isToken inside u w)
    have plain : Text.scan read e = e.map .plain :=
      Text.scan_eq_plain fun t inside _ _ => clear t inside
    rw [Copies, scan_append left, scan_append right, plain]

/-- A token that takes up a character of a text runs into it or out of it or lies in it. -/
theorem Touches.cases (h : Touches u e w) :
    Overruns u (e ++ w) ∨ Overruns (u ++ e) w ∨ ∃ token, IsToken token ∧ token <:+: e := by
  obtain ⟨x, token, rest, isToken, whole, left, right⟩ := h
  rcases Nat.lt_or_ge x.length u.length with before | within
  · obtain ⟨y, rfl, split⟩ := Text.exists_of_append_eq_append whole.symm before.le
    rw [List.length_append] at before right
    obtain ⟨z, rfl, behind⟩ := Text.exists_of_append_eq_append split.symm (by omega)
    rw [List.length_append] at right
    exact .inl ⟨x, y, z, rest, rfl, behind, List.length_pos_iff.mp (by omega),
      List.length_pos_iff.mp (by omega), isToken⟩
  · obtain ⟨a, rfl, split⟩ := Text.exists_of_append_eq_append whole within
    rw [List.length_append] at left
    obtain ⟨b, rfl, behind⟩ := Text.exists_of_append_eq_append split.symm (by omega)
    rw [List.length_append] at left
    rcases Nat.lt_or_ge b.length token.length with runs | inside
    · obtain ⟨z, rfl, last⟩ := Text.exists_of_append_eq_append behind.symm runs.le
      rw [List.length_append] at runs
      exact .inr (.inl ⟨u ++ a, b, z, rest, by simp, last, List.length_pos_iff.mp (by omega),
        List.length_pos_iff.mp (by omega), isToken⟩)
    · obtain ⟨c, rfl, _⟩ := Text.exists_of_append_eq_append behind inside
      exact .inr (.inr ⟨token, isToken, a, c, by simp⟩)

/-- A text that begins and ends with its brackets is touched exactly when it holds a token. -/
theorem touches_iff_of_bracketed {inside : Text} (bracketed : e = '<' :: (inside ++ ['>'])) :
    Touches u e w ↔ ¬Text.Clear read e := by
  rw [clear_iff]
  push Not
  refine ⟨fun touches => ?_, fun ⟨token, isToken, inside⟩ => touches_of_held isToken inside u w⟩
  rcases touches.cases with ⟨x, y, z, rest, _, split, left, right, isToken⟩ |
    ⟨x, y, z, rest, split, _, left, right, isToken⟩ | within
  · -- The second part of the token would begin with the bracket.
    obtain ⟨c, z, rfl⟩ := List.exists_cons_of_ne_nil right
    rw [bracketed] at split
    obtain ⟨rfl, _⟩ := List.cons.inj split
    exact absurd (by simp [List.tail_append_of_ne_nil left]) isToken.bracket_notMem_tail
  · -- The first part of the token would end with the bracket.
    obtain ⟨y, c, rfl⟩ := (List.eq_nil_or_concat y).resolve_left left
    rw [bracketed, List.concat_eq_append, ← List.cons_append, ← List.append_assoc,
      ← List.append_assoc] at split
    obtain ⟨_, same⟩ := List.append_inj' split rfl
    obtain rfl : '>' = c := List.singleton_inj.mp same
    have inner : '>' ∈ (y.concat '>' ++ z).dropLast := by
      rw [List.dropLast_append_of_ne_nil right]
      simp
    exact absurd inner isToken.bracket_notMem_dropLast
  · exact within

end Positional

namespace Part

def template? : Part → Option Text
  | .template s => some s
  | .value _ => none

/-- Whether no template text follows another. -/
def Apart : List Part → Prop
  | .template _ :: .template _ :: _ => False
  | _ :: parts => Apart parts
  | [] => True

/-- Some texts on lines of their own before some parts. -/
def onLines : List Text → List Part → List Part
  | [], parts => parts
  | [s], parts => .value s :: parts
  | s :: t :: texts, parts => .value s :: consTemplate ['\n'] (onLines (t :: texts) parts)

def pieces : Part → List (Piece (Option (TagKind × Nat)))
  | .template s => Text.scan Positional.read s
  | .value s => s.map .plain

/-- Whether no token takes up a character of a value among some parts. -/
def Untouched (parts : List Part) : Prop :=
  ∀ before e behind, parts = before ++ .value e :: behind →
    ¬Positional.Touches (join before) e (join behind)

theorem Apart.of_cons {part : Part} {parts : List Part} (h : Apart (part :: parts)) :
    Apart parts := by
  cases part with
  | value s => exact h
  | template s =>
    cases parts with
    | nil => trivial
    | cons next parts =>
      cases next with
      | template t => exact h.elim
      | value t => exact h

theorem Apart.value {parts : List Part} (h : Apart parts) (s : Text) :
    Apart (.value s :: parts) := h

theorem Apart.consTemplate {parts : List Part} (h : Apart parts) (s : Text) :
    Apart (consTemplate s parts) := by
  cases parts with
  | nil => cases s <;> trivial
  | cons part parts =>
    cases part with
    | value t => cases s <;> exact h
    | template t =>
      cases parts with
      | nil => trivial
      | cons next parts =>
        cases next with
        | template u => exact h.elim
        | value u => exact h

theorem apart_onLines {parts : List Part} (h : Apart parts) (texts : List Text) :
    Apart (onLines texts parts) := by
  fun_induction onLines texts parts with
  | case1 parts => exact h
  | case2 s parts => exact h
  | case3 s t texts parts ih => exact (ih h).consTemplate ['\n']

theorem join_onLines (texts : List Text) (parts : List Part) :
    join (onLines texts parts) = Text.join ['\n'] texts ++ join parts := by
  fun_induction onLines texts parts with
  | case1 parts => rfl
  | case2 s parts => simp [Text.join, List.intercalate]
  | case3 s t texts parts ih => simp [ih, Text.join_cons_cons]

theorem value_mem_consTemplate {s e : Text} {parts : List Part} :
    .value e ∈ consTemplate s parts ↔ .value e ∈ parts := by
  cases parts with
  | nil => cases s <;> simp [consTemplate]
  | cons part parts => cases part <;> cases s <;> simp [consTemplate]

theorem mem_of_value_mem_onLines {e : Text} {texts : List Text} {parts : List Part}
    (h : .value e ∈ onLines texts parts) : e ∈ texts ∨ .value e ∈ parts := by
  fun_induction onLines texts parts with
  | case1 parts => exact .inr h
  | case2 s parts => simpa using h
  | case3 s t texts parts ih =>
    rcases List.mem_cons.mp h with same | later
    · exact .inl (by simp [Part.value.inj same])
    · exact (ih (value_mem_consTemplate.mp later)).imp_left (List.mem_cons_of_mem s)

theorem join_append (parts more : List Part) : join (parts ++ more) = join parts ++ join more :=
  List.flatMap_append

theorem Untouched.of_cons {part : Part} {parts : List Part} (h : Untouched (part :: parts)) :
    Untouched parts := by
  intro before e behind split touches
  refine h (part :: before) e behind (by rw [split]; rfl) ?_
  exact touches.append_left part.text

theorem untouched_of_clear {parts : List Part}
    (bracketed : ∀ e, .value e ∈ parts → ∃ inside, e = '<' :: (inside ++ ['>']))
    (clear : ∀ e, .value e ∈ parts → Text.Clear Positional.read e) : Untouched parts := by
  rintro before e behind rfl touches
  obtain ⟨inside, e_eq⟩ := bracketed e (by simp)
  exact (Positional.touches_iff_of_bracketed e_eq).mp touches (clear e (by simp))

/-- The second sweep goes over a text that is laid out in parts part by part, if no value among
them is touched. -/
theorem scan_join {parts : List Part} (apart : Apart parts) (untouched : Untouched parts) :
    Text.scan Positional.read (join parts) = parts.flatMap pieces := by
  induction parts with
  | nil => rfl
  | cons part parts ih =>
    have rest := ih apart.of_cons untouched.of_cons
    cases part with
    | value e =>
      have copied := Positional.copies_iff.mpr (untouched [] e parts rfl)
      rw [List.flatMap_cons, ← rest]
      exact copied
    | template s =>
      have whole : ¬Positional.Overruns s (join parts) := by
        intro runs
        cases parts with
        | nil =>
          obtain ⟨_, _, z, _, _, split, _, some, _⟩ := runs
          exact some (List.append_eq_nil_iff.mp split.symm).1
        | cons next parts =>
          cases next with
          | template t => exact apart
          | value e =>
            have front : join [.template s] = s := List.append_nil s
            exact untouched [.template s] e parts rfl (front.symm ▸ runs.touches_right)
      rw [List.flatMap_cons, ← rest]
      exact Positional.scan_append whole

variable {tags : TagTable} {spent : List TagKind}

/-- Going over the pieces of all parts is going over the parts one after the other. -/
theorem ofPiecesWith_flatMap_pieces (parts : List Part) (used : List (TagKind × Nat)) :
    Text.ofPiecesWith (Positional.write tags none spent) (parts.flatMap pieces) used =
      (join (mapTemplates (Positional.replace tags none spent) parts used).1,
        (mapTemplates (Positional.replace tags none spent) parts used).2) := by
  induction parts generalizing used with
  | nil => rfl
  | cons part parts ih =>
    rw [List.flatMap_cons, Text.ofPiecesWith_append]
    cases part with
    | template s => simp [pieces, mapTemplates, Positional.replace, ih, join, text]
    | value s => simp [pieces, mapTemplates, Text.ofPiecesWith_map_plain, ih]

end Part

namespace Wildcard

/-- The elements that a wildcard brings, and the kinds that wildcards have brought so far. -/
def brings (tags : TagTable) (kind : Option TagKind) (spent : List TagKind) :
    List Text × List TagKind :=
  match kind with
  | none => ([], spent)
  | some k => if k ∈ spent then ([], spent) else (tags.entries k, k :: spent)

/-- What the wildcards among some pieces leave, with the elements that they bring as values. -/
def layPieces (tags : TagTable) : List (Piece (Option TagKind)) → List TagKind →
    List Part × List TagKind
  | [], spent => ([], spent)
  | .plain c :: pieces, spent =>
    let (parts, spent) := layPieces tags pieces spent
    (Part.consTemplate [c] parts, spent)
  | .found _ kind :: pieces, spent =>
    let (elements, spent) := brings tags kind spent
    let (parts, spent) := layPieces tags pieces spent
    (Part.onLines elements parts, spent)

/-- What the wildcards of a text leave, with the elements that they bring as values. -/
def layOut (tags : TagTable) (s : Text) (spent : List TagKind) : List Part × List TagKind :=
  layPieces tags (Text.scan read s) spent

variable {tags : TagTable}

theorem write_eq_brings (kind : Option TagKind) (spent : List TagKind) :
    write tags none kind spent =
      (Text.join ['\n'] (brings tags kind spent).1, (brings tags kind spent).2) := by
  cases kind with
  | none => rfl
  | some k =>
    by_cases known : k ∈ spent
    · simp [write, brings, known, Text.join]
    · have plain : (Nonced.apply none k : Text → Text) = id := rfl
      simp [write, brings, known, plain]

/-- The parts make up what the first sweep makes of the text. -/
theorem replace_eq_layOut (s : Text) (spent : List TagKind) :
    replace tags none s spent =
      (Part.join (layOut tags s spent).1, (layOut tags s spent).2) := by
  have pieces (pieces : List (Piece (Option TagKind))) (spent : List TagKind) :
      Text.ofPiecesWith (write tags none) pieces spent =
        (Part.join (layPieces tags pieces spent).1, (layPieces tags pieces spent).2) := by
    induction pieces generalizing spent with
    | nil => rfl
    | cons piece pieces ih =>
      cases piece with
      | plain c => simp [Text.ofPiecesWith, layPieces, ih]
      | found source kind =>
        simp [Text.ofPiecesWith, layPieces, write_eq_brings, ih, Part.join_onLines]
  exact pieces _ spent

theorem apart_layOut (s : Text) (spent : List TagKind) : Part.Apart (layOut tags s spent).1 := by
  have pieces (pieces : List (Piece (Option TagKind))) (spent : List TagKind) :
      Part.Apart (layPieces tags pieces spent).1 := by
    induction pieces generalizing spent with
    | nil => trivial
    | cons piece pieces ih =>
      cases piece with
      | plain c => exact (ih spent).consTemplate [c]
      | found source kind => exact Part.apart_onLines (ih _) _
  exact pieces _ spent

/-- The values of a text that is laid out are elements of the table. -/
theorem mem_entries_of_value_mem_layOut {s e : Text} {spent : List TagKind}
    (h : .value e ∈ (layOut tags s spent).1) : ∃ k, e ∈ tags.entries k := by
  have pieces {pieces : List (Piece (Option TagKind))} {spent : List TagKind}
      (h : .value e ∈ (layPieces tags pieces spent).1) : ∃ k, e ∈ tags.entries k := by
    induction pieces generalizing spent with
    | nil => exact nomatch h
    | cons piece pieces ih =>
      cases piece with
      | plain c => exact ih (Part.value_mem_consTemplate.mp h)
      | found source kind =>
        rcases Part.mem_of_value_mem_onLines h with brought | later
        · cases kind with
          | none => exact nomatch brought
          | some k =>
            by_cases known : k ∈ spent
            · simp [known] at brought
            · exact ⟨k, by simpa [brings, known] using brought⟩
        · exact ih later
  exact pieces h

end Wildcard

namespace Part

variable (tags : TagTable)

/-- The template texts of a page after the first sweep, each laid out in parts. -/
def stretches : List Part → List TagKind → List (List Part)
  | [], _ => []
  | .template s :: parts, spent =>
    (Wildcard.layOut tags s spent).1 :: stretches parts (Wildcard.layOut tags s spent).2
  | .value _ :: parts, spent => stretches parts spent

/-- The page after the first sweep, where what wildcards brought are values, and the kinds that they
brought. -/
def layOut : List Part → List TagKind → List Part × List TagKind
  | [], spent => ([], spent)
  | .template s :: parts, spent =>
    let (laid, spent) := Wildcard.layOut tags s spent
    let (parts, spent) := layOut parts spent
    (laid ++ parts, spent)
  | .value s :: parts, spent =>
    let (parts, spent) := layOut parts spent
    (.value s :: parts, spent)

/-- The laid out page after the second sweep. -/
def placed (parts : List Part) : List Part :=
  (mapTemplates (Positional.replace tags none (layOut tags parts []).2)
    (layOut tags parts []).1 []).1

variable {tags}

theorem mapTemplates_append (f : Text → τ → Text × τ) (parts more : List Part) (t : τ) :
    mapTemplates f (parts ++ more) t =
      ((mapTemplates f parts t).1 ++ (mapTemplates f more (mapTemplates f parts t).2).1,
        (mapTemplates f more (mapTemplates f parts t).2).2) := by
  induction parts generalizing t with
  | nil => rfl
  | cons part parts ih => cases part <;> simp [mapTemplates, ih]

theorem template?_mapTemplates_wildcard (parts : List Part) (spent : List TagKind) :
    (mapTemplates (Wildcard.replace tags none) parts spent).1.filterMap template? =
      (stretches tags parts spent).map join := by
  induction parts generalizing spent with
  | nil => rfl
  | cons part parts ih =>
    cases part with
    | template s =>
      simp [mapTemplates, stretches, Wildcard.replace_eq_layOut, template?, ih]
    | value s => exact ih spent

theorem spent_layOut (parts : List Part) (spent : List TagKind) :
    (mapTemplates (Wildcard.replace tags none) parts spent).2 = (layOut tags parts spent).2 := by
  induction parts generalizing spent with
  | nil => rfl
  | cons part parts ih =>
    cases part with
    | template s => simp [mapTemplates, layOut, Wildcard.replace_eq_layOut, ih]
    | value s => simp [mapTemplates, layOut, ih]

theorem mem_entries_of_stretches {parts stretch : List Part} {spent : List TagKind} {e : Text}
    (member : stretch ∈ stretches tags parts spent) (inside : .value e ∈ stretch) :
    ∃ k, e ∈ tags.entries k := by
  fun_induction stretches tags parts spent with
  | case1 spent => exact nomatch member
  | case2 s parts spent ih =>
    rcases List.mem_cons.mp member with rfl | later
    · exact Wildcard.mem_entries_of_value_mem_layOut inside
    · exact ih later
  | case3 s parts spent ih => exact ih member

/-- If no element is touched, then the second sweep makes the same of a page as of the laid out
page. -/
theorem mapTemplates_layOut {parts : List Part} {spent : List TagKind}
    (untouched : ∀ stretch ∈ stretches tags parts spent, Untouched stretch) (all : List TagKind)
    (used : List (TagKind × Nat)) :
    join (mapTemplates (Positional.replace tags none all)
        (mapTemplates (Wildcard.replace tags none) parts spent).1 used).1 =
      join (mapTemplates (Positional.replace tags none all)
        (layOut tags parts spent).1 used).1 := by
  induction parts generalizing spent used with
  | nil => rfl
  | cons part parts ih =>
    cases part with
    | value s =>
      simp only [mapTemplates, layOut, join_value]
      rw [ih untouched]
    | template s =>
      obtain ⟨here, later⟩ := List.forall_mem_cons.mp untouched
      have swept : Positional.replace tags none all (join (Wildcard.layOut tags s spent).1) used =
          (join (mapTemplates (Positional.replace tags none all)
              (Wildcard.layOut tags s spent).1 used).1,
            (mapTemplates (Positional.replace tags none all)
              (Wildcard.layOut tags s spent).1 used).2) := by
        rw [Positional.replace, scan_join (Wildcard.apart_layOut s spent) here,
          ofPiecesWith_flatMap_pieces]
      simp only [mapTemplates, layOut, Wildcard.replace_eq_layOut, mapTemplates_append, join_append,
        swept]
      rw [← ih later]
      rfl

end Part

variable {tags : TagTable}

/-- What a single placeholder brings is its element as it is stored, or nothing. -/
theorem writeAll_stored (spent : List TagKind) (used : List (TagKind × Nat))
    (places : List (Option (TagKind × Nat))) :
    List.Forall₂ (fun place text =>
        text = [] ∨ ∃ k n, place = some (k, n) ∧ tags.get? k n = some text)
      places (Text.writeAll (Positional.write tags none spent) places used).1 := by
  induction places generalizing used with
  | nil => exact .nil
  | cons place places ih =>
    refine .cons ?_ (ih _)
    cases place with
    | none => exact .inl rfl
    | some place =>
      obtain ⟨k, n⟩ := place
      by_cases gone : k ∈ spent ∨ (k, n) ∈ used
      · exact .inl (by simp [gone])
      · cases stored : tags.get? k n with
        | none => exact .inl (by simp [gone, stored])
        | some element =>
          exact .inr ⟨k, n, rfl, by simp [gone, stored, Nonced.apply]⟩

theorem reinsertTags_eq_join_placed {parts : List Part}
    (untouched : ∀ stretch ∈ Part.stretches tags parts [], Part.Untouched stretch) :
    reinsertTags tags none parts = Part.join (Part.placed tags parts) := by
  have swept := Part.mapTemplates_layOut untouched (Part.layOut tags parts []).2 []
  rw [← Part.spent_layOut] at swept
  rw [Part.placed, ← Part.spent_layOut]
  exact swept

/-- No element of a compiled template is touched in its pages if none of them holds a token. -/
theorem untouched_of_extract {source : Text}
    (clear : ∀ k, ∀ e ∈ (extract .none source).2.entries k, Text.Clear Positional.read e)
    {parts stretch : List Part}
    (member : stretch ∈ Part.stretches (extract .none source).2 parts []) :
    Part.Untouched stretch := by
  refine Part.untouched_of_clear (fun e inside => ?_) (fun e inside => ?_)
  · obtain ⟨k, stored⟩ := Part.mem_entries_of_stretches member inside
    obtain ⟨rest, e_eq⟩ := exists_inside_of_mem_entries stored
    exact ⟨k.name ++ rest, by rw [e_eq, List.append_assoc]⟩
  · obtain ⟨k, stored⟩ := Part.mem_entries_of_stretches member inside
    exact clear k e stored

/-- Elements that are put back without a nonce are copied in the following sense.  The template
texts that the wildcards leave are made of their own texts and the elements in between.  The second
sweep writes the elements of single placeholders as they are stored, and nothing else.  It copies an
element that a wildcard brought if and only if no token takes up a character of it, which is so of
one that begins and ends with its brackets if and only if it holds no token.  If no such element is
touched, then the page is what the second sweep makes of the template texts alone, with all elements
in between; and in the pages of a compiled template none is touched if none holds a token. -/
theorem reinsertTags_verbatim (tags : TagTable) (parts : List Part) :
    let between := (Part.mapTemplates (Wildcard.replace tags none) parts []).1
    between.filterMap Part.template? = (Part.stretches tags parts []).map Part.join ∧
    (∃ texts, List.Forall₂ (fun place text =>
          text = [] ∨ ∃ k n, place = some (k, n) ∧ tags.get? k n = some text)
        (Part.found Positional.read between) texts ∧
      reinsertTags tags none parts = Part.join (Part.refill Positional.read between texts)) ∧
    (∀ stretch ∈ Part.stretches tags parts [], ∀ before e behind,
      stretch = before ++ .value e :: behind →
        (Positional.Copies (Part.join before) e (Part.join behind) ↔
          ¬Positional.Touches (Part.join before) e (Part.join behind)) ∧
        ((∃ inside, e = '<' :: (inside ++ ['>'])) →
          (Positional.Copies (Part.join before) e (Part.join behind) ↔
            Text.Clear Positional.read e))) ∧
    ((∀ stretch ∈ Part.stretches tags parts [], Part.Untouched stretch) →
      reinsertTags tags none parts = Part.join (Part.placed tags parts) ∧
        Part.values (Part.placed tags parts) = Part.values (Part.layOut tags parts []).1) ∧
    ∀ source, tags = (extract .none source).2 →
      (∀ k, ∀ e ∈ tags.entries k, Text.Clear Positional.read e) →
        ∀ stretch ∈ Part.stretches tags parts [], Part.Untouched stretch := by
  intro between
  let spent := (Part.mapTemplates (Wildcard.replace tags none) parts []).2
  refine ⟨Part.template?_mapTemplates_wildcard parts [],
    ⟨_, writeAll_stored spent [] (Part.found Positional.read between), ?_⟩, ?_, ?_, ?_⟩
  · exact congrArg (fun swept => Part.join swept.1) (Part.mapTemplates_eq_refill Positional.read
      (Positional.write tags none spent) between [])
  · rintro stretch - before e behind -
    refine ⟨Positional.copies_iff, fun ⟨inside, bracketed⟩ => ?_⟩
    rw [Positional.copies_iff, Positional.touches_iff_of_bracketed bracketed, not_not]
  · intro untouched
    exact ⟨reinsertTags_eq_join_placed untouched,
      Part.values_eq_of_map_value? (Part.map_value?_mapTemplates ..)⟩
  · rintro source rfl clear stretch
    exact untouched_of_extract clear

/-- A page whose wildcard brings an element that no token touches. -/
theorem reinsertTags_verbatim_page :
    let style : Text := "<style>\x7b\x7b-script\x7d\x7d</style>"
    let tags : TagTable := { script := ["<script>a</script>"], style := [style] }
    let parts : List Part := [.template "<@style:1>\x7b\x7b-script\x7d\x7d<@style:1>"]
    (∀ stretch ∈ Part.stretches tags parts [], Part.Untouched stretch) ∧
      reinsertTags tags none parts = style ++ "<script>a</script>" := by
  intro style tags parts
  have laid : Part.stretches tags parts [] =
      [[.template "<@style:1>", .value "<script>a</script>", .template "<@style:1>"]] := by
    decide +kernel
  have clear : HoldsNoToken "<script>a</script>" := by decide +kernel
  have untouched : ∀ stretch ∈ Part.stretches tags parts [], Part.Untouched stretch := by
    rw [laid]
    intro stretch member
    obtain rfl := List.mem_singleton.mp member
    refine Part.untouched_of_clear (fun e inside => ?_) (fun e inside => ?_)
    · obtain rfl : e = "<script>a</script>" := by simpa using inside
      exact ⟨"script>a</script", by decide⟩
    · obtain rfl : e = "<script>a</script>" := by simpa using inside
      exact clear.positional
  refine ⟨untouched, ?_⟩
  obtain ⟨_, _, _, verbatim, _⟩ := reinsertTags_verbatim tags parts
  rw [(verbatim untouched).1]
  decide +kernel

/-- The token in a script is replaced when a wildcard brings the script. -/
theorem placeholder_replaced_in_script :
    let source : Text :=
      "<div>\x7b\x7b-script\x7d\x7d</div><script><@style:1></script><style>p</style>"
    let page := reinsertTags (extract .none source).2 none [.template (extract .none source).1]
    (extract .none source).2.entries .script = ["<script><@style:1></script>"] ∧
      Part.found Wildcard.read [.template (extract .none source).1] = [some .script] ∧
      page = "<div><script><style>p</style></script></div>" ∧
      ¬("<script><@style:1></script>" : Text) <:+: page := by
  decide +kernel

end Stencil
