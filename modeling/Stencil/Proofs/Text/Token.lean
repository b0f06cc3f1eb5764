import Stencil.Inline.Code
import Stencil.Inline.Emphasis
import Stencil.Proofs.Render.Tokens
import Stencil.Proofs.Text.Whole

/-!
# Tokens

A token is what a part of a source leaves behind when it is taken out: the placeholder of an element
or a stand-in.  Its first and last characters stand nowhere else in it, and the letters, digits and
signs between them matter to no stage (`IsToken.spared`).  A stand-in is replaced by its part
(`StandIn.infix_fill_of_token`), and other tokens stay (`StandIn.infix_fill`).
-/

namespace Stencil

def allStandIns : List StandIn := Emphasis.standIn :: Code.standIns

/-- A word that stands for a part that was taken out of a source. -/
inductive IsToken : Text → Prop where
  | placeholder (k : TagKind) (n : Nat) : IsToken (k.placeholder n)
  | standIn {kind : StandIn} (known : kind ∈ allStandIns) (n : Nat) : IsToken (kind.token n)

namespace IsToken

def openers : List Char := '<' :: allStandIns.map StandIn.opening

def closers : List Char := '>' :: allStandIns.map StandIn.closing

/-- The characters between those. -/
def isInner (c : Char) : Bool := isDigit c || "@:scriptylenkma".toList.contains c

variable {w : Text}

/-- A token has an opener at its start, a closer at its end and inner characters between them. -/
theorem exists_shape (token : IsToken w) :
    ∃ first middle last, w = first :: (middle ++ [last]) ∧ first ∈ openers ∧ last ∈ closers ∧
      ∀ c ∈ middle, isInner c = true := by
  have digits {n : Nat} : ∀ c ∈ Text.ofNat n, isInner c = true := fun c member => by
    simp [isInner, Text.isDigit_of_mem_ofNat member]
  cases token with
  | placeholder k n =>
    refine ⟨'<', ['@'] ++ k.name ++ [':'] ++ Text.ofNat n, '>', by simp [TagKind.placeholder],
      by decide, by decide, ?_⟩
    simp only [List.forall_mem_append]
    exact ⟨⟨⟨by decide, by cases k <;> decide⟩, by decide⟩, digits⟩
  | standIn known n =>
    rename_i kind
    exact ⟨kind.opening, Text.ofNat n, kind.closing, rfl,
      List.mem_cons_of_mem _ (List.mem_map_of_mem known),
      List.mem_cons_of_mem _ (List.mem_map_of_mem known), digits⟩

theorem ne_nil (token : IsToken w) : w ≠ [] := by
  obtain ⟨first, middle, last, rfl, _⟩ := token.exists_shape
  simp

theorem mem_openers_of_head (token : IsToken w) : ∀ c ∈ w.head?, c ∈ openers := by
  obtain ⟨first, middle, last, rfl, opens, _⟩ := token.exists_shape
  simpa using opens

theorem mem_closers_of_getLast (token : IsToken w) : ∀ c ∈ w.getLast?, c ∈ closers := by
  obtain ⟨first, middle, last, rfl, _, closes, _⟩ := token.exists_shape
  rw [← List.cons_append, List.getLast?_concat]
  simpa using closes

theorem not_mem_tail (token : IsToken w) {c : Char} (inner : isInner c = false)
    (closer : c ∉ closers) : c ∉ w.tail := by
  obtain ⟨first, middle, last, rfl, _, closes, within⟩ := token.exists_shape
  intro member
  rcases List.mem_append.mp member with middle | last
  · exact absurd (within c middle) (by simp [inner])
  · exact closer (List.mem_singleton.mp last ▸ closes)

theorem not_mem_dropLast (token : IsToken w) {c : Char} (inner : isInner c = false)
    (opener : c ∉ openers) : c ∉ w.dropLast := by
  obtain ⟨first, middle, last, rfl, opens, _, within⟩ := token.exists_shape
  rw [← List.cons_append, List.dropLast_concat]
  intro member
  rcases List.mem_cons.mp member with rfl | middle
  · exact opener opens
  · exact absurd (within c middle) (by simp [inner])

def isForeign (c : Char) : Bool := !openers.contains c && !closers.contains c && !isInner c

theorem isForeign_iff {c : Char} :
    isForeign c = true ↔ isInner c = false ∧ c ∉ openers ∧ c ∉ closers := by
  simp only [isForeign, Bool.and_eq_true, Bool.not_eq_true', List.contains_eq_mem,
    decide_eq_false_iff_not]
  tauto

theorem not_mem (token : IsToken w) {c : Char} (foreign : isForeign c = true) : c ∉ w := by
  obtain ⟨inner, opener, closer⟩ := isForeign_iff.mp foreign
  obtain ⟨first, middle, last, rfl, opens, closes, within⟩ := token.exists_shape
  intro member
  rcases List.mem_cons.mp member with rfl | member
  · exact opener opens
  · exact token.not_mem_tail inner closer member

/-- A token lies in what stands between characters that are in no token. -/
theorem infix_between (token : IsToken w) {left right s : Text}
    (before : ∀ c ∈ left, isForeign c = true) (after : ∀ c ∈ right, isForeign c = true)
    (h : w <:+: left ++ s ++ right) : w <:+: s := by
  refine Text.infix_right (Text.infix_left h fun c last member => ?_) fun c first member => ?_
  · exact (isForeign_iff.mp (after c member)).2.2 (token.mem_closers_of_getLast c last)
  · exact (isForeign_iff.mp (before c member)).2.1 (token.mem_openers_of_head c first)

theorem infix_trim {s : Text} (token : IsToken w) (h : w <:+: s) : w <:+: Text.trim s := by
  have opener : ∀ c ∈ openers, isSpace c = false := by decide
  have closer : ∀ c ∈ closers, isSpace c = false := by decide
  exact Text.infix_trim h (fun c first => opener c (token.mem_openers_of_head c first))
    fun c last => closer c (token.mem_closers_of_getLast c last)

/-- Characters are kept in a token if they are at its ends and in the middle. -/
theorem forall_mem (token : IsToken w) {p : Char → Prop} (opener : ∀ c ∈ openers, p c)
    (closer : ∀ c ∈ closers, p c) (inner : ∀ c, isInner c = true → p c) : ∀ c ∈ w, p c := by
  obtain ⟨first, middle, last, rfl, opens, closes, within⟩ := token.exists_shape
  simp only [List.forall_mem_cons, List.forall_mem_append]
  exact ⟨opener first opens, fun c member => inner c (within c member), closer last closes, by simp⟩

theorem le_toNat (token : IsToken w) : ∀ c ∈ w, 32 ≤ c.toNat := by
  refine token.forall_mem (by decide) (by decide) fun c inner => ?_
  rcases Bool.or_eq_true_iff.mp inner with digit | sign
  · have zero : '0' ≤ c := by simpa using (Bool.and_eq_true_iff.mp digit).1
    exact (show 32 ≤ '0'.toNat by decide).trans zero
  · exact (show ∀ c ∈ "@:scriptylenkma".toList, 32 ≤ c.toNat by decide) c (by simpa using sign)

/-- A reader whose finds begin and end with characters that do not do so in a token spares it. -/
theorem spared {α : Type} {read : Reader α} {firsts lasts : List Char} (token : IsToken w)
    (delimited : read.Delimited firsts lasts)
    (begins : ∀ c ∈ firsts, isInner c = false ∧ c ∉ closers)
    (ends : ∀ c ∈ lasts, isInner c = false ∧ c ∉ openers) : read.Spares w :=
  delimited.spares (fun c member => token.not_mem_tail (begins c member).1 (begins c member).2)
    fun c member => token.not_mem_dropLast (ends c member).1 (ends c member).2

/-- A token in the text of a stand-in is all of it. -/
theorem eq_standIn (token : IsToken w) {c d : Char} {digits : Text} (opens : c ∈ openers)
    (closes : d ∈ closers) (all : ∀ c ∈ digits, isDigit c = true)
    (h : w <:+: c :: (digits ++ [d])) : w = c :: (digits ++ [d]) := by
  have openerDigit : ∀ c ∈ openers, isDigit c = false ∧ c ∉ closers := by decide
  have closerDigit : ∀ c ∈ closers, isDigit c = false ∧ c ∉ openers := by decide
  have first := token.mem_openers_of_head
  have last := token.mem_closers_of_getLast
  obtain ⟨front, back, split⟩ := h
  cases front with
  | cons e front =>
    -- The token would begin with a digit or at the end.
    obtain ⟨f, tail, rfl⟩ := List.exists_cons_of_ne_nil token.ne_nil
    have member : f ∈ digits ++ [d] := by
      rw [← (List.cons.inj split).2]
      simp
    have opener : f ∈ openers := first f rfl
    rcases List.mem_append.mp member with digit | same
    · exact absurd (all f digit) (by simp [(openerDigit f opener).1])
    · exact absurd closes (List.mem_singleton.mp same ▸ (openerDigit f opener).2)
  | nil =>
    rw [List.nil_append] at split
    rcases List.eq_nil_or_concat back with rfl | ⟨back, e, rfl⟩
    · rw [← split, List.append_nil]
    · -- The token would end with a digit or at the start.
      rw [List.concat_eq_append, ← List.append_assoc, ← List.cons_append] at split
      obtain ⟨split, _⟩ := List.append_inj' split rfl
      obtain ⟨tail, f, rfl⟩ := (List.eq_nil_or_concat w).resolve_left token.ne_nil
      have member : f ∈ c :: digits := by rw [← split]; simp
      have closer : f ∈ closers := last f (by simp)
      rcases List.mem_cons.mp member with rfl | digit
      · exact absurd opens (closerDigit f closer).2
      · exact absurd (all f digit) (by simp [(closerDigit f closer).1])

end IsToken

namespace StandIn

/-- What is read as a stand-in: digits between the two characters of a kind. -/
theorem read_eq_some {kinds : List StandIn} {before : Option Char} {s rest : Text}
    {value : Option Nat} (h : read kinds before s = some (value, rest)) :
    ∃ kind ∈ kinds, ∃ digits, (∀ c ∈ digits, isDigit c = true) ∧
      s = kind.opening :: (digits ++ kind.closing :: rest) ∧ value = Text.index? digits := by
  cases s with
  | nil => simp [read] at h
  | cons c s =>
    simp only [read, Option.bind_eq_bind, Option.bind_eq_some_iff] at h
    obtain ⟨kind, chosen, h⟩ := h
    split at h
    · simp at h
    · obtain ⟨rest', closed, same⟩ := Option.bind_eq_some_iff.mp h
      obtain ⟨rfl, rfl⟩ := Prod.mk.inj (Option.some.inj same)
      have opened : kind.opening = c := by simpa using List.find?_some chosen
      refine ⟨kind, List.mem_of_find?_eq_some chosen, s.takeWhile isDigit,
        fun c member => List.mem_takeWhile_imp member, ?_, rfl⟩
      have closed := Text.after?_eq_some closed
      rw [List.singleton_append] at closed
      rw [← closed, List.takeWhile_append_dropWhile, opened]

theorem delimited_read (kinds : List StandIn) :
    Reader.Delimited (read kinds) (kinds.map opening) (kinds.map closing) := by
  intro before s value rest found
  obtain ⟨kind, known, digits, _, rfl, _⟩ := read_eq_some found
  exact ⟨_, digits, _, rfl, List.mem_map_of_mem known, List.mem_map_of_mem known⟩

/-- A stand-in is read as its number, if that is small enough to be an index. -/
theorem read_token_index {kinds : List StandIn} {kind : StandIn} {i : Nat}
    (chosen : kinds.find? (fun k => k.opening == kind.opening) = some kind)
    (ends : isDigit kind.closing = false) (before : Option Char) (rest : Text) :
    read kinds before (kind.token i ++ rest) = some (Text.index? (Text.ofNat i), rest) := by
  have digits : ∀ c ∈ Text.ofNat i, isDigit c = true := fun c => Text.isDigit_of_mem_ofNat
  have split : kind.token i ++ rest = kind.opening :: (Text.ofNat i ++ kind.closing :: rest) := by
    simp [token]
  have run : (Text.ofNat i ++ kind.closing :: rest).takeWhile isDigit = Text.ofNat i := by
    rw [List.takeWhile_append_of_pos digits]
    simp [ends]
  have left : (Text.ofNat i ++ kind.closing :: rest).dropWhile isDigit = kind.closing :: rest := by
    rw [List.dropWhile_append_of_pos digits]
    simp [ends]
  have some : (Text.ofNat i).isEmpty = false := by simp [Text.ofNat, Nat.toDigits_ne_nil]
  rw [split, read]
  simp [chosen, run, left, some, Text.after?]

theorem read_token {kinds : List StandIn} {kind : StandIn} {i : Nat}
    (chosen : kinds.find? (fun k => k.opening == kind.opening) = some kind)
    (ends : isDigit kind.closing = false) (fits : i ≤ Text.maxIndex) (before : Option Char)
    (rest : Text) : read kinds before (kind.token i ++ rest) = some (some i, rest) := by
  rw [read_token_index chosen ends, Text.index?_ofNat fits]

/-- Characters that are in no token of an element are in no stand-in. -/
theorem not_mem_token {kind : StandIn} (known : kind ∈ allStandIns) {c : Char}
    (digit : isDigit c = false) (opening : c ∉ allStandIns.map StandIn.opening)
    (closing : c ∉ allStandIns.map StandIn.closing) (n : Nat) : c ∉ kind.token n := by
  simp only [token, List.mem_cons, List.mem_append, List.not_mem_nil, or_false, not_or]
  refine ⟨fun same => ?_, fun member => ?_, fun same => ?_⟩
  · exact opening (same ▸ List.mem_map_of_mem known)
  · exact absurd (Text.isDigit_of_mem_ofNat member) (by simp [digit])
  · exact closing (same ▸ List.mem_map_of_mem known)

section

variable {kinds : List StandIn} {parts : Array Text} {s w : Text}

/-- Reading stand-ins cuts no token. -/
theorem spares_of_isToken (known : ∀ kind ∈ kinds, kind ∈ allStandIns) (token : IsToken w) :
    Reader.Spares (read kinds) w := by
  have begins : ∀ kind ∈ allStandIns,
      IsToken.isInner kind.opening = false ∧ kind.opening ∉ IsToken.closers := by decide
  have ends : ∀ kind ∈ allStandIns,
      IsToken.isInner kind.closing = false ∧ kind.closing ∉ IsToken.openers := by decide
  refine token.spared (delimited_read kinds) ?_ ?_
  · simp only [List.mem_map, forall_exists_index, and_imp, forall_apply_eq_imp_iff₂]
    exact fun kind member => begins kind (known kind member)
  · simp only [List.mem_map, forall_exists_index, and_imp, forall_apply_eq_imp_iff₂]
    exact fun kind member => ends kind (known kind member)

/-- A token in what is read as a stand-in is the stand-in. -/
theorem eq_standIn_of_found (known : ∀ kind ∈ kinds, kind ∈ allStandIns) (token : IsToken w)
    {before : Option Char} {source rest : Text} {value : Option Nat}
    (found : read kinds before (source ++ rest) = some (value, rest)) (inside : w <:+: source) :
    w = source ∧ ∀ c ∈ w.head?, c ∈ kinds.map opening := by
  obtain ⟨kind, member, digits, all, split, _⟩ := read_eq_some found
  have whole : source = kind.opening :: (digits ++ [kind.closing]) := by
    refine List.append_cancel_right (split.trans ?_)
    simp
  have same : w = source := whole ▸ token.eq_standIn
    (List.mem_cons_of_mem _ (List.mem_map_of_mem (known kind member)))
    (List.mem_cons_of_mem _ (List.mem_map_of_mem (known kind member))) all (whole ▸ inside)
  refine ⟨same, ?_⟩
  rw [same, whole]
  simpa using ⟨kind, member, rfl⟩

/-- A token of no kind that is filled stays. -/
theorem infix_fill (known : ∀ kind ∈ kinds, kind ∈ allStandIns) (token : IsToken w)
    (other : ∀ c ∈ w.head?, c ∉ kinds.map opening) (h : w <:+: s) : w <:+: fill kinds parts s := by
  refine Text.infix_substitute (spares_of_isToken known token) token.ne_nil h ?_
  intro before source value rest found inside
  obtain ⟨_, first⟩ := eq_standIn_of_found known token found inside
  obtain ⟨c, tail, rfl⟩ := List.exists_cons_of_ne_nil token.ne_nil
  exact absurd (first c rfl) (other c rfl)

/-- The part is where its stand-in was. -/
theorem infix_fill_of_token {kind : StandIn} {i : Nat} {part : Text}
    (known : ∀ kind ∈ kinds, kind ∈ allStandIns)
    (chosen : kinds.find? (fun k => k.opening == kind.opening) = some kind)
    (fits : i ≤ Text.maxIndex) (there : parts[i]? = some part) (h : kind.token i <:+: s) :
    part <:+: fill kinds parts s := by
  have member : kind ∈ allStandIns := known kind (List.mem_of_find?_eq_some chosen)
  have token : IsToken (kind.token i) := .standIn member i
  have ends : isDigit kind.closing = false :=
    (show ∀ kind ∈ allStandIns, isDigit kind.closing = false by decide) kind member
  have spares := spares_of_isToken known token
  rcases Text.kept_scan spares token.ne_nil h with ⟨_, _, before, rest, _, nothing⟩ |
    ⟨source, value, member, inside⟩
  · rw [read_token chosen ends fits] at nothing
    simp at nothing
  · obtain ⟨before, rest, found⟩ := Text.read_of_found_mem spares.cuts member
    obtain ⟨rfl, _⟩ := eq_standIn_of_found known token found inside
    rw [read_token chosen ends fits] at found
    obtain ⟨rfl, _⟩ := Prod.mk.inj (Option.some.inj found)
    have written := Text.infix_ofPieces_of_mem member
      fun _ n => (n.bind fun i => parts[i]?).getD []
    simpa [there, fill, Text.substitute] using written

end

end StandIn

end Stencil
