import Stencil.Proofs.Html.Escape
import Stencil.Proofs.Text.Fill

/-!
# Texts without broken stand-ins

A text is intact if the characters of stand-ins in it all belong to complete stand-ins that may
stand in it (`Intact`).  It may be cut wherever no stand-in runs on, which every character that is
in no stand-in ensures (`Intact.append_cons_iff`).  So lines, cells and what readers find in an
intact text are intact, and a stage that puts such parts together again keeps a text intact
(`Intact.substitute`).
-/

namespace Stencil

/-- The stand-ins that may stand in a text: those of some kinds, with the numbers of each. -/
structure Numbering where
  kinds : List StandIn
  known : ∀ kind ∈ kinds, kind ∈ allStandIns
  has : StandIn → Nat → Prop

/-- The stand-ins of code, in a text in which those of emphasis are characters like others. -/
def Numbering.code (has : StandIn → Nat → Prop) : Numbering := ⟨Code.standIns, by decide, has⟩

/-- Stand-ins in a text in which no other characters of any kind may be. -/
def Numbering.all (has : StandIn → Nat → Prop) : Numbering := ⟨allStandIns, fun _ => id, has⟩

def Numbering.chars (N : Numbering) : List Char :=
  N.kinds.map StandIn.opening ++ N.kinds.map StandIn.closing

/-- Whether the characters of stand-ins in a text all belong to stand-ins of a numbering. -/
inductive Intact (N : Numbering) : Text → Prop where
  | nil : Intact N []
  | plain {c : Char} {s : Text} (other : c ∉ N.chars) (rest : Intact N s) : Intact N (c :: s)
  | token {kind : StandIn} {i : Nat} {s : Text} (known : kind ∈ N.kinds) (has : N.has kind i)
    (rest : Intact N s) : Intact N (kind.token i ++ s)

def tokenChars : List Char := "0123456789".toList ++ standInChars

variable {N N' : Numbering} {s t u x : Text} {c : Char}

/-- A character that satisfies something is none of those that do not. -/
theorem not_mem_of_apart {p : Char → Bool} {chars : List Char}
    (apart : ∀ c ∈ chars, p c = false) (satisfies : p c = true) : c ∉ chars := fun member => by
  simp [apart c member] at satisfies

theorem mem_tokenChars_of_isDigit (digit : isDigit c = true) : c ∈ tokenChars := by
  obtain ⟨low, high⟩ : 48 ≤ c.toNat ∧ c.toNat ≤ 57 := by
    simpa [isDigit, Char.le_def, UInt32.le_iff_toNat_le] using digit
  have each : ∀ n < 58, 48 ≤ n → Char.ofNat n ∈ tokenChars := by decide
  have member := each c.toNat (Nat.lt_succ_of_le high) low
  rwa [Char.ofNat_toNat] at member

theorem mem_tokenChars_of_mem_token {kind : StandIn} (known : kind ∈ allStandIns) (i : Nat) :
    ∀ c ∈ kind.token i, c ∈ tokenChars := by
  intro c member
  rcases List.mem_cons.mp member with rfl | member
  · exact List.mem_append_right _ (List.mem_append_left _ (List.mem_map_of_mem known))
  · rcases List.mem_append.mp member with digit | closing
    · exact mem_tokenChars_of_isDigit (Text.isDigit_of_mem_ofNat digit)
    · obtain rfl := List.mem_singleton.mp closing
      exact List.mem_append_right _ (List.mem_append_right _ (List.mem_map_of_mem known))

/-- A character that is in no stand-in neither goes on with one nor begins one. -/
theorem isDigit_eq_false_of_not_mem (apart : c ∉ tokenChars) :
    isDigit c = false ∧ c ∉ allStandIns.map StandIn.opening ∧
      c ∉ allStandIns.map StandIn.closing := by
  have outside : c ∉ standInChars := fun member => apart (List.mem_append_right _ member)
  refine ⟨?_, fun member => outside (List.mem_append_left _ member),
    fun member => outside (List.mem_append_right _ member)⟩
  by_contra digit
  exact apart (mem_tokenChars_of_isDigit (by simpa using digit))

theorem Parted.of_apart (apart : c ∉ tokenChars) : Parted u (c :: x) :=
  .of_head (isDigit_eq_false_of_not_mem apart).1 (isDigit_eq_false_of_not_mem apart).2.2

/-- Characters that are in no stand-in part a text from what stands before them. -/
theorem Parted.of_head_apart (apart : ∀ c ∈ x.head?, c ∉ tokenChars) : Parted u x :=
  .inr fun c first => ⟨(isDigit_eq_false_of_not_mem (apart c first)).1,
    (isDigit_eq_false_of_not_mem (apart c first)).2.2⟩

theorem Parted.of_last_apart (apart : ∀ c ∈ u.getLast?, c ∉ tokenChars) : Parted u x :=
  .inl fun c last => ⟨(isDigit_eq_false_of_not_mem (apart c last)).1,
    (isDigit_eq_false_of_not_mem (apart c last)).2.1⟩

namespace Numbering

theorem mem_standInChars (member : c ∈ N.chars) : c ∈ standInChars := by
  rcases List.mem_append.mp member with opening | closing
  · obtain ⟨kind, inside, rfl⟩ := List.mem_map.mp opening
    exact List.mem_append_left _ (List.mem_map_of_mem (N.known kind inside))
  · obtain ⟨kind, inside, rfl⟩ := List.mem_map.mp closing
    exact List.mem_append_right _ (List.mem_map_of_mem (N.known kind inside))

theorem not_mem_chars (apart : c ∉ tokenChars) : c ∉ N.chars := fun member =>
  apart (List.mem_append_right _ (mem_standInChars member))

end Numbering

namespace Intact

theorem of_clear (clear : ∀ c ∈ s, c ∉ N.chars) : Intact N s := by
  induction s with
  | nil => exact .nil
  | cons c s ih =>
    obtain ⟨here, rest⟩ := List.forall_mem_cons.mp clear
    exact .plain here (ih rest)

/-- A text without any character of a stand-in is intact. -/
theorem of_plain (plain : ∀ c ∈ s, c ∉ standInChars) : Intact N s :=
  .of_clear fun c member inside => plain c member (Numbering.mem_standInChars inside)

theorem append (h : Intact N s) (h' : Intact N t) : Intact N (s ++ t) := by
  induction h with
  | nil => exact h'
  | plain other _ ih => exact .plain other ih
  | token known has _ ih =>
    rw [List.append_assoc]
    exact .token known has ih

theorem mono (h : Intact N s) (kinds : N'.kinds = N.kinds)
    (has : ∀ kind i, N.has kind i → N'.has kind i) : Intact N' s := by
  have chars : N'.chars = N.chars := by rw [Numbering.chars, Numbering.chars, kinds]
  induction h with
  | nil => exact .nil
  | plain other _ ih => exact .plain (chars ▸ other) ih
  | token known number _ ih => exact .token (kinds ▸ known) (has _ _ number) ih

/-- Where no stand-in can run on, both parts of an intact text are intact. -/
theorem split (h : Intact N (u ++ x)) (parted : Parted u x) : Intact N u ∧ Intact N x := by
  generalize whole : u ++ x = s at h
  induction h generalizing u with
  | nil =>
    obtain ⟨rfl, rfl⟩ := List.append_eq_nil_iff.mp whole
    exact ⟨.nil, .nil⟩
  | @plain c s other rest ih =>
    cases u with
    | nil =>
      obtain rfl : x = c :: s := whole
      exact ⟨.nil, .plain other rest⟩
    | cons d u =>
      obtain ⟨rfl, rest'⟩ := List.cons.inj (whole : d :: (u ++ x) = c :: s)
      obtain ⟨left, right⟩ := ih parted.of_cons rest'
      exact ⟨.plain other left, right⟩
  | @token kind i s known has rest ih =>
    rcases List.append_eq_append_iff.mp whole with ⟨a, same, rfl⟩ | ⟨a, rfl, rfl⟩
    · by_cases left : u = []
      · subst left
        obtain rfl : kind.token i = a := same
        exact ⟨.nil, .token known has rest⟩
      · by_cases right : a = []
        · subst right
          obtain rfl : kind.token i = u := by simpa using same
          refine ⟨?_, rest⟩
          simpa using Intact.token known has .nil
        · exact absurd (parted.of_prefix right)
            (StandIn.not_parted (N.known kind known) same left right)
    · obtain ⟨left, right⟩ := ih (.of_append parted) rfl
      exact ⟨.token known has left, right⟩

theorem cons_iff (apart : c ∉ tokenChars) : Intact N (c :: s) ↔ Intact N s := by
  refine ⟨fun h => ?_, .plain (Numbering.not_mem_chars apart)⟩
  have whole : Intact N ([c] ++ s) := h
  exact (whole.split (.of_last_apart (by simpa using apart))).2

/-- A character that is in no stand-in cuts an intact text in two. -/
theorem append_cons_iff (apart : c ∉ tokenChars) :
    Intact N (u ++ c :: x) ↔ Intact N u ∧ Intact N x := by
  constructor
  · intro h
    obtain ⟨left, right⟩ := h.split (.of_apart apart)
    exact ⟨left, (cons_iff apart).mp right⟩
  · rintro ⟨left, right⟩
    exact left.append ((cons_iff apart).mpr right)

/-- A text between others in an intact text is intact if no stand-in runs on into it or out of
it. -/
theorem between {left right : Text} (h : Intact N (left ++ s ++ right))
    (before : ∀ c ∈ left.getLast?, c ∉ tokenChars) (after : ∀ c ∈ right.head?, c ∉ tokenChars) :
    Intact N s :=
  ((h.split (.of_head_apart after)).1.split (.of_last_apart before)).2

/-- A text in which no stand-in begins has no character of one where an intact text begins with
it. -/
theorem of_unopened (unopened : ∀ c ∈ u, c ∉ N.kinds.map StandIn.opening)
    (h : Intact N (u ++ x)) : (∀ c ∈ u, c ∉ N.chars) ∧ Intact N x := by
  induction u with
  | nil => exact ⟨by simp, h⟩
  | cons c u ih =>
    obtain ⟨here, later⟩ := List.forall_mem_cons.mp unopened
    generalize whole : c :: u ++ x = s at h
    cases h with
    | nil => simp at whole
    | plain other rest =>
      obtain ⟨rfl, rfl⟩ := List.cons.inj whole
      obtain ⟨clear, behind⟩ := ih later rest
      exact ⟨List.forall_mem_cons.mpr ⟨other, clear⟩, behind⟩
    | token known _ _ =>
      obtain ⟨rfl, _⟩ := List.cons.inj whole
      exact absurd (List.mem_map_of_mem known) here

/-- Without stand-ins to number there is no character of one. -/
theorem clear (none : ∀ kind i, ¬N.has kind i) (h : Intact N s) : ∀ c ∈ s, c ∉ N.chars := by
  induction h with
  | nil => simp
  | plain other _ ih => exact List.forall_mem_cons.mpr ⟨other, ih⟩
  | token _ has _ _ => exact absurd has (none _ _)

/-- Without stand-ins of emphasis, those of code are whole where their characters alone count. -/
theorem code_of_all {has : StandIn → Nat → Prop}
    (code : ∀ kind i, has kind i → kind ∈ Code.standIns) (h : Intact (.all has) s) :
    Intact (.code has) s := by
  induction h with
  | nil => exact .nil
  | plain other _ ih => exact .plain (fun member => other (Numbering.mem_standInChars member)) ih
  | token _ number _ ih => exact .token (code _ _ number) number ih

/-- What is put between two texts without stand-ins. -/
theorem enclosed {left right : Text} (h : Intact N s) (before : ∀ c ∈ left, c ∉ standInChars)
    (after : ∀ c ∈ right, c ∉ standInChars) : Intact N (left ++ s ++ right) :=
  ((of_plain before).append h).append (of_plain after)

section

variable {p : Char → Bool} (apart : ∀ c ∈ tokenChars, p c = false)

include apart

theorem dropWhile (h : Intact N s) : Intact N (s.dropWhile p) := by
  rw [← List.takeWhile_append_dropWhile (p := p) (l := s)] at h
  refine (h.split (.of_last_apart fun c last => not_mem_of_apart apart ?_)).2
  exact List.mem_takeWhile_imp (List.mem_of_getLast? last)

theorem dropEndWhile (h : Intact N s) : Intact N (Text.dropEndWhile p s) := by
  obtain ⟨dropped, split, all⟩ := Text.exists_dropEndWhile p s
  rw [split] at h
  refine (h.split (.of_head_apart fun c first => not_mem_of_apart apart ?_)).1
  exact all c (List.mem_of_head? first)

end

theorem trimEnd (h : Intact N s) : Intact N (Text.trimEnd s) := h.dropEndWhile (by decide)

theorem trim (h : Intact N s) : Intact N (Text.trim s) :=
  Intact.trimEnd (h.dropWhile (by decide))

/-- The text without a last character that is in no stand-in. -/
theorem dropLast (h : Intact N s) (ends : s.getLast? = some c) (apart : c ∉ tokenChars) :
    Intact N s.dropLast := by
  rw [← List.dropLast_append_getLast? c ends] at h
  exact ((append_cons_iff apart).mp h).1

/-- A text behind a character that is in no stand-in, if it begins with that. -/
theorem after (h : Intact N s) (apart : c ∉ tokenChars) :
    Intact N ((Text.after? [c] s).getD s) := by
  cases found : Text.after? [c] s with
  | none => exact h
  | some rest =>
    rw [Text.after?_eq_some found] at h
    exact (cons_iff apart).mp h

theorem join_iff {parts : List Text} (apart : c ∉ tokenChars) :
    Intact N (Text.join [c] parts) ↔ ∀ part ∈ parts, Intact N part := by
  induction parts with
  | nil => simpa [Text.join] using Intact.nil
  | cons part parts ih =>
    cases parts with
    | nil => simp [Text.join]
    | cons next parts =>
      rw [Text.join_cons_cons, List.append_assoc, List.singleton_append, append_cons_iff apart, ih,
        List.forall_mem_cons (a := part)]

theorem splitOn (h : Intact N s) (apart : c ∉ tokenChars) :
    ∀ part ∈ Text.splitOn c s, Intact N part := by
  rw [← Text.join_splitOn c s] at h
  exact (join_iff apart).mp h

theorem lines (h : Intact N s) : ∀ line ∈ Text.lines s, Intact N line := h.splitOn (by decide)

theorem ofLines {lines : List Text} (h : ∀ line ∈ lines, Intact N line) :
    Intact N (Text.ofLines lines) :=
  (join_iff (by decide)).mpr h

theorem flatten {texts : List Text} (h : ∀ s ∈ texts, Intact N s) : Intact N texts.flatten := by
  induction texts with
  | nil => exact .nil
  | cons s texts ih =>
    obtain ⟨here, rest⟩ := List.forall_mem_cons.mp h
    exact here.append (ih rest)

theorem flatMap {β : Type} {items : List β} {f : β → Text} (h : ∀ a ∈ items, Intact N (f a)) :
    Intact N (items.flatMap f) := by
  rw [List.flatMap_def]
  exact flatten (by simpa using h)

/-- What is written for a thing that there may be, and nothing for no such thing. -/
theorem getD_map {β : Type} {item? : Option β} {f : β → Text} (h : ∀ a ∈ item?, Intact N (f a)) :
    Intact N ((item?.map f).getD []) := by
  cases item? with
  | none => exact .nil
  | some a => exact h a rfl

/-- Steps that keep texts intact do so one after the other. -/
theorem foldl {β : Type} {items : List β} {f : Text → β → Text}
    (keeps : ∀ a ∈ items, ∀ s, Intact N s → Intact N (f s a)) (h : Intact N s) :
    Intact N (items.foldl f s) := by
  induction items generalizing s with
  | nil => exact h
  | cons a items ih =>
    obtain ⟨here, later⟩ := List.forall_mem_cons.mp keeps
    exact ih later (here s h)

/-- Other characters may be replaced by texts without stand-ins. -/
theorem flatMap_chars {f : Char → Text} (token : ∀ c ∈ tokenChars, f c = [c])
    (other : ∀ c, c ∉ tokenChars → ∀ d ∈ f c, d ∉ standInChars) (h : Intact N s) :
    Intact N (s.flatMap f) := by
  induction h with
  | nil => exact .nil
  | @plain c s plain _ ih =>
    rw [List.flatMap_cons]
    refine .append ?_ ih
    by_cases inside : c ∈ tokenChars
    · rw [token c inside]
      exact .plain plain .nil
    · exact of_plain (other c inside)
  | @token kind i s known has _ ih =>
    have same : (kind.token i).flatMap f = kind.token i := by
      rw [List.flatMap_congr fun c member =>
        token c (mem_tokenChars_of_mem_token (N.known kind known) i c member)]
      simp
    rw [List.flatMap_append, same]
    exact .token known has ih

/-- Escaping keeps a text intact, since it spells out no character of a stand-in. -/
theorem escapeHtml (h : Intact N s) : Intact N (escapeHtml s) := by
  induction h with
  | nil => exact .nil
  | @plain c s other rest ih =>
    generalize joined : c :: s = t
    fun_cases Stencil.escapeHtml t <;> cases joined
    case plain.case2.refl =>
      refine .append ?_ ih
      split <;> exact .of_plain (by decide)
    case plain.case7.refl => exact .plain other ih
    all_goals exact .append (.of_plain (by decide)) ih
  | @token kind i s known has _ ih =>
    have apart : ∀ c ∈ escapedChars, c ∉ tokenChars := by decide
    rw [escapeHtml_append_of_not_mem]
    · exact .token known has ih
    · exact fun c member escaped =>
        apart c escaped (mem_tokenChars_of_mem_token (N.known kind known) i c member)

theorem escapeAttr (h : Intact N s) : Intact N (escapeAttr s) := by
  refine h.flatMap_chars (by decide) fun c apart => ?_
  unfold escapeAttrChar
  split
  · decide
  · split
    · decide
    · simpa using fun member => apart (List.mem_append_right _ member)

end Intact

end Stencil
