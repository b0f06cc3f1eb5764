import Stencil.Proofs.Html.Element
import Stencil.Proofs.Inline.Tokens

/-!
# Protected code comes back

A placeholder in an element that is protected is in a part, whose stand-in is in the protected text
or in a later part.  Whatever is done to the protected text, as long as it keeps tokens, restoring
it brings the placeholder back (`infix_restore`).
-/

namespace Stencil

/-- Whether a text has none of the characters of stand-ins. -/
def IsClear (s : Text) : Prop := ∀ c ∈ s, c < '\ue000' ∨ '\ue005' < c
  deriving Decidable

namespace IsClear

theorem not_isReserved {s : Text} (clear : IsClear s) : ∀ c ∈ s, Code.isReserved c = false := by
  intro c member
  by_contra reserved
  obtain ⟨low, high⟩ : '\ue000' ≤ c ∧ c ≤ '\ue003' := by simpa [Code.isReserved] using reserved
  rcases clear c member with below | above
  · exact absurd low (Char.not_le.mpr below)
  · exact absurd high (Char.not_le.mpr (Char.lt_trans (by decide) above))

end IsClear

namespace Code

variable {w s : Text} {parts : List Text}

/-- Whether a part, once the stand-ins in it are filled, has a word. -/
def HasFilled (parts : List Text) (i : Nat) (w : Text) : Prop :=
  ∃ filled, (filledParts parts)[i]? = some filled ∧ w <:+: filled

theorem filledParts_append (parts : List Text) (part : Text) :
    filledParts (parts ++ [part]) =
      (filledParts parts).push (StandIn.fill standIns (filledParts parts) part) := by
  simp [filledParts]

theorem size_filledParts (parts : List Text) : (filledParts parts).size = parts.length := by
  induction parts using List.reverseRecOn with
  | nil => rfl
  | append_singleton parts part ih => simp [filledParts_append, ih]

/-- Each part is filled with the parts before it. -/
theorem getElem?_filledParts {i : Nat} {part : Text} (there : parts[i]? = some part) :
    (filledParts parts)[i]? =
      some (StandIn.fill standIns (filledParts (parts.take i)) part) := by
  induction parts using List.reverseRecOn with
  | nil => simp at there
  | append_singleton parts last ih =>
    rw [filledParts_append, Array.getElem?_push, size_filledParts]
    rw [List.getElem?_append] at there
    by_cases inside : i < parts.length
    · rw [if_pos inside] at there
      rw [if_neg inside.ne, ih there, List.take_append_of_le_length inside.le]
    · rw [if_neg inside] at there
      have index := (List.getElem?_eq_some_iff.mp there).1
      have same : i = parts.length := by
        rw [List.length_singleton] at index
        omega
      subst same
      rw [Nat.sub_self] at there
      obtain rfl := Option.some.inj there
      rw [if_pos rfl, List.take_left]

/-- A part is filled from the parts before it, so that those after it do not matter. -/
theorem getElem?_filledParts_take {i j : Nat} (before : i < j) :
    (filledParts (parts.take j))[i]? = (filledParts parts)[i]? := by
  have same : (parts.take j)[i]? = parts[i]? := List.getElem?_take_of_lt before
  cases there : parts[i]? with
  | none =>
    have outside : parts.length ≤ i := List.getElem?_eq_none_iff.mp there
    have outside' : (parts.take j).length ≤ i := List.getElem?_eq_none_iff.mp (same.trans there)
    rw [Array.getElem?_eq_none (by rwa [size_filledParts]),
      Array.getElem?_eq_none (by rwa [size_filledParts])]
  | some part =>
    rw [getElem?_filledParts there, getElem?_filledParts (same.trans there), List.take_take,
      min_eq_left before.le]

theorem mem_allStandIns : ∀ kind ∈ standIns, kind ∈ allStandIns := by decide

theorem infix_fill {k : TagKind} {n : Nat} {filled : Array Text} (h : k.placeholder n <:+: s) :
    k.placeholder n <:+: StandIn.fill standIns filled s := by
  refine StandIn.infix_fill mem_allStandIns (.placeholder k n) (fun c first => ?_) h
  obtain rfl := Option.some.inj first
  decide

/-- A placeholder in a part is in the filled part. -/
theorem hasFilled_placeholder {i n : Nat} {k : TagKind} {part : Text}
    (there : parts[i]? = some part) (h : k.placeholder n <:+: part) :
    HasFilled parts i (k.placeholder n) :=
  ⟨_, getElem?_filledParts there, infix_fill h⟩

theorem find?_standIns {kind : StandIn} (known : kind ∈ standIns) :
    standIns.find? (fun k => k.opening == kind.opening) = some kind :=
  (show ∀ kind ∈ standIns, standIns.find? (fun k => k.opening == kind.opening) = some kind by
    decide) kind known

/-- A part in which the stand-in of an earlier part stands has what that part has. -/
theorem HasFilled.of_token {i j : Nat} {part : Text} {kind : StandIn} (has : HasFilled parts i w)
    (known : kind ∈ standIns) (there : parts[j]? = some part) (token : kind.token i <:+: part)
    (before : i < j) (fits : i ≤ Text.maxIndex) : HasFilled parts j w := by
  obtain ⟨filled, inner, inside⟩ := has
  refine ⟨_, getElem?_filledParts there, inside.trans ?_⟩
  exact StandIn.infix_fill_of_token mem_allStandIns (find?_standIns known) fits
    ((getElem?_filledParts_take before).trans inner) token

/-- A text in which the stand-in of a part stands is restored with what the part has. -/
theorem HasFilled.restore {i : Nat} {kind : StandIn} (has : HasFilled parts i w)
    (known : kind ∈ standIns) (token : kind.token i <:+: s) (fits : i ≤ Text.maxIndex) :
    w <:+: restore parts s := by
  obtain ⟨filled, there, inside⟩ := has
  exact inside.trans (StandIn.infix_fill_of_token mem_allStandIns (find?_standIns known) fits there
    token)

section

variable {α : Type} {p : Protected} {kind : StandIn} {read : Reader α}

theorem take_of_plain {write : Text → α → Text}
    (plain : Text.scan read p.text = p.text.map .plain) : p.take kind read write = p := by
  have placed := @StandIn.place_plain_append α kind write p.text p.parts.length []
  rw [List.append_nil] at placed
  rw [Protected.take, plain, placed]
  simp [StandIn.place]

theorem getElem?_take {write : Text → α → Text} {i : Nat} {part : Text}
    (there : p.parts[i]? = some part) : (p.take kind read write).parts[i]? = some part := by
  have inside := (List.getElem?_eq_some_iff.mp there).1
  exact (List.getElem?_append_left inside).trans there

/-- A token stays in a text of which elements are taken out, or it is in one of these. -/
theorem infix_take (p : Protected) (kind : StandIn) (delimited : read.Delimited ['<'] ['>'])
    (token : IsToken w) (h : w <:+: p.text) :
    w <:+: (p.take kind read fun source _ => source).text ∨
      ∃ i part, (p.take kind read fun source _ => source).parts[i]? = some part ∧
        p.parts.length ≤ i ∧ w <:+: part ∧
        kind.token i <:+: (p.take kind read fun source _ => source).text := by
  have spares : read.Spares w := token.spared delimited (by decide) (by decide)
  have kept := Text.kept_scan spares token.ne_nil h
  rcases StandIn.infix_place kept (fun _ _ _ inside => inside) p.parts.length with
    outside | ⟨i, part, there, inside, placed⟩
  · exact .inl outside
  · refine .inr ⟨p.parts.length + i, part, ?_, Nat.le_add_right _ _, inside, placed⟩
    refine (List.getElem?_append_right (Nat.le_add_right _ _)).trans ?_
    rw [Nat.add_sub_cancel_left]
    exact there

/-- Taking finds out trades the characters that begin them for parts. -/
theorem length_take {characters firsts lasts : List Char} (delimited : read.Delimited firsts lasts)
    (begins : ∀ c ∈ firsts, c ∈ characters) (outside : ∀ n, ∀ c ∈ kind.token n, c ∉ characters)
    (write : Text → α → Text) :
    (p.take kind read write).parts.length +
        (p.take kind read write).text.countP (· ∈ characters) ≤
      p.parts.length + p.text.countP (· ∈ characters) := by
  have count := @StandIn.length_place_scan α read p.text kind write characters firsts lasts
    delimited begins outside p.parts.length
  have length : (p.take kind read write).parts.length = p.parts.length +
      (kind.place write p.parts.length (Text.scan read p.text)).2.length := List.length_append
  rw [length, Nat.add_assoc]
  exact Nat.add_le_add_left count _

end

/-- A text with its `pre` elements taken out. -/
def presTaken (s : Text) : Protected :=
  Protected.take ⟨s, []⟩ block (Element.read "pre") fun source _ => source

/-- A text with its `pre` and its `code` elements taken out. -/
def elementsTaken (s : Text) : Protected :=
  (presTaken s).take inline (Element.read "code") fun source _ => source

/-- There are at most as many parts as there were characters for them. -/
theorem length_elementsTaken (s : Text) :
    (elementsTaken s).parts.length + (elementsTaken s).text.countP (· ∈ Emphasis.firsts) ≤
      s.length := by
  have pres : (presTaken s).parts.length + (presTaken s).text.countP (· ∈ Emphasis.firsts) ≤
      0 + s.countP (· ∈ Emphasis.firsts) :=
    length_take (Element.delimited_read "pre") (by decide) (Emphasis.not_mem_firsts (by decide)) _
  have codes : (elementsTaken s).parts.length +
      (elementsTaken s).text.countP (· ∈ Emphasis.firsts) ≤
      (presTaken s).parts.length + (presTaken s).text.countP (· ∈ Emphasis.firsts) :=
    length_take (Element.delimited_read "code") (by decide) (Emphasis.not_mem_firsts (by decide)) _
  have count : s.countP (· ∈ Emphasis.firsts) ≤ s.length := List.countP_le_length
  omega

theorem not_mem_take {α : Type} {p : Protected} {kind : StandIn} {read : Reader α}
    {write : Text → α → Text} {c : Char} (absent : c ∉ p.text) (apart : ∀ n, c ∉ kind.token n) :
    c ∉ (p.take kind read write).text := by
  intro member
  rcases StandIn.mem_place member with source | ⟨n, token⟩
  · rw [Text.sources_scan] at source
    exact absent source
  · exact apart n token

/-- Nothing that begins with a back quote is found where there is none. -/
theorem take_of_not_mem {α : Type} {p : Protected} {kind : StandIn} {read : Reader α}
    {write : Text → α → Text} {mark : Text}
    (marked : ∀ before t answer, read before t = some answer →
      ∃ rest, Text.after? ('\x60' :: mark) t = some rest)
    (plain : '\x60' ∉ p.text) : p.take kind read write = p := by
  refine take_of_plain (Text.scan_eq_plain fun t tail _ before => ?_)
  cases found : read before t with
  | none => rfl
  | some answer =>
    obtain ⟨rest, mark⟩ := marked before t answer found
    rw [Text.after?_eq_some mark] at tail
    exact absurd (tail.subset List.mem_cons_self) plain

/-- Without back quotes there is no other code to protect. -/
theorem protect_eq (clear : ∀ c ∈ s, isReserved c = false) (plain : '\x60' ∉ s) :
    protect s = elementsTaken s := by
  have filtered : s.filter (fun c => !isReserved c) = s :=
    List.filter_eq_self.mpr fun c member => by simp [clear c member]
  have apart (kind : StandIn) (known : kind ∈ standIns) (n : Nat) : '\x60' ∉ kind.token n :=
    StandIn.not_mem_token (mem_allStandIns kind known) (by decide) (by decide) (by decide) n
  have blocks := @not_mem_take _ ⟨s, []⟩ block (Element.read "pre") (fun source _ => source) '\x60'
    plain (apart block (by decide))
  have codes := @not_mem_take _ _ inline (Element.read "code") (fun source _ => source) '\x60'
    blocks (apart inline (by decide))
  have begins {β : Type} {start : Text} {t : Text} {f : Text → Option β} {answer : β}
      (found : (Text.after? start t).bind f = some answer) :
      ∃ rest, Text.after? start t = some rest := by
    obtain ⟨rest, opened, _⟩ := Option.bind_eq_some_iff.mp found
    exact ⟨rest, opened⟩
  rw [protect, filtered]
  dsimp only
  rw [@take_of_not_mem _ _ _ readLanguageBlock _ ['\x60', '\x60'] (fun _ _ _ => begins) blocks,
    @take_of_not_mem _ _ _ readBlock _ ['\x60', '\x60'] (fun _ _ _ => begins) blocks,
    @take_of_not_mem _ _ _ readInline _ [] (fun _ _ _ => begins) codes]
  rfl

theorem isToken_token {kind : StandIn} (known : kind ∈ standIns) (i : Nat) :
    IsToken (kind.token i) :=
  .standIn (mem_allStandIns kind known) i

theorem not_isReserved_ofNat (n : Nat) : ∀ c ∈ Text.ofNat n, Emphasis.isReserved c = false := by
  intro c member
  have digit := Text.isDigit_of_mem_ofNat member
  have other {d : Char} (no : isDigit d = false) : c ≠ d := by
    rintro rfl
    simp [no] at digit
  simp [Emphasis.isReserved, @other _ (show isDigit Emphasis.standIn.opening = false by decide),
    @other _ (show isDigit Emphasis.standIn.closing = false by decide)]

/-- The characters that emphasis drops are in no other token than its own. -/
theorem not_isReserved_token {kind : StandIn} (known : kind ∈ standIns) (i : Nat) :
    ∀ c ∈ kind.token i, Emphasis.isReserved c = false := by
  have ends : ∀ kind ∈ standIns, Emphasis.isReserved kind.opening = false ∧
      Emphasis.isReserved kind.closing = false := by decide
  simp only [StandIn.token, List.forall_mem_cons, List.forall_mem_append, List.not_mem_nil,
    IsEmpty.forall_iff, implies_true, and_true]
  exact ⟨(ends kind known).1, not_isReserved_ofNat i, (ends kind known).2⟩

theorem not_isReserved_placeholder (k : TagKind) (n : Nat) :
    ∀ c ∈ k.placeholder n, Emphasis.isReserved c = false := by
  simp only [TagKind.placeholder, List.forall_mem_append]
  exact ⟨⟨⟨⟨by decide, by cases k <;> decide⟩, by decide⟩, not_isReserved_ofNat n⟩, by decide⟩

/-- Restoring a text brings back the placeholders of the text that was protected, if tokens are
kept in between. -/
theorem infix_restore {f : Text → Text} {k : TagKind} {n : Nat}
    (clear : ∀ c ∈ s, isReserved c = false) (plain : '\x60' ∉ s) (fits : s.length ≤ Text.maxIndex)
    (keeps : ∀ w, IsToken w → (∀ c ∈ w, Emphasis.isReserved c = false) →
      w <:+: (protect s).text → w <:+: f (protect s).text)
    (h : k.placeholder n <:+: s) :
    k.placeholder n <:+: restore (protect s).parts (f (protect s).text) := by
  rw [protect_eq clear plain] at keeps ⊢
  have bound {i : Nat} {part : Text} (there : (elementsTaken s).parts[i]? = some part) :
      i ≤ Text.maxIndex := by
    have inside := (List.getElem?_eq_some_iff.mp there).1
    have count := length_elementsTaken s
    omega
  -- A part whose stand-in is left in the text brings back what it has.
  have brought {kind : StandIn} {i : Nat} {part : Text} (known : kind ∈ standIns)
      (there : (elementsTaken s).parts[i]? = some part)
      (has : HasFilled (elementsTaken s).parts i (k.placeholder n))
      (left : kind.token i <:+: (elementsTaken s).text) :
      k.placeholder n <:+: restore (elementsTaken s).parts (f (elementsTaken s).text) := by
    exact has.restore known (keeps _ (isToken_token known i) (not_isReserved_token known i) left)
      (bound there)
  rcases infix_take ⟨s, []⟩ block (Element.delimited_read "pre") (.placeholder k n) h with
    outside | ⟨i, part, there, _, inside, placed⟩
  · rcases infix_take _ inline (Element.delimited_read "code") (.placeholder k n) outside with
      outside | ⟨j, part, there, _, inside, placed⟩
    · exact infix_fill (keeps _ (.placeholder k n) (not_isReserved_placeholder k n) outside)
    · exact brought (by decide) there (hasFilled_placeholder there inside) placed
  · have still : (elementsTaken s).parts[i]? = some part := getElem?_take there
    have has := hasFilled_placeholder still inside
    rcases infix_take _ inline (Element.delimited_read "code") (isToken_token (by decide) i)
      placed with outside | ⟨j, outer, there', later, inside', placed'⟩
    · exact brought (by decide) still has outside
    · have index := (List.getElem?_eq_some_iff.mp there).1
      exact brought (by decide) there'
        (has.of_token (by decide) there' inside' (index.trans_le later) (bound still)) placed'

end Code

end Stencil
