import Stencil.Proofs.Inline.Code
import Stencil.Proofs.Text.Severable

/-!
# Taking code out and putting it back

Taking finds out of a text and putting them back as HTML is the same as writing the HTML where they
stood (`restore_take`).  So elements that are only taken out leave no trace, and a text with other
code in it rises (`liftsAt_restored`).  The stand-ins in a protected text all name parts, which is
what `Sealed` says and every step keeps.
-/

namespace Stencil.Code

variable {parts : List Text} {s t u x : Text} {n : Nat}

theorem not_mem_openings {c : Char} (other : isReserved c = false) :
    c ∉ standIns.map StandIn.opening := fun member => by
  have reserved : ∀ c ∈ standIns.map StandIn.opening, isReserved c = true := by decide
  simp [reserved c member] at other

theorem not_isDigit_closing {kind : StandIn} (known : kind ∈ standIns) :
    isDigit kind.closing = false :=
  (show ∀ kind ∈ standIns, isDigit kind.closing = false by decide) kind known

/-- The reserved characters are those of stand-ins. -/
theorem mem_chars_iff {has : StandIn → Nat → Prop} {c : Char} :
    c ∈ (Numbering.code has).chars ↔ isReserved c = true := by
  have all : ∀ c ∈ Numbering.chars (.code has), isReserved c = true :=
    show ∀ c ∈ ['\ue000', '\ue002', '\ue001', '\ue003'], isReserved c = true by decide
  refine ⟨all c, fun reserved => ?_⟩
  obtain ⟨low, high⟩ : 57344 ≤ c.toNat ∧ c.toNat ≤ 57347 := by
    simpa [isReserved, Char.le_def, UInt32.le_iff_toNat_le] using reserved
  have each : ∀ n < 57348, 57344 ≤ n →
      Char.ofNat n ∈ ['\ue000', '\ue002', '\ue001', '\ue003'] := by
    intro n below above
    obtain rfl | rfl | rfl | rfl : n = 57344 ∨ n = 57345 ∨ n = 57346 ∨ n = 57347 := by omega
    all_goals decide
  have member := each c.toNat (Nat.lt_succ_of_le high) low
  rwa [Char.ofNat_toNat] at member

theorem not_mem_chars_iff {has : StandIn → Nat → Prop} {c : Char} :
    c ∉ (Numbering.code has).chars ↔ isReserved c = false := by
  simp [mem_chars_iff]

/-- Whether a part is an element of code within a line. -/
def IsCodeElement (part : Text) : Prop := ∃ c rest, part = '<' :: c :: rest ∧ (c = 'c' ∨ c = 'C')

def Names (parts : List Text) (kind : StandIn) (i : Nat) : Prop :=
  kind ∈ standIns ∧ ∃ part, parts[i]? = some part ∧ (kind = inline → IsCodeElement part)

/-- A numbering with the numbers of some parts. -/
def naming (N : Numbering) (parts : List Text) : Numbering :=
  ⟨N.kinds, N.known, Names parts⟩

/-- Whether the characters of stand-ins in a text all belong to stand-ins that name parts. -/
inductive Sealed (parts : List Text) : Text → Prop where
  | nil : Sealed parts []
  | plain {c : Char} {s : Text} (other : isReserved c = false) (rest : Sealed parts s) :
    Sealed parts (c :: s)
  | token {kind : StandIn} {i : Nat} {s : Text} (names : Names parts kind i)
    (rest : Sealed parts s) : Sealed parts (kind.token i ++ s)

theorem Names.append {kind : StandIn} {i : Nat} (names : Names parts kind i) (more : List Text) :
    Names (parts ++ more) kind i := by
  obtain ⟨known, part, there, element⟩ := names
  have inside := (List.getElem?_eq_some_iff.mp there).1
  exact ⟨known, part, (List.getElem?_append_left inside).trans there, element⟩

/-- A text is sealed if it is intact with the stand-ins that name parts. -/
theorem sealed_iff : Sealed parts s ↔ Intact (.code (Names parts)) s := by
  constructor
  · intro h
    induction h with
    | nil => exact .nil
    | plain other _ ih => exact .plain (not_mem_chars_iff.mpr other) ih
    | token names _ ih => exact .token names.1 names ih
  · intro h
    induction h with
    | nil => exact .nil
    | plain other _ ih => exact .plain (not_mem_chars_iff.mp other) ih
    | token _ names _ ih => exact .token names ih

theorem Names.lt_length {kind : StandIn} {i : Nat} (names : Names parts kind i) :
    i < parts.length := by
  obtain ⟨_, part, there, _⟩ := names
  exact (List.getElem?_eq_some_iff.mp there).1

namespace Sealed

theorem of_plain (clear : ∀ c ∈ s, isReserved c = false) : Sealed parts s :=
  sealed_iff.mpr (.of_clear fun c member => not_mem_chars_iff.mpr (clear c member))

/-- Where no stand-in can run on, both parts of a sealed text are sealed. -/
theorem split (h : Sealed parts (u ++ x)) (parted : Parted u x) :
    Sealed parts u ∧ Sealed parts x := by
  obtain ⟨left, right⟩ := (sealed_iff.mp h).split parted
  exact ⟨sealed_iff.mpr left, sealed_iff.mpr right⟩

/-- A sealed text is filled with the parts that it names. -/
theorem fill_congr {filled filled' : Array Text} (h : Sealed parts s)
    (agree : ∀ i, i < parts.length → filled'[i]? = filled[i]?) :
    StandIn.fill standIns filled' s = StandIn.fill standIns filled s :=
  (sealed_iff.mp h).fill_congr (fun _ => id) fun _ _ i names => agree i names.lt_length

/-- At the stand-in of code within a line an element begins when it is filled. -/
theorem exists_fill_inline (h : Sealed parts (u ++ inline.opening :: x))
    (few : parts.length ≤ Text.maxIndex) :
    ∃ e y, StandIn.fill standIns (filledParts parts) (inline.opening :: x) = '<' :: e :: y ∧
      (e = 'c' ∨ e = 'C') := by
  have here := (h.split (.of_head (by decide) (by decide))).2
  generalize whole : inline.opening :: x = s at here
  cases here with
  | nil => simp at whole
  | plain other rest =>
    obtain ⟨rfl, _⟩ := List.cons.inj whole
    exact absurd other (by decide)
  | @token kind i s names rest =>
    obtain ⟨known, part, there, element⟩ := names
    have same : kind = inline := by
      have opening : inline.opening = kind.opening := (List.cons.inj whole).1
      exact (show ∀ kind ∈ standIns, inline.opening = kind.opening → kind = inline by decide) kind
        known opening
    obtain ⟨c, body, rfl, name⟩ := element same
    have inside := (List.getElem?_eq_some_iff.mp there).1
    have plain : isReserved '<' = false ∧ isReserved c = false := by
      rcases name with rfl | rfl <;> decide
    rw [StandIn.fill_token (find?_standIns known) (not_isDigit_closing known)
      (inside.le.trans few) (getElem?_filledParts there),
      StandIn.fill_cons (not_mem_openings plain.1), StandIn.fill_cons (not_mem_openings plain.2)]
    exact ⟨c, _, rfl, name⟩

end Sealed

theorem filledParts_agree {i : Nat} (inside : i < parts.length) (more : List Text) :
    (filledParts (parts ++ more))[i]? = (filledParts parts)[i]? := by
  have same := @getElem?_filledParts_take (parts ++ more) i parts.length inside
  rw [List.take_left] at same
  exact same.symm

/-- What taking finds out needs of a reader and of what is written for its finds: a find begins and
ends with brackets or back quotes, an element is written for it, and no stand-in is broken. -/
structure Takes {α : Type} (kind : StandIn) (read : Reader α) (write : Text → α → Text) : Prop where
  known : kind ∈ standIns
  delimited : read.Delimited ['\x60', '<'] ['\x60', '>']
  element : ∀ before source value rest, read before (source ++ rest) = some (value, rest) →
    ∃ c body, write source value = '<' :: c :: body ∧ (write source value).getLast? = some '>' ∧
      (kind = inline → c = 'c' ∨ c = 'C')
  intact : ∀ N : Numbering, ∀ before source value rest,
    read before (source ++ rest) = some (value, rest) → Intact N source →
      Intact N (write source value)

section

variable {α : Type} {kind : StandIn} {read : Reader α} {write : Text → α → Text}

theorem Takes.severs (takes : Takes kind read write) {N : Numbering} : read.Severs N :=
  takes.delimited.severs (by decide) (by decide)

/-- A sealed text is sealed before a find, in it and behind it. -/
theorem Takes.split (takes : Takes kind read write) {before : Option Char} {source rest : Text}
    {value : α} (found : read before (source ++ rest) = some (value, rest)) {run behind : Text}
    (h : Sealed parts (run ++ (source ++ behind))) :
    Sealed parts run ∧ Sealed parts source ∧ Sealed parts behind := by
  simp only [sealed_iff] at h ⊢
  exact takes.severs.severable found run behind h

/-- An element is filled apart from what stands around it. -/
theorem fill_element {filled : Array Text} {body : Text}
    (ends : ('<' :: body).getLast? = some '>') (run behind : Text) :
    StandIn.fill standIns filled (run ++ ('<' :: body ++ behind)) =
      StandIn.fill standIns filled run ++
        (StandIn.fill standIns filled ('<' :: body) ++ StandIn.fill standIns filled behind) := by
  have left : Parted run ('<' :: body ++ behind) := .of_head (by decide) (by decide)
  have right : Parted ('<' :: body) behind := .inl fun d final => by
    obtain rfl : '>' = d := Option.some.inj (ends.symm.trans final)
    decide
  rw [StandIn.fill_append mem_allStandIns left, StandIn.fill_append mem_allStandIns right]

theorem fill_token_append {filled : Array Text} {i : Nat} {part : Text} (known : kind ∈ standIns)
    (fits : i ≤ Text.maxIndex) (there : filled[i]? = some part) (run behind : Text) :
    StandIn.fill standIns filled (run ++ (kind.token i ++ behind)) =
      StandIn.fill standIns filled run ++ (part ++ StandIn.fill standIns filled behind) := by
  have opening : ∀ kind ∈ standIns, isDigit kind.opening = false ∧
      kind.opening ∉ allStandIns.map StandIn.closing := by decide
  have left : Parted run (kind.token i ++ behind) :=
    .of_head (opening kind known).1 (opening kind known).2
  rw [StandIn.fill_append mem_allStandIns left,
    StandIn.fill_token (find?_standIns known) (not_isDigit_closing known) fits there]

/-- Leaving stand-ins for finds and filling these with what is written for the finds is the same as
writing it in their place. -/
theorem fill_place {pieces : List (Piece α)} {filled filled' : Array Text} {run : Text}
    (takes : Takes kind read write)
    (cut : ∀ source value, .found source value ∈ pieces →
      ∃ before rest, read before (source ++ rest) = some (value, rest))
    (agree : ∀ i, i < parts.length → filled'[i]? = filled[i]?)
    (bound : n + (kind.place write n pieces).2.length ≤ Text.maxIndex)
    (there : ∀ j part, (kind.place write n pieces).2[j]? = some part → Sealed parts part →
      filled'[n + j]? = some (StandIn.fill standIns filled part))
    (h : Sealed parts (run ++ pieces.flatMap Piece.source)) :
    StandIn.fill standIns filled' (run ++ (kind.place write n pieces).1) =
      StandIn.fill standIns filled (run ++ Text.ofPieces write pieces) := by
  induction pieces generalizing run n with
  | nil =>
    have sealedRun : Sealed parts run := by simpa using h
    simpa [StandIn.place, Text.ofPieces] using sealedRun.fill_congr agree
  | cons piece pieces ih =>
    have later (source : Text) (value : α) (member : .found source value ∈ pieces) :=
      cut source value (List.mem_cons_of_mem _ member)
    cases piece with
    | plain c =>
      have moved := @ih n (run ++ [c]) later bound there (by simpa [Piece.source] using h)
      simpa [StandIn.place, Text.ofPieces] using moved
    | found source value =>
      obtain ⟨before, rest, found⟩ := cut source value List.mem_cons_self
      obtain ⟨sealedRun, sealedSource, sealedRest⟩ := takes.split found h
      obtain ⟨c, body, element, ends, _⟩ := takes.element before source value rest found
      have fewer : n + 1 + (kind.place write (n + 1) pieces).2.length ≤ Text.maxIndex := by
        simp only [StandIn.place, List.length_cons] at bound
        omega
      have later := @ih (n + 1) [] later fewer (fun j part member => by
        rw [Nat.add_assoc, Nat.add_comm 1 j]
        exact there (j + 1) part member) sealedRest
      have here : filled'[n]? = some (StandIn.fill standIns filled (write source value)) :=
        there 0 _ rfl (sealed_iff.mpr
          (takes.intact _ before source value rest found (sealed_iff.mp sealedSource)))
      have fits : n ≤ Text.maxIndex := (Nat.le_add_right _ _).trans bound
      have placed := fill_token_append takes.known fits here run
        (kind.place write (n + 1) pieces).1
      have written := @fill_element filled _ (element ▸ ends) run (Text.ofPieces write pieces)
      rw [← element] at written
      exact placed.trans ((congrArg₂ _ (sealedRun.fill_congr agree)
        (congrArg _ later)).trans written.symm)

/-- What is kept is written for finds. -/
theorem Takes.exists_read (takes : Takes kind read write) {part : Text}
    (member : part ∈ (kind.place write n (Text.scan read s)).2) :
    ∃ find ∈ (Text.parts (Text.scan read s)).2, part = write find.1.1 find.1.2 ∧
      ∃ before rest, read before (find.1.1 ++ rest) = some (find.1.2, rest) := by
  rw [StandIn.place_snd] at member
  obtain ⟨find, inside, rfl⟩ := List.mem_map.mp member
  exact ⟨find, inside, rfl, (takes.severs (N := .code fun _ _ => False)).exists_read
    (Text.mem_of_mem_parts inside)⟩

/-- What is written for finds names the finds. -/
theorem Takes.names {p : Protected} (takes : Takes kind read write) {j : Nat}
    (inside : j < (kind.place write p.parts.length (Text.scan read p.text)).2.length) :
    Names (p.take kind read write).parts kind (p.parts.length + j) := by
  have there : (p.take kind read write).parts[p.parts.length + j]? =
      (kind.place write p.parts.length (Text.scan read p.text)).2[j]? := by
    refine (List.getElem?_append_right (Nat.le_add_right _ _)).trans ?_
    rw [Nat.add_sub_cancel_left]
  obtain ⟨part, found⟩ : ∃ part, (kind.place write p.parts.length (Text.scan read p.text)).2[j]? =
      some part := ⟨_, List.getElem?_eq_getElem inside⟩
  refine ⟨takes.known, part, there.trans found, fun same => ?_⟩
  obtain ⟨find, _, written, before, rest, read⟩ := takes.exists_read (List.mem_of_getElem? found)
  obtain ⟨c, body, element, _, name⟩ := takes.element before _ _ rest read
  exact ⟨c, body, written.trans element, name same⟩

def marks : List Char := '\x60' :: Emphasis.firsts

/-- Whether the stand-ins of a protected text name its parts, and are few enough to be numbered even
if more are left for everything that may be found in it. -/
structure Protected.Sound (p : Protected) : Prop where
  text : Sealed p.parts p.text
  few : p.parts.length + p.text.countP (· ∈ marks) ≤ Text.maxIndex

theorem Protected.Sound.length_le {p : Protected} (sound : p.Sound) :
    p.parts.length ≤ Text.maxIndex :=
  (Nat.le_add_right _ _).trans sound.few

variable {p : Protected}

theorem cut_scan (takes : Takes kind read write) (source : Text) (value : α)
    (member : .found source value ∈ Text.scan read s) :
    ∃ before rest, read before (source ++ rest) = some (value, rest) :=
  Text.read_of_found_mem takes.delimited.cuts member

/-- Taking finds out trades the characters that begin them for parts. -/
theorem Takes.length_le (takes : Takes kind read write) :
    (p.take kind read write).parts.length +
        (p.take kind read write).text.countP (· ∈ marks) ≤
      p.parts.length + p.text.countP (· ∈ marks) := by
  have outside : ∀ c ∈ marks, isDigit c = false ∧ c ∉ allStandIns.map StandIn.opening ∧
      c ∉ allStandIns.map StandIn.closing := by decide
  refine length_take takes.delimited (by decide) (fun n c member mark => ?_) write
  obtain ⟨digit, opening, closing⟩ := outside c mark
  exact StandIn.not_mem_token (mem_allStandIns _ takes.known) digit opening closing n member

/-- No stand-in is broken when finds are taken out. -/
theorem Takes.intact_text {N : Numbering} (takes : Takes kind read write) (known : kind ∈ N.kinds)
    (h : Intact (naming N p.parts) p.text) :
    Intact (naming N (p.take kind read write).parts) (p.take kind read write).text := by
  have widened : Intact (naming N (p.take kind read write).parts) p.text :=
    h.mono rfl fun _ _ names => names.append _
  exact widened.place known takes.severs fun _ => takes.names

theorem Protected.Sound.take (sound : p.Sound) (takes : Takes kind read write) :
    (p.take kind read write).Sound where
  text := sealed_iff.mpr
    (takes.intact_text (N := .code (Names p.parts)) takes.known (sealed_iff.mp sound.text))
  few := takes.length_le.trans sound.few

/-- Taking finds out of a text and putting them back as HTML is writing it in their place. -/
theorem restore_take (sound : p.Sound) (takes : Takes kind read write) :
    restore (p.take kind read write).parts (p.take kind read write).text =
      restore p.parts (Text.substitute read write p.text) := by
  have total := (sound.take takes).few
  have few := sound.length_le
  refine @fill_place p.parts p.parts.length α kind read write (Text.scan read p.text)
    (filledParts p.parts) _ [] takes (cut_scan takes) (fun i inside => filledParts_agree inside _)
    ?_ (fun j part member isSealed => ?_) ?_
  · have length : (p.take kind read write).parts.length = p.parts.length +
        (kind.place write p.parts.length (Text.scan read p.text)).2.length := List.length_append
    omega
  · have there : (p.take kind read write).parts[p.parts.length + j]? = some part := by
      refine (List.getElem?_append_right (Nat.le_add_right _ _)).trans ?_
      rw [Nat.add_sub_cancel_left]
      exact member
    rw [getElem?_filledParts there]
    refine congrArg some (isSealed.fill_congr fun i inside => ?_)
    rw [getElem?_filledParts_take (inside.trans_le (Nat.le_add_right _ _))]
    exact filledParts_agree inside _
  · rw [List.nil_append, Text.sources_scan]
    exact sound.text

end

/-- Elements that are taken out as they stand. -/
theorem takes_element {name : Text} {kind : StandIn} {d : Char} (known : kind ∈ standIns)
    (named : name.head? = some d) (code : kind = inline → d = 'c') :
    Takes kind (Element.read name) fun source _ => source where
  known := known
  delimited := (Element.delimited_read name).mono (by simp) (by simp)
  element before source e rest found := by
    obtain ⟨c, body, split, letter⟩ := Element.exists_source named found
    obtain rfl : source = '<' :: c :: (body ++ ['>']) :=
      List.append_cancel_right (split.trans (by simp))
    refine ⟨c, _, rfl, ?_, fun same => ?_⟩
    · rw [← List.cons_append, ← List.cons_append, List.getLast?_concat]
    · exact eq_of_foldLetter_eq_c (letter.trans (code same))
  intact _ _ _ _ _ _ whole := whole

/-- A block with a language is read from its fences, the name of the language and the code between
them. -/
theorem readLanguageBlock_eq_some {before : Option Char} {rest : Text} {value : Text × Text}
    (h : readLanguageBlock before s = some (value, rest)) :
    ∃ blanks, s = fence ++ value.1 ++ blanks ++ ['\n'] ++ value.2 ++ fence ++ rest ∧
      ∀ c ∈ value.1, isLanguageChar c = true := by
  obtain ⟨inside, opened, h⟩ := Option.bind_eq_some_iff.mp h
  dsimp only at h
  split at h
  · simp at h
  · obtain ⟨below, turned, h⟩ := Option.bind_eq_some_iff.mp h
    obtain ⟨⟨code, rest'⟩, closed, same⟩ := Option.bind_eq_some_iff.mp h
    obtain ⟨rfl, rfl⟩ := Prod.mk.inj (Option.some.inj same)
    refine ⟨(inside.dropWhile isLanguageChar).takeWhile isBlank, ?_,
      fun c member => List.mem_takeWhile_imp member⟩
    have split : inside = inside.takeWhile isLanguageChar ++
        ((inside.dropWhile isLanguageChar).takeWhile isBlank ++ ['\n'] ++ below) := by
      rw [← Text.eq_of_after?_dropWhile turned, List.takeWhile_append_dropWhile]
    rw [Text.splitAtFirst?_eq_some closed] at split
    rw [Text.after?_eq_some opened]
    exact (congrArg (fence ++ ·) split).trans (by simp)

theorem readBlock_eq_some {before : Option Char} {code rest : Text}
    (h : readBlock before s = some (code, rest)) : s = fence ++ code ++ fence ++ rest := by
  obtain ⟨inside, opened, closed⟩ := Option.bind_eq_some_iff.mp h
  rw [Text.after?_eq_some opened, Text.splitAtFirst?_eq_some closed]
  simp

/-- Code within a line is read from the two back quotes around it. -/
theorem readInline_eq_some {before : Option Char} {code rest : Text}
    (h : readInline before s = some (code, rest)) : s = '\x60' :: (code ++ '\x60' :: rest) := by
  obtain ⟨inside, opened, h⟩ := Option.bind_eq_some_iff.mp h
  dsimp only at h
  split at h
  · simp at h
  · obtain ⟨rest', closed, same⟩ := Option.bind_eq_some_iff.mp h
    obtain ⟨rfl, rfl⟩ := Prod.mk.inj (Option.some.inj same)
    rw [Text.after?_eq_some opened]
    nth_rewrite 1 [Text.eq_of_after?_dropWhile closed]
    simp

section

variable {N : Numbering} {before : Option Char} {source rest : Text}

/-- Code between marks is intact if all of it is, and so is its HTML. -/
theorem intact_languageBlockHtml {value : Text × Text}
    (found : readLanguageBlock before (source ++ rest) = some (value, rest))
    (h : Intact N source) : Intact N (languageBlockHtml value.1 value.2) := by
  obtain ⟨blanks, split, language⟩ := readLanguageBlock_eq_some found
  obtain rfl := List.append_cancel_right split
  have code : Intact N value.2 := h.between (by simp; decide) (by decide)
  have name : Intact N value.1 :=
    .of_plain fun c member => not_mem_of_apart (by decide +kernel) (language c member)
  exact name.enclosed (by decide) (by decide)
    |>.append code.escapeHtml
    |>.append (.of_plain (by decide))

theorem intact_blockHtml {code : Text}
    (found : readBlock before (source ++ rest) = some (code, rest)) (h : Intact N source) :
    Intact N (blockHtml code) := by
  obtain rfl := List.append_cancel_right (readBlock_eq_some found)
  have inside : Intact N code := h.between (by decide) (by decide)
  exact (inside.after (by decide)).escapeHtml.enclosed (by decide) (by decide)

theorem intact_inlineHtml {code : Text}
    (found : readInline before (source ++ rest) = some (code, rest)) (h : Intact N source) :
    Intact N (inlineHtml code) := by
  obtain rfl : source = ['\x60'] ++ code ++ ['\x60'] :=
    List.append_cancel_right ((readInline_eq_some found).trans (by simp))
  have inside : Intact N code := h.between (by decide) (by decide)
  exact inside.escapeHtml.enclosed (by decide) (by decide)

end

theorem delimited_readLanguageBlock : Reader.Delimited readLanguageBlock ['\x60'] ['\x60'] := by
  intro before s value rest found
  obtain ⟨blanks, rfl, _⟩ := readLanguageBlock_eq_some found
  exact ⟨'\x60', ['\x60', '\x60'] ++ value.1 ++ blanks ++ ['\n'] ++ value.2 ++ ['\x60', '\x60'],
    '\x60', by simp [fence], by decide, by decide⟩

theorem delimited_readBlock : Reader.Delimited readBlock ['\x60'] ['\x60'] := by
  intro before s code rest found
  obtain rfl := readBlock_eq_some found
  exact ⟨'\x60', ['\x60', '\x60'] ++ code ++ ['\x60', '\x60'], '\x60', by simp [fence],
    by decide, by decide⟩

theorem delimited_readInline : Reader.Delimited readInline ['\x60'] ['\x60'] := by
  intro before s code rest found
  obtain rfl := readInline_eq_some found
  exact ⟨'\x60', code, '\x60', rfl, by decide, by decide⟩

theorem takes_languageBlock :
    Takes block readLanguageBlock fun _ (language, code) => languageBlockHtml language code where
  known := by decide
  delimited := delimited_readLanguageBlock.mono (by simp) (by simp)
  element before source value rest found := by
    refine ⟨'p', _, rfl, ?_, by decide⟩
    exact List.getLast?_append_of_ne_nil _ (by decide)
  intact _ _ _ _ _ found := intact_languageBlockHtml found

theorem takes_block : Takes block readBlock fun _ code => blockHtml code where
  known := by decide
  delimited := delimited_readBlock.mono (by simp) (by simp)
  element before source code rest found := by
    refine ⟨'p', _, rfl, ?_, by decide⟩
    exact List.getLast?_append_of_ne_nil _ (by decide)
  intact _ _ _ _ _ found := intact_blockHtml found

theorem takes_inline : Takes inline readInline fun _ code => inlineHtml code where
  known := by decide
  delimited := delimited_readInline.mono (by simp) (by simp)
  element before source code rest found := by
    refine ⟨'c', _, rfl, ?_, by decide⟩
    exact List.getLast?_append_of_ne_nil _ (by decide)
  intact _ _ _ _ _ found := intact_inlineHtml found

def Protected.restored (p : Protected) : Text := restore p.parts p.text

section

variable {α : Type} {p : Protected} {kind : StandIn} {read : Reader α} {write : Text → α → Text}

theorem restored_take_source (sound : p.Sound) (takes : Takes kind read fun source _ => source) :
    (p.take kind read fun source _ => source).restored = p.restored := by
  have taken := restore_take sound takes
  rwa [Text.substitute_source] at taken

theorem take_of_finds_eq_nil (none : Text.finds read p.text = []) : p.take kind read write = p :=
  take_of_plain (Text.scan_eq_plain_of_finds none)

/-- A text rises when code between back quotes is taken out and put back as HTML. -/
theorem rises_take (sound : p.Sound) (takes : Takes kind read write)
    (delimited : read.Delimited ['\x60'] ['\x60']) (some : Text.finds read p.text ≠ []) :
    Rises p.restored (p.take kind read write).restored := by
  have lifts : LiftsAt (Text.substitute read write) (fun s => ∀ value ∈ Text.finds read s, False)
      p.text := by
    refine Text.liftsAt_of_begins delimited.begins (by decide) (fun _ _ => False.elim)
      fun source value member _ => ?_
    obtain ⟨before, rest, found⟩ := cut_scan takes source value member
    obtain ⟨c, body, element, _⟩ := takes.element before source value rest found
    exact ⟨_, element⟩
  have rises := lifts.rises fun none => some (List.eq_nil_iff_forall_not_mem.mpr none)
  have few := sound.length_le
  rw [Protected.restored, Protected.restored, restore_take sound takes]
  refine rises.fill mem_allStandIns fun u x split _ => ?_
  exact Sealed.exists_fill_inline (split ▸ sound.text) few

end

/-- A place that is recognised is found, if not an earlier one. -/
theorem splitWhere?_ne_none {after : Text → Option Text} {front : Text} (there : after t ≠ none) :
    Text.splitWhere? after (front ++ t) ≠ none := by
  induction front with
  | nil =>
    cases t with
    | nil => simpa [Text.splitWhere?] using there
    | cons c t =>
      rw [List.nil_append, Text.splitWhere?]
      split
      · simp
      · contradiction
  | cons c front ih =>
    rw [List.cons_append, Text.splitWhere?]
    split
    · simp
    · simpa using ih

/-- A block with a language is a block. -/
theorem readLanguageBlock_eq_none (before : Option Char) (s : Text)
    (none : readBlock before s = none) : readLanguageBlock before s = Option.none := by
  by_contra some
  obtain ⟨⟨value, rest⟩, found⟩ := Option.ne_none_iff_exists'.mp some
  obtain ⟨blanks, split, _⟩ := readLanguageBlock_eq_some found
  have closed : Text.after? fence (fence ++ rest) ≠ Option.none := by simp
  refine @splitWhere?_ne_none _ _ (value.1 ++ blanks ++ ['\n'] ++ value.2) closed ?_
  have opened : Text.after? fence s =
      Option.some (value.1 ++ blanks ++ ['\n'] ++ value.2 ++ (fence ++ rest)) := by
    rw [split]
    simp only [List.append_assoc, Text.after?_append]
  have both : (Text.after? fence s).bind (Text.splitAtFirst? fence) = Option.none := none
  rwa [opened] at both

/-- A text with its `pre` elements and its blocks of code with a language taken out. -/
def languagesTaken (s : Text) : Protected :=
  (presTaken s).take block readLanguageBlock fun _ (language, code) =>
    languageBlockHtml language code

/-- A text with its `pre` elements and its blocks of code taken out. -/
def blocksTaken (s : Text) : Protected :=
  (languagesTaken s).take block readBlock fun _ code => blockHtml code

/-- Whether there is no code between back quotes in a text. -/
@[mk_iff]
structure IsUncoded (s : Text) : Prop where
  /-- There is no block, apart from `pre` elements. -/
  blocks : Text.finds readBlock (presTaken s).text = []
  /-- There is no code within a line, apart from elements. -/
  inline : Text.finds readInline (elementsTaken s).text = []

instance (s : Text) : Decidable (IsUncoded s) := decidable_of_iff _ (isUncoded_iff s).symm

section

variable (clear : ∀ c ∈ s, isReserved c = false) (fits : s.length ≤ Text.maxIndex)

include clear

theorem protect_eq_take : protect s =
    ((blocksTaken s).take inline (Element.read "code") fun source _ => source).take inline
      readInline fun _ code => inlineHtml code := by
  have filtered : s.filter (fun c => !isReserved c) = s :=
    List.filter_eq_self.mpr fun c member => by simp [clear c member]
  rw [protect, filtered]
  rfl

omit clear

theorem blocksTaken_eq (none : Text.finds readBlock (presTaken s).text = []) :
    blocksTaken s = presTaken s := by
  have languages : languagesTaken s = presTaken s :=
    take_of_finds_eq_nil (Text.finds_eq_nil_of_imp readLanguageBlock_eq_none none)
  rw [blocksTaken, languages, take_of_finds_eq_nil none]

theorem takes_pre : Takes block (Element.read "pre") fun source _ => source :=
  takes_element (by decide) rfl (by decide)

theorem takes_code : Takes inline (Element.read "code") fun source _ => source :=
  takes_element (by decide) rfl fun _ => rfl

include clear fits

theorem sound_whole : Protected.Sound ⟨s, []⟩ where
  text := .of_plain clear
  few := by
    have count := List.countP_le_length (p := (· ∈ marks)) (l := s)
    simp only [List.length_nil, Nat.zero_add]
    exact count.trans fits

theorem sound_presTaken : (presTaken s).Sound := (sound_whole clear fits).take takes_pre

theorem restored_presTaken : (presTaken s).restored = s := by
  rw [presTaken, restored_take_source (sound_whole clear fits) takes_pre]
  exact StandIn.fill_plain fun c member => not_mem_openings (clear c member)

theorem sound_languagesTaken : (languagesTaken s).Sound :=
  (sound_presTaken clear fits).take takes_languageBlock

/-- A text with a block of code rises, since the stand-in of the block is restored to a tag in place
of a back quote. -/
theorem rises_blocksTaken (some : Text.finds readBlock (presTaken s).text ≠ []) :
    Rises s (blocksTaken s).restored := by
  by_cases language : Text.finds readLanguageBlock (presTaken s).text = []
  · have same : languagesTaken s = presTaken s := take_of_finds_eq_nil language
    have rises := rises_take (sound_presTaken clear fits) takes_block delimited_readBlock some
    rw [restored_presTaken clear fits] at rises
    rwa [blocksTaken, same]
  · have first := rises_take (sound_presTaken clear fits) takes_languageBlock
      delimited_readLanguageBlock language
    rw [restored_presTaken clear fits] at first
    by_cases more : Text.finds readBlock (languagesTaken s).text = []
    · rwa [blocksTaken, take_of_finds_eq_nil more]
    · exact first.trans
        (rises_take (sound_languagesTaken clear fits) takes_block delimited_readBlock more)

theorem sound_blocksTaken : (blocksTaken s).Sound :=
  (sound_languagesTaken clear fits).take takes_block

/-- Restoring a protected text gives the text back if there is no code between back quotes in it,
and otherwise something to which it rises. -/
theorem liftsAt_restored : LiftsAt (fun s => (protect s).restored) IsUncoded s where
  eq_self uncoded := by
    rw [protect_eq_take clear, blocksTaken_eq uncoded.blocks]
    change ((elementsTaken s).take inline readInline _).restored = s
    rw [take_of_finds_eq_nil uncoded.inline, elementsTaken,
      restored_take_source (sound_presTaken clear fits) takes_code, restored_presTaken clear fits]
  rises coded := by
    have taken := restored_take_source (sound_blocksTaken clear fits) takes_code
    have sound := (sound_blocksTaken clear fits).take takes_code
    rw [protect_eq_take clear]
    by_cases inlines : Text.finds readInline ((blocksTaken s).take inline (Element.read "code")
        fun source _ => source).text = []
    · have blocks : Text.finds readBlock (presTaken s).text ≠ [] := fun none => coded
        ⟨none, by rwa [blocksTaken_eq none] at inlines⟩
      rw [take_of_finds_eq_nil inlines, taken]
      exact rises_blocksTaken clear fits blocks
    · have rises := rises_take sound takes_inline delimited_readInline inlines
      rw [taken] at rises
      by_cases blocks : Text.finds readBlock (presTaken s).text = []
      · rw [blocksTaken_eq blocks, restored_presTaken clear fits] at rises
        rwa [blocksTaken_eq blocks]
      · exact (rises_blocksTaken clear fits blocks).trans rises

omit fits in
/-- No more marks are in a protected text than characters in the text itself. -/
theorem countP_protect : (protect s).text.countP (· ∈ Emphasis.firsts) ≤ s.length := by
  have begins {c : Char} (first : c ∈ Emphasis.firsts) : c ∈ marks := List.mem_cons_of_mem _ first
  have whole : s.countP (· ∈ marks) ≤ s.length := List.countP_le_length
  have pres := @Takes.length_le _ _ _ _ ⟨s, []⟩ takes_pre
  have languages := @Takes.length_le _ _ _ _ (presTaken s) takes_languageBlock
  have blocks := @Takes.length_le _ _ _ _ (languagesTaken s) takes_block
  have codes := @Takes.length_le _ _ _ _ (blocksTaken s) takes_code
  have inlines := @Takes.length_le _ _ _ _ ((blocksTaken s).take inline (Element.read "code")
    fun source _ => source) takes_inline
  rw [← protect_eq_take clear] at inlines
  have fewer : (protect s).text.countP (· ∈ Emphasis.firsts) ≤
      (protect s).text.countP (· ∈ marks) :=
    List.countP_mono_left fun c _ first => by simpa using begins (by simpa using first)
  simp only [List.length_nil, Nat.zero_add] at pres
  calc (protect s).text.countP (· ∈ Emphasis.firsts)
      ≤ (protect s).parts.length + (protect s).text.countP (· ∈ marks) :=
        fewer.trans (Nat.le_add_left _ _)
    _ ≤ s.countP (· ∈ marks) :=
        inlines.trans (codes.trans (blocks.trans (languages.trans pres)))
    _ ≤ s.length := whole

omit clear fits in
/-- A character of no stand-in is in a protected text only if it was in the text. -/
theorem not_mem_protect {c : Char} (absent : c ∉ s)
    (apart : ∀ kind ∈ standIns, ∀ n, c ∉ kind.token n) : c ∉ (protect s).text := by
  have filtered : c ∉ s.filter fun c => !isReserved c := fun member =>
    absent (List.mem_filter.mp member).1
  have blocks := apart block (by decide)
  have inlines := apart inline (by decide)
  exact not_mem_take (not_mem_take (not_mem_take (not_mem_take (not_mem_take filtered blocks)
    blocks) blocks) inlines) inlines

/-- Whatever lets a protected text rise lets it rise when it is restored. -/
theorem rises_restore (h : Rises (protect s).text t) :
    Rises (protect s).restored (restore (protect s).parts t) := by
  have sound : (protect s).Sound := by
    rw [protect_eq_take clear]
    exact ((sound_blocksTaken clear fits).take takes_code).take takes_inline
  refine h.fill mem_allStandIns fun u x split _ => ?_
  exact Sealed.exists_fill_inline (split ▸ sound.text) sound.length_le

end

end Stencil.Code

namespace Stencil

/-- Taking code out brings none of the stand-ins of emphasis. -/
theorem IsClear.protect {s : Text} (clear : IsClear s) :
    ∀ c ∈ (Code.protect s).text, Emphasis.isReserved c = false := by
  intro c member
  by_contra reserved
  have sign : c = '\ue004' ∨ c = '\ue005' := by
    simpa [Emphasis.isReserved, Emphasis.standIn, or_iff_not_imp_left] using reserved
  refine Code.not_mem_protect (fun member => ?_) (fun kind known n => ?_) member
  · have outside := clear c member
    rcases sign with rfl | rfl
    · exact absurd outside (by decide)
    · exact absurd outside (by decide)
  · exact fun token => reserved (Code.not_isReserved_token known n c token)

end Stencil
