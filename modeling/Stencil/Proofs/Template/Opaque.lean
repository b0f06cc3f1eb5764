import Stencil.Proofs.Inline.Restore
import Stencil.Template.Transform

/-!
# Code within a line is opaque

Code between back quotes has no influence on the text around it (`exists_transform_quoted`).  Taking
it out leaves stand-ins that depend on nothing but the number of codes (`protect_quoted`), every
later stage sees only these, and putting the code back writes it where its stand-in ended up, as
often as that was copied.
-/

namespace Stencil

namespace Code

variable {s t u : Text} {texts codes : List Text}

def quoted (code : Text) : Text := '\x60' :: (code ++ ['\x60'])

/-- Whether a text may stand between back quotes as code. -/
structure IsInlineCode (code : Text) : Prop where
  some : code ≠ []
  inner : ∀ c ∈ code, c ≠ '\x60' ∧ c ≠ '\n' ∧ c ≠ '<'
  clear : ∀ c ∈ code, isReserved c = false

/-- Whether a text takes no part in code when it stands around code between back quotes. -/
structure IsSurrounding (s : Text) : Prop where
  unquoted : '\x60' ∉ s
  noPre : ¬"<pre".toList <:+: Text.lower s
  noCode : ¬"<code".toList <:+: Text.lower s
  clear : ∀ c ∈ s, isReserved c = false

theorem IsInlineCode.unquoted {code : Text} (isCode : IsInlineCode code) : '\x60' ∉ code :=
  fun member => (isCode.inner _ member).1 rfl

theorem IsInlineCode.isInlineChar {code : Text} (isCode : IsInlineCode code) :
    ∀ c ∈ code, isInlineChar c = true := fun c member => by
  obtain ⟨noQuote, noBreak, _⟩ := isCode.inner c member
  simp [Code.isInlineChar, noQuote, noBreak]

theorem weave_quoted_cons (t code : Text) (texts codes : List Text) :
    Text.weave (t :: texts) ((code :: codes).map quoted) =
      t ++ '\x60' :: (code ++ '\x60' :: Text.weave texts (codes.map quoted)) := by
  simp [Text.weave, quoted]

/-- What holds of all characters in texts and in codes, and of back quotes, holds in the text made
of them. -/
theorem forall_mem_weave {p : Char → Prop} (outside : ∀ t ∈ texts, ∀ c ∈ t, p c)
    (inside : ∀ code ∈ codes, ∀ c ∈ code, p c) (mark : p '\x60') :
    ∀ c ∈ Text.weave texts (codes.map quoted), p c := by
  induction codes generalizing texts with
  | nil => cases texts <;> simp_all [Text.weave]
  | cons code codes ih =>
    cases texts with
    | nil => simp [Text.weave]
    | cons t texts =>
      rw [List.forall_mem_cons] at outside inside
      simp only [weave_quoted_cons, List.forall_mem_append, List.forall_mem_cons]
      exact ⟨outside.1, mark, inside.1, mark, ih outside.2 inside.2⟩

/-- What has no back quote in it lies between two of them. -/
theorem exists_infix_of_weave (unquoted : '\x60' ∉ u) (some : u ≠ [])
    (h : u <:+: Text.weave texts (codes.map quoted)) :
    (∃ t ∈ texts, u <:+: t) ∨ ∃ code ∈ codes, u <:+: code := by
  induction codes generalizing texts with
  | nil =>
    cases texts with
    | nil => exact absurd (List.eq_nil_of_infix_nil h) some
    | cons t texts => exact .inl ⟨t, List.mem_cons_self, h⟩
  | cons code codes ih =>
    cases texts with
    | nil => exact absurd (List.eq_nil_of_infix_nil h) some
    | cons t texts =>
      rw [weave_quoted_cons] at h
      rcases Text.infix_append_cons unquoted h with here | h
      · exact .inl ⟨t, List.mem_cons_self, here⟩
      · rcases Text.infix_append_cons unquoted h with here | h
        · exact .inr ⟨code, List.mem_cons_self, here⟩
        · rcases ih h with ⟨t, member, there⟩ | ⟨code, member, there⟩
          · exact .inl ⟨t, List.mem_cons_of_mem _ member, there⟩
          · exact .inr ⟨code, List.mem_cons_of_mem _ member, there⟩

/-- No element with a name begins in a woven text if none begins in the texts around the code. -/
theorem not_infix_fold_weave {name : Text} (noS : 's' ∉ '<' :: name) (noK : 'k' ∉ '<' :: name)
    (unquoted : '\x60' ∉ '<' :: name) (absent : ∀ t ∈ texts, ¬ '<' :: name <:+: Text.lower t)
    (isCode : ∀ code ∈ codes, IsInlineCode code) :
    ¬ '<' :: name <:+: (Text.weave texts (codes.map quoted)).map foldLetter := by
  intro h
  obtain ⟨u, inside, folded⟩ := List.infix_map_iff.mp h
  have outside : '\x60' ∉ u := fun member => unquoted (by
    rw [folded]
    exact List.mem_map_of_mem (f := foldLetter) member)
  obtain ⟨c, rest, rfl, bracket, _⟩ := List.map_eq_cons_iff.mp folded.symm
  obtain rfl := eq_of_foldLetter_eq bracket (by decide)
  rcases exists_infix_of_weave outside (List.cons_ne_nil _ _) inside with
    ⟨t, member, there⟩ | ⟨code, member, there⟩
  · refine absent t member ?_
    rw [← lower_eq_of_map_foldLetter noS noK folded.symm]
    exact there.map Char.toLower
  · exact ((isCode code member).inner '<' (there.subset List.mem_cons_self)).2.2 rfl

/-- No two back quotes begin a woven text, and there are no three of them in a row. -/
theorem not_infix_fence_weave (unquoted : ∀ t ∈ texts, '\x60' ∉ t)
    (isCode : ∀ code ∈ codes, IsInlineCode code) :
    ¬['\x60', '\x60'] <+: Text.weave texts (codes.map quoted) ∧
      ¬fence <:+: Text.weave texts (codes.map quoted) := by
  induction codes generalizing texts with
  | nil =>
    cases texts with
    | nil => exact ⟨by decide, by decide⟩
    | cons t texts =>
      have absent := unquoted t List.mem_cons_self
      exact ⟨fun h => absent (h.subset List.mem_cons_self),
        fun h => absent (h.subset List.mem_cons_self)⟩
  | cons code codes ih =>
    cases texts with
    | nil => simp [Text.weave, fence]
    | cons t texts =>
      rw [List.forall_mem_cons] at unquoted isCode
      obtain ⟨noPair, noFence⟩ := ih unquoted.2 isCode.2
      obtain ⟨d, code, rfl⟩ := List.exists_cons_of_ne_nil isCode.1.some
      have within := isCode.1.unquoted
      have other : '\x60' ≠ d := List.ne_of_not_mem_cons within
      rw [weave_quoted_cons]
      generalize Text.weave texts (codes.map quoted) = rest at noPair noFence ⊢
      constructor
      · intro h
        cases t with
        | nil => simp [other] at h
        | cons c t => exact unquoted.1 ((List.cons_prefix_cons.mp h).1 ▸ List.mem_cons_self)
      · intro h
        have marked := Text.infix_right h (by simpa [fence] using unquoted.1)
        rcases List.infix_cons_iff.mp marked with begins | later
        · simp [fence, other] at begins
        · have closing := Text.infix_right later (by simpa [fence] using within)
          rcases List.infix_cons_iff.mp closing with begins | later
          · exact noPair (List.cons_prefix_cons.mp begins).2
          · exact noFence later

/-- There is no block of code without a fence. -/
theorem finds_readBlock_eq_nil (absent : ¬fence <:+: s) : Text.finds readBlock s = [] := by
  have plain : Text.scan readBlock s = s.map .plain := by
    refine Text.scan_eq_plain fun t tail _ before => ?_
    cases found : readBlock before t with
    | none => rfl
    | some answer =>
      have split := readBlock_eq_some found
      have start : fence <:+: t := ⟨[], answer.1 ++ fence ++ answer.2, by simp [split]⟩
      exact absurd (start.trans tail.isInfix) absent
  rw [Text.finds, plain]
  simp

/-- Code between back quotes is read as a whole, whatever surrounds it. -/
theorem readInline_quoted {code : Text} (some : code ≠ [])
    (inner : ∀ c ∈ code, isInlineChar c = true) (before : Option Char) (rest : Text) :
    readInline before (quoted code ++ rest) = .some (code, rest) := by
  have run : (code ++ '\x60' :: rest).takeWhile isInlineChar = code := by
    rw [List.takeWhile_append_of_pos inner]
    simp [isInlineChar]
  have left : (code ++ '\x60' :: rest).dropWhile isInlineChar = '\x60' :: rest := by
    rw [List.dropWhile_append_of_pos inner]
    simp [isInlineChar]
  have some : code.isEmpty = false := by simpa using some
  rw [readInline, quoted, List.cons_append, List.append_assoc, List.singleton_append]
  simp [-List.isEmpty_iff, -List.isEmpty_eq_false_iff, Text.after?, run, left, some]

theorem readInline_eq_none {c : Char} (other : c ≠ '\x60') (before : Option Char) :
    readInline before (c :: s) = none := by
  simp [readInline, Text.after?, other.symm]

/-- Taking out the code leaves stand-ins in its place, numbered in order. -/
theorem place_scanFrom_weave (unquoted : ∀ t ∈ texts, '\x60' ∉ t)
    (isCode : ∀ code ∈ codes, IsInlineCode code) (length : texts.length = codes.length + 1)
    (before : Option Char) (n : Nat) :
    inline.place (fun _ code => inlineHtml code) n
        (Text.scanFrom readInline before 0 (Text.weave texts (codes.map quoted))) =
      (Text.weave texts ((List.range' n codes.length).map inline.token), codes.map inlineHtml) := by
  have passed {t : Text} (absent : '\x60' ∉ t) (before : Option Char) (rest : Text) :=
    Text.scanFrom_pass readInline (s := t) (w := rest) (fun v tail some before => by
      obtain ⟨c, v, rfl⟩ := List.exists_cons_of_ne_nil some
      refine readInline_eq_none ?_ before
      rintro rfl
      exact absent (tail.subset List.mem_cons_self)) before
  induction codes generalizing texts before n with
  | nil =>
    obtain ⟨t, rfl⟩ := List.length_eq_one_iff.mp length
    obtain ⟨before', scanned⟩ := passed (unquoted t List.mem_cons_self) before []
    rw [List.append_nil] at scanned
    rw [List.map_nil, Text.weave, scanned, StandIn.place_plain_append]
    simp [Text.scanFrom, StandIn.place, Text.weave]
  | cons code codes ih =>
    obtain ⟨t, texts, rfl⟩ := List.exists_cons_of_length_eq_add_one length
    rw [List.forall_mem_cons] at unquoted isCode
    have whole : Text.weave (t :: texts) ((code :: codes).map quoted) =
        t ++ (quoted code ++ Text.weave texts (codes.map quoted)) := by
      simp [Text.weave]
    obtain ⟨before₁, skipped⟩ := passed unquoted.1 before
      (quoted code ++ Text.weave texts (codes.map quoted))
    obtain ⟨before₂, found⟩ := Text.scanFrom_found readInline (p := quoted code) (by simp [quoted])
      (readInline_quoted isCode.1.some isCode.1.isInlineChar before₁
        (Text.weave texts (codes.map quoted)))
    have rest := ih unquoted.2 isCode.2 (by simpa using length) before₂ (n + 1)
    rw [whole, skipped, found, StandIn.place_plain_append, StandIn.place, rest]
    simp [Text.weave, List.range'_succ]

/-- What is left of a text when the code within its lines is taken out, and the code as HTML. -/
theorem protect_quoted (around : ∀ t ∈ texts, IsSurrounding t)
    (isCode : ∀ code ∈ codes, IsInlineCode code) (length : texts.length = codes.length + 1) :
    protect (Text.weave texts (codes.map quoted)) =
      ⟨Text.weave texts ((List.range codes.length).map inline.token), codes.map inlineHtml⟩ := by
  have clear := forall_mem_weave (fun t member => (around t member).clear)
    (fun code member => (isCode code member).clear) (by decide : isReserved '\x60' = false)
  have noPre := Element.scan_eq_plain (not_infix_fold_weave (by decide) (by decide) (by decide)
    (fun t member => (around t member).noPre) isCode)
  have noCode := Element.scan_eq_plain (not_infix_fold_weave (by decide) (by decide) (by decide)
    (fun t member => (around t member).noCode) isCode)
  have noFence := (not_infix_fence_weave (fun t member => (around t member).unquoted) isCode).2
  have placed := place_scanFrom_weave (fun t member => (around t member).unquoted) isCode length
    none 0
  generalize Text.weave texts (codes.map quoted) = s at clear noPre noCode noFence placed ⊢
  have pres : presTaken s = ⟨s, []⟩ := take_of_plain noPre
  have blocks : blocksTaken s = ⟨s, []⟩ :=
    (blocksTaken_eq (by rw [pres]; exact finds_readBlock_eq_nil noFence)).trans pres
  have elements : Protected.take ⟨s, []⟩ inline (Element.read "code") (fun source _ => source) =
      ⟨s, []⟩ := take_of_plain noCode
  have taken : Protected.take ⟨s, []⟩ inline readInline (fun _ code => inlineHtml code) =
      ⟨Text.weave texts ((List.range' 0 codes.length).map inline.token), codes.map inlineHtml⟩ :=
    congrArg (fun placed => (⟨placed.1, placed.2⟩ : Protected)) placed
  rw [protect_eq_take clear, blocks, elements, taken, List.range_eq_range']

/-- Code as HTML has no characters of stand-ins that the code has not. -/
theorem not_isReserved_inlineHtml {code : Text} (some : code ≠ [])
    (inner : ∀ c ∈ code, isInlineChar c = true) (clear : ∀ c ∈ code, isReserved c = false) :
    ∀ c ∈ inlineHtml code, isReserved c = false := by
  have whole : Intact (.code fun _ _ => False) (quoted code) := by
    refine .of_clear fun c member => not_mem_chars_iff.mpr ?_
    revert c
    simp only [quoted, List.forall_mem_cons, List.forall_mem_append]
    exact ⟨by decide, clear, by decide, by simp⟩
  have found : readInline none (quoted code ++ []) = .some (code, []) :=
    readInline_quoted some inner none []
  exact fun c member =>
    not_mem_chars_iff.mp ((intact_inlineHtml found whole).clear (fun _ _ => id) c member)

/-- Parts without stand-ins are filled as they are. -/
theorem filledParts_of_clear {parts : List Text}
    (clear : ∀ part ∈ parts, ∀ c ∈ part, isReserved c = false) :
    filledParts parts = parts.toArray := by
  induction parts using List.reverseRecOn with
  | nil => rfl
  | append_singleton parts part ih =>
    rw [List.forall_mem_append] at clear
    have last := clear.2 part List.mem_cons_self
    rw [filledParts_append, ih clear.1,
      StandIn.fill_plain fun c member => not_mem_openings (last c member)]
    simp

end Code

/-- Pieces in which finds are replaced according to numbers are fixed texts with, between them, what
belongs to some of the numbers, in an order and as often as it comes. -/
theorem exists_weave_ofPieces (n : Nat) (pieces : List (Piece (Option Nat))) :
    ∃ (texts : List Text) (shown : List (Fin n)), texts.length = shown.length + 1 ∧
      ∀ parts : Fin n → Text,
        Text.ofPieces (fun _ i => (i.bind fun i => (List.ofFn parts)[i]?).getD []) pieces =
          Text.weave texts (shown.map parts) := by
  induction pieces with
  | nil => exact ⟨[[]], [], rfl, fun _ => rfl⟩
  | cons piece pieces ih =>
    obtain ⟨texts, shown, length, woven⟩ := ih
    cases piece with
    | plain c =>
      obtain ⟨t, texts, rfl⟩ := List.exists_cons_of_length_eq_add_one length
      refine ⟨(c :: t) :: texts, shown, length, fun parts => ?_⟩
      have rest := Text.append_weave [c] t texts (shown.map parts)
      exact (congrArg (c :: ·) (woven parts)).trans rest
    | found source value =>
      by_cases known : ∃ i : Fin n, value = some i.val
      · obtain ⟨i, rfl⟩ := known
        refine ⟨[] :: texts, i :: shown, by simpa using length, fun parts => ?_⟩
        have here : ((some i.val).bind fun i => (List.ofFn parts)[i]?).getD [] = parts i := by simp
        exact congrArg₂ (· ++ ·) here (woven parts)
      · refine ⟨texts, shown, length, fun parts => ?_⟩
        have nothing : (value.bind fun i => (List.ofFn parts)[i]?).getD [] = [] := by
          cases value with
          | none => rfl
          | some i =>
            have outside : n ≤ i := by
              by_contra inside
              exact known ⟨⟨i, not_le.mp inside⟩, rfl⟩
            simp [Nat.not_lt.mpr outside]
        exact (congrArg (· ++ _) nothing).trans (woven parts)

/-- What code within lines there is has no influence on anything but the places where it is shown:
the rest of the page and its scripts depend only on the texts around the code. -/
theorem exists_transform_quoted {n : Nat} {texts : List Text} (length : texts.length = n + 1)
    (around : ∀ t ∈ texts, Code.IsSurrounding t) :
    ∃ (pieces : List Text) (shown : List (Fin n)) (scripts : List ClientScript),
      pieces.length = shown.length + 1 ∧
      ∀ codes : Fin n → Text, (∀ i, Code.IsInlineCode (codes i)) →
        transform (Text.weave texts (List.ofFn fun i => Code.quoted (codes i))) =
          ⟨Text.weave pieces (shown.map fun i => Code.inlineHtml (codes i)), scripts⟩ := by
  let lines := beforeEmbeds (Text.weave texts ((List.range n).map Code.inline.token))
  obtain ⟨pieces, shown, count, woven⟩ :=
    exists_weave_ofPieces n (Text.scan (StandIn.read Code.standIns) (fromEmbeds lines))
  refine ⟨pieces, shown, embedScripts lines, count, fun codes isCode => ?_⟩
  have each : ∀ code ∈ List.ofFn codes, Code.IsInlineCode code := by simpa using isCode
  have taken := Code.protect_quoted around each (by simpa using length)
  have written (f : Text → Text) : (List.ofFn codes).map f = List.ofFn fun i => f (codes i) :=
    List.map_ofFn
  have clear : ∀ part ∈ List.ofFn fun i => Code.inlineHtml (codes i),
      ∀ c ∈ part, Code.isReserved c = false := by
    simpa using fun i =>
      Code.not_isReserved_inlineHtml (isCode i).some (isCode i).isInlineChar (isCode i).clear
  rw [List.length_ofFn, written, written] at taken
  rw [transform, taken, ← woven, Code.restore, Code.filledParts_of_clear clear, StandIn.fill,
    Text.substitute]
  simp only [List.getElem?_toArray]
  rfl

/-- Marks and a bar in code that is emphasised in a heading are shown where other code would be. -/
theorem exists_transform_quoted_heading :
    ∃ (pieces : List Text) (shown : List (Fin 1)) (scripts : List ClientScript),
      pieces.length = shown.length + 1 ∧
      transform "# *a `**|` b*" =
        ⟨Text.weave pieces (shown.map fun _ => Code.inlineHtml "**|"), scripts⟩ ∧
      transform "# *a `\x7b` b*" =
        ⟨Text.weave pieces (shown.map fun _ => Code.inlineHtml "\x7b"), scripts⟩ := by
  obtain ⟨pieces, shown, scripts, count, woven⟩ :=
    @exists_transform_quoted 1 ["# *a ", " b*"] rfl (by
      simp only [List.forall_mem_cons]
      exact ⟨⟨by decide, by decide, by decide, by decide⟩,
        ⟨by decide, by decide, by decide, by decide⟩, by simp⟩)
  exact ⟨pieces, shown, scripts, count,
    woven (fun _ => "**|") fun _ => ⟨by decide, by decide, by decide⟩,
    woven (fun _ => ['\x7b']) fun _ => ⟨by decide, by decide, by decide⟩⟩

end Stencil
