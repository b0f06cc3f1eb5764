import Stencil.Proofs.Form.Control
import Stencil.Proofs.Inline.Intact

/-!
# Forms keep stand-ins whole

Controls in forms turn intact texts into intact texts.  Their values are cut at commas, colons and
braces, and shown as they are or with quotes escaped.  An id has none of the characters of a
stand-in, and names of controls cannot have any, so that a label made of one has none either.
-/

namespace Stencil

variable {N : Numbering} {s : Text} {c : Char}

theorem not_mem_standInChars_ofNat_of_outside {n : Nat} (outside : n < 57344 ∨ 57349 < n) :
    Char.ofNat n ∉ standInChars := by
  have codes : ∀ c ∈ standInChars, 57344 ≤ c.toNat ∧ c.toNat ≤ 57349 := by decide
  intro member
  have value : (Char.ofNat n).toNat = n ∨ (Char.ofNat n).toNat = 0 := by
    by_cases valid : n.isValidChar
    · exact .inl (congrArg Char.toNat (dif_pos valid))
    · exact .inr (congrArg Char.toNat (dif_neg valid))
  have code := codes _ member
  omega

/-- Upper case brings no character of a stand-in. -/
theorem not_mem_standInChars_upperCase (plain : c ∉ standInChars) :
    ∀ d ∈ upperCase c, d ∉ standInChars := by
  unfold upperCase
  dsimp only
  split
  · rename_i low
    have ascii : ∀ n < 128, (Char.ofNat n).toUpper ∉ standInChars := by decide
    have here := ascii c.toNat low
    rw [Char.ofNat_toNat] at here
    simpa using here
  · split
    · rename_i codes expanded
      have outside : ∀ entry ∈ upperExpansions, ∀ n ∈ entry.2, n < 57344 ∨ 57349 < n := by
        decide +kernel
      obtain ⟨left, right, split, _⟩ := List.lookup_eq_some_iff.mp expanded
      intro d member
      obtain ⟨n, code, rfl⟩ := List.mem_map.mp member
      exact not_mem_standInChars_ofNat_of_outside
        (outside (c.toNat, codes) (by simp [split]) n code)
    · split
      · rename_i lo hi step first covered
        have outside : ∀ entry ∈ upperRanges,
            entry.2.2.2 + (entry.2.1 - entry.1) < 57344 ∨ 57349 < entry.2.2.2 := by
          decide +kernel
        have far : first + (hi - lo) < 57344 ∨ 57349 < first :=
          outside _ (List.mem_of_find?_eq_some covered)
        have covers := List.find?_some covered
        simp only [Bool.and_eq_true, decide_eq_true_eq] at covers
        have result := @not_mem_standInChars_ofNat_of_outside (first + (c.toNat - lo)) (by omega)
        simpa using result
      · simpa using plain

namespace Form

/-- A label that is made from a name has no characters of stand-ins, unless the name has them. -/
theorem not_mem_standInChars_derivedLabel {name : Text} (plain : ∀ c ∈ name, c ∉ standInChars) :
    ∀ c ∈ derivedLabel name, c ∉ standInChars := by
  have spaced : ∀ c ∈ name.map (fun c => if c = '_' ∨ c = '-' then ' ' else c),
      c ∉ standInChars := by
    intro c member
    obtain ⟨d, inside, rfl⟩ := List.mem_map.mp member
    split
    · decide
    · exact plain d inside
  unfold derivedLabel
  split
  · simp
  · rename_i c rest shape
    rw [shape] at spaced
    obtain ⟨first, others⟩ := List.forall_mem_cons.mp spaced
    exact List.forall_mem_append.mpr ⟨not_mem_standInChars_upperCase first, others⟩

theorem not_mem_standInChars_idPart (value : Text) : ∀ c ∈ idPart value, c ∉ standInChars := by
  have apart : ∀ c ∈ standInChars, (isAlphanumeric c || c == '-' || c == '_') = false := by
    decide +kernel
  intro c member
  obtain ⟨d, _, rfl⟩ := List.mem_map.mp member
  split <;> rename_i fits
  · exact not_mem_of_apart apart fits
  · decide

def Choice.IsIntact (N : Numbering) (choice : Choice) : Prop :=
  Intact N choice.value ∧ Intact N choice.display

def Entry.IsIntact (N : Numbering) : Entry → Prop
  | .single choice => choice.IsIntact N
  | .group label choices => Intact N label ∧ ∀ choice ∈ choices, choice.IsIntact N

theorem join_consPart (c : Char) (parts : List Text) :
    Text.join [','] (consPart c parts) = c :: Text.join [','] parts := by
  cases parts with
  | nil => rfl
  | cons part parts =>
    cases parts with
    | nil => rfl
    | cons next parts => simp [consPart, Text.join_cons_cons]

theorem splitTopFrom_ne_nil (depth : Nat) (s : Text) : splitTopFrom depth s ≠ [] := by
  have cons (c : Char) (parts : List Text) : consPart c parts ≠ [] := by
    cases parts <;> simp [consPart]
  cases s with
  | nil => simp [splitTopFrom]
  | cons c s =>
    unfold splitTopFrom
    repeat' split
    · simp
    all_goals exact cons c _

/-- Values are cut at nothing but commas. -/
theorem join_splitTopFrom (depth : Nat) (s : Text) :
    Text.join [','] (splitTopFrom depth s) = s := by
  induction s generalizing depth with
  | nil => rfl
  | cons c s ih =>
    unfold splitTopFrom
    split
    · rename_i comma
      obtain ⟨part, parts, split⟩ := List.exists_cons_of_ne_nil (splitTopFrom_ne_nil 0 s)
      have rest := ih 0
      rw [split] at rest ⊢
      rw [Text.join_cons_cons, rest, comma.1]
      rfl
    · repeat' split
      all_goals rw [join_consPart, ih]

theorem intact_splitTop (h : Intact N s) : ∀ part ∈ splitTop s, Intact N part := by
  rw [← join_splitTopFrom 0 s] at h
  intro part member
  obtain ⟨before, inside, rfl⟩ := List.mem_map.mp (List.mem_filter.mp member).1
  exact ((Intact.join_iff (by decide)).mp h before inside).trim

theorem intact_dropStar (h : Intact N s) : Intact N (dropStar s).1 := by
  unfold dropStar
  split <;> rename_i ends
  · exact (h.dropLast ends (by decide)).trimEnd
  · exact h

/-- The texts of a choice are intact if it is read from an intact part. -/
theorem Choice.isIntact_of_parse {part : Text} {choice : Choice} (h : Intact N part)
    (parsed : Choice.parse? part = some choice) : choice.IsIntact N := by
  have unstarred := intact_dropStar h.trim
  unfold Choice.parse? at parsed
  dsimp only at parsed
  split at parsed
  · simp at parsed
  · split at parsed
    · rename_i value display colon
      obtain rfl := Option.some.inj parsed
      rw [(Text.splitFirst?_eq_some_iff.mp colon).1,
        Intact.append_cons_iff (by decide)] at unstarred
      exact ⟨unstarred.1.trim, unstarred.2.trim⟩
    · obtain rfl := Option.some.inj parsed
      exact ⟨unstarred, unstarred⟩

/-- The label of a group and what is between its braces are intact if the group is. -/
theorem intact_group {part label inner : Text} (h : Intact N part)
    (found : group? part = some (label, inner)) : Intact N label ∧ Intact N inner := by
  unfold group? at found
  split at found
  · rename_i s brace
    split at found
    · rename_i ends
      obtain ⟨rfl, rfl⟩ := Prod.mk.inj (Option.some.inj found)
      rw [← List.takeWhile_append_dropWhile (p := isPlain) (l := part), brace,
        Intact.append_cons_iff (by decide)] at h
      exact ⟨h.1.trim, h.2.dropLast ends (by decide)⟩
    · simp at found
  · simp at found

/-- The texts of an entry are intact if it is read from an intact part. -/
theorem Entry.isIntact_of_parse {part : Text} {entry : Entry} (h : Intact N part)
    (parsed : Entry.parse? part = some entry) : entry.IsIntact N := by
  unfold Entry.parse? at parsed
  split at parsed
  · rename_i label inner found
    obtain rfl := Option.some.inj parsed
    obtain ⟨before, inside⟩ := intact_group h found
    refine ⟨before, fun choice member => ?_⟩
    obtain ⟨part, there, parsed⟩ := List.mem_filterMap.mp member
    exact Choice.isIntact_of_parse (intact_splitTop inside part there) parsed
  · obtain ⟨choice, chosen, rfl⟩ := Option.map_eq_some_iff.mp parsed
    exact Choice.isIntact_of_parse h chosen

theorem Entry.isIntact_of_parseAll (h : Intact N s) :
    ∀ entry ∈ Entry.parseAll s, entry.IsIntact N := by
  intro entry member
  obtain ⟨part, inside, parsed⟩ := List.mem_filterMap.mp member
  exact Entry.isIntact_of_parse (intact_splitTop h part inside) parsed

theorem Entry.IsIntact.choices {entry : Entry} (h : entry.IsIntact N) :
    ∀ choice ∈ entry.choices, choice.IsIntact N := by
  cases entry with
  | single choice => exact fun _ member => List.mem_singleton.mp member ▸ h
  | group label choices => exact h.2

section

variable {name value attributes : Text} {choice : Choice} {entry : Entry} {entries : List Entry}
  {choices : List Choice}

theorem intact_attr (plain : ∀ c ∈ name, c ∉ standInChars) (h : Intact N value) :
    Intact N (attr name value) := by
  refine h.escapeAttr.enclosed ?_ (by decide)
  simp only [List.forall_mem_append]
  exact ⟨⟨by decide, plain⟩, by decide⟩

theorem intact_flag {word : Text} (applies : Bool) (plain : ∀ c ∈ word, c ∉ standInChars) :
    Intact N (flag applies word) := by
  unfold flag
  split
  · exact .of_plain (List.forall_mem_cons.mpr ⟨by decide, plain⟩)
  · exact .nil

theorem intact_optionHtml (h : choice.IsIntact N) : Intact N (optionHtml choice) :=
  h.1.escapeAttr.enclosed (by decide) (by decide)
    |>.append (intact_flag _ (by decide))
    |>.append (.of_plain (by decide)) |>.append h.2
    |>.append (.of_plain (by decide))

/-- A radio button is intact if what is written into it is. -/
theorem intact_radioHtml (plain : ∀ c ∈ name, c ∉ standInChars) (extra : Intact N attributes)
    (h : choice.IsIntact N) : Intact N (radioHtml name attributes choice) := by
  have whole : Intact N name := .of_plain plain
  have id : Intact N (name ++ ['-'] ++ idPart choice.value) :=
    (whole.append (.of_plain (by decide))).append
      (.of_plain (not_mem_standInChars_idPart choice.value))
  unfold radioHtml
  exact id.enclosed (by decide) (by decide)
    |>.append whole.escapeAttr
    |>.append (.of_plain (by decide)) |>.append (intact_attr (by decide) h.1)
    |>.append (intact_flag _ (by decide)) |>.append extra
    |>.append (.of_plain (by decide)) |>.append id
    |>.append (.of_plain (by decide)) |>.append h.2
    |>.append (.of_plain (by decide))

theorem intact_selectEntryHtml (h : entry.IsIntact N) : Intact N (selectEntryHtml entry) := by
  cases entry with
  | single choice => exact intact_optionHtml h
  | group label choices =>
    have options : Intact N (choices.flatMap optionHtml) :=
      .flatMap fun choice member => intact_optionHtml (h.2 choice member)
    exact h.1.escapeAttr.enclosed (by decide) (by decide)
      |>.append options
      |>.append (.of_plain (by decide))

theorem intact_radioEntryHtml (plain : ∀ c ∈ name, c ∉ standInChars) (extra : Intact N attributes)
    (h : entry.IsIntact N) : Intact N (radioEntryHtml name attributes entry) := by
  cases entry with
  | single choice => exact intact_radioHtml plain extra h
  | group label choices =>
    have buttons : Intact N (choices.flatMap (radioHtml name attributes)) :=
      .flatMap fun choice member => intact_radioHtml plain extra (h.2 choice member)
    exact h.1.enclosed (by decide) (by decide)
      |>.append buttons
      |>.append (.of_plain (by decide))

/-- A checkbox is intact if what is written into it is. -/
theorem intact_checkboxHtml {required : Bool} {first : Option Choice}
    (plain : ∀ c ∈ name, c ∉ standInChars) (extra : Intact N attributes)
    (h : ∀ choice ∈ first, choice.IsIntact N) :
    Intact N (checkboxHtml required name attributes first) := by
  have whole : Intact N (escapeAttr name) := Intact.escapeAttr (.of_plain plain)
  have label : Intact N (derivedLabel name) :=
    .of_plain (not_mem_standInChars_derivedLabel plain)
  have written {checked : Bool} {value label : Text} (valued : Intact N value)
      (labelled : Intact N label) :
      Intact N ("<input type=\"checkbox\" id=\"" ++ escapeAttr name ++ "\" name=\"" ++
        escapeAttr name ++ "\"" ++ value ++ flag checked "checked" ++ flag required "required" ++
        attributes ++ "><label for=\"" ++ escapeAttr name ++ "\">" ++ label ++ "</label>") :=
    whole.enclosed (by decide) (by decide)
      |>.append whole
      |>.append (.of_plain (by decide)) |>.append valued
      |>.append (intact_flag _ (by decide)) |>.append (intact_flag _ (by decide))
      |>.append extra
      |>.append (.of_plain (by decide)) |>.append whole
      |>.append (.of_plain (by decide)) |>.append labelled
      |>.append (.of_plain (by decide))
  cases first with
  | none => exact written .nil label
  | some choice =>
    obtain ⟨value, display⟩ := h choice rfl
    unfold checkboxHtml
    dsimp only
    split
    · exact written .nil label
    · exact written (intact_attr (by decide) value) display

theorem intact_shownLabel {first : Option Choice} (plain : ∀ c ∈ name, c ∉ standInChars)
    (h : ∀ choice ∈ first, choice.IsIntact N) : Intact N (shownLabel name first) := by
  cases first with
  | none => exact .of_plain (not_mem_standInChars_derivedLabel plain)
  | some choice => exact (h choice rfl).2

theorem intact_placeholderAttribute (h : ∀ choice ∈ choices, choice.IsIntact N) :
    Intact N (placeholderAttribute choices) := by
  unfold placeholderAttribute
  exact .getD_map fun choice found =>
    intact_attr (by decide) (h choice (List.mem_of_find?_eq_some found)).2

theorem intact_nameAndId (plain : ∀ c ∈ name, c ∉ standInChars) : Intact N (nameAndId name) :=
  (intact_attr (by decide) (.of_plain plain)).append (intact_attr (by decide) (.of_plain plain))

/-- Whether the type of a control has no character of a stand-in. -/
def ControlKind.IsPlain : ControlKind → Prop
  | .button type | .input type => ∀ c ∈ type, c ∉ standInChars
  | _ => True

/-- A control of any kind is intact if its entries and its attributes are. -/
theorem ControlKind.intact_html {kind : ControlKind} (typed : kind.IsPlain)
    (plain : ∀ c ∈ name, c ∉ standInChars) (h : ∀ entry ∈ entries, entry.IsIntact N)
    (extra : Intact N attributes) : Intact N (kind.html name entries attributes) := by
  have whole : Intact N name := .of_plain plain
  have each : ∀ choice ∈ entries.flatMap Entry.choices, choice.IsIntact N := by
    intro choice member
    obtain ⟨entry, inside, there⟩ := List.mem_flatMap.mp member
    exact (h entry inside).choices choice there
  have first : ∀ choice ∈ (entries.flatMap Entry.choices).head?, choice.IsIntact N :=
    fun choice there => each choice (List.mem_of_head? there)
  have chosen : ∀ choice ∈ (entries.flatMap Entry.choices).find? Choice.isDefault,
      choice.IsIntact N := fun choice there => each choice (List.mem_of_find?_eq_some there)
  have options : Intact N ((entries.flatMap Entry.choices).flatMap optionHtml) :=
    .flatMap fun choice member => intact_optionHtml (each choice member)
  have shown := intact_shownLabel plain first
  have placeholder := intact_placeholderAttribute each
  have identified : Intact N (nameAndId name) := intact_nameAndId plain
  unfold ControlKind.html
  dsimp only
  cases kind with
  | hidden =>
    have value : Intact N (((((entries.flatMap Entry.choices).find? Choice.isDefault).or
        (entries.flatMap Entry.choices).head?).map Choice.value).getD []) := by
      refine .getD_map fun choice picked => ?_
      rcases Option.or_eq_some_iff.mp picked with default | ⟨_, head⟩
      · exact (chosen choice default).1
      · exact (first choice head).1
    exact Intact.of_plain (by decide)
      |>.append (intact_attr (by decide) whole) |>.append (intact_attr (by decide) value)
      |>.append extra
      |>.append (.of_plain (by decide))
  | button type =>
    have word : Intact N type := .of_plain typed
    exact word.enclosed (by decide) (by decide)
      |>.append (intact_attr (by decide) whole) |>.append extra
      |>.append (.of_plain (by decide)) |>.append shown
      |>.append (.of_plain (by decide))
  | label =>
    exact Intact.of_plain (by decide)
      |>.append (intact_attr (by decide) whole) |>.append extra
      |>.append (.of_plain (by decide)) |>.append shown
      |>.append (.of_plain (by decide))
  | select =>
    have selection : Intact N (entries.flatMap selectEntryHtml) :=
      .flatMap fun entry member => intact_selectEntryHtml (h entry member)
    exact Intact.of_plain (by decide)
      |>.append identified |>.append extra
      |>.append (.of_plain (by decide)) |>.append selection
      |>.append (.of_plain (by decide))
  | checkbox required => exact intact_checkboxHtml plain extra first
  | radio => exact .flatMap fun entry member => intact_radioEntryHtml plain extra (h entry member)
  | textArea =>
    have content : Intact N ((((entries.flatMap Entry.choices).find? Choice.isDefault).map
        Choice.display).getD []) := .getD_map fun choice picked => (chosen choice picked).2
    exact Intact.of_plain (by decide)
      |>.append identified |>.append placeholder |>.append extra
      |>.append (.of_plain (by decide)) |>.append content
      |>.append (.of_plain (by decide))
  | dataList =>
    have quoted : Intact N (escapeAttr name) := whole.escapeAttr
    exact quoted.enclosed (by decide) (by decide)
      |>.append identified |>.append extra
      |>.append (.of_plain (by decide)) |>.append quoted
      |>.append (.of_plain (by decide)) |>.append options
      |>.append (.of_plain (by decide))
  | input type =>
    have word : Intact N type := .of_plain typed
    have value : Intact N ((((entries.flatMap Entry.choices).find? Choice.isDefault).map
        fun c => attr "value" c.value).getD []) :=
      .getD_map fun choice picked => intact_attr (by decide) (chosen choice picked).1
    exact word.enclosed (by decide) (by decide)
      |>.append identified |>.append value |>.append placeholder |>.append extra
      |>.append (.of_plain (by decide))

end

theorem ControlKind.isPlain_ofName {name : Text} (plain : ∀ c ∈ name, c ∉ standInChars) :
    (ControlKind.ofName name).IsPlain := by
  unfold ControlKind.ofName
  repeat' split
  all_goals trivial

/-- A control that is read from an intact text is intact as HTML. -/
theorem Control.intact_html {before : Option Char} {source rest : Text} {control : Control}
    (found : Control.read before (source ++ rest) = some (control, rest)) (h : Intact N source) :
    Intact N control.html := by
  obtain ⟨front, gap, word, split, kind, letters, name⟩ := Control.read_eq_some found
  have typed : control.kind.IsPlain := kind ▸ ControlKind.isPlain_ofName
    (not_mem_standInChars_lower fun c member => not_mem_of_apart (by decide) (letters c member))
  obtain rfl : source = '[' :: (front ++ (braced control.values ++ gap ++
      ']' :: braced control.attributes)) := List.append_cancel_right (split.trans (by simp))
  have values : ∀ values ∈ control.values, Intact N values :=
    @Intact.of_braced N ('[' :: front) (gap ++ ']' :: braced control.attributes) _
      (by simpa using h)
  have attributes : ∀ attributes ∈ control.attributes, Intact N attributes :=
    @Intact.of_braced N ('[' :: (front ++ (braced control.values ++ gap ++ [']']))) [] _
      (by simpa using h)
  refine ControlKind.intact_html typed
    (fun c member => not_mem_of_apart (by decide +kernel) (name c member)) ?_
    (.extraAttributes attributes)
  cases written : control.values with
  | none => simp
  | some inner => exact Entry.isIntact_of_parseAll (values inner written)

theorem intact_expandControls (h : Intact N s) : Intact N (expandControls s) := by
  refine h.substitute (Control.delimited_read.severs (by decide) (by decide))
    fun before source control rest found whole => ?_
  split
  · exact whole
  · exact Control.intact_html found whole

end Form

/-- The stage of forms keeps a text intact. -/
theorem intact_forms (h : Intact N s) : Intact N (forms s) := by
  refine h.substitute ((Element.delimited_read "form").severs (by decide) (by decide))
    fun before source form rest found whole => ?_
  obtain ⟨written, attrs, content, closing, _, folded, split, rfl⟩ := Element.read_eq_some found
  obtain rfl := List.append_cancel_right split
  have begins : ∀ c ∈ closing.head?, c ∉ tokenChars := by
    obtain ⟨first, tail, rfl, bracket, _⟩ := List.map_eq_cons_iff.mp folded
    obtain rfl : first = '<' := eq_of_foldLetter_eq bracket (by decide)
    intro c first
    obtain rfl := Option.some.inj first
    decide
  obtain ⟨before, closes⟩ := whole.split (.of_head_apart begins)
  obtain ⟨opens, body⟩ := before.split (.of_last_apart (by simp; decide))
  exact (opens.append (Form.intact_expandControls body)).append closes

end Stencil
