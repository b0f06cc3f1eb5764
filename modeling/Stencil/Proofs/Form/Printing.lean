import Stencil.Form.Expand
import Stencil.Proofs.Text.Intact

/-!
# Controls written out and read back

The values of a control are written as `value:display`, with an asterisk behind the default, and
groups of them in braces behind a label.  Where the texts are free of the signs that this takes, the
values are read back as they were (`Entry.parseAll_print`): a comma inside braces cuts nothing, and
neither braces nor a comma stands in a text.  The same holds of the control around them,
whose values end at the first closing brace that no group has opened (`Control.read_print`).
-/

namespace Stencil

namespace Form

/-- Text that can be written as a value, as what is shown for one, or as the label of a group. -/
structure IsItem (s : Text) : Prop where
  nonempty : s ≠ []
  trimmed : Text.trim s = s
  plain : ∀ c ∈ s, c ∉ ['\x7b', '\x7d', ',', '*']

instance (s : Text) : Decidable (IsItem s) :=
  decidable_of_iff (s ≠ [] ∧ Text.trim s = s ∧ ∀ c ∈ s, c ∉ ['\x7b', '\x7d', ',', '*'])
    ⟨fun ⟨nonempty, trimmed, plain⟩ => ⟨nonempty, trimmed, plain⟩,
      fun h => ⟨h.nonempty, h.trimmed, h.plain⟩⟩

/-- A choice that can be read back from what is written for it. -/
structure Choice.IsPrintable (choice : Choice) : Prop where
  value : IsItem choice.value
  colon : ':' ∉ choice.value
  display : IsItem choice.display

instance (choice : Choice) : Decidable choice.IsPrintable :=
  decidable_of_iff (IsItem choice.value ∧ ':' ∉ choice.value ∧ IsItem choice.display)
    ⟨fun ⟨value, colon, display⟩ => ⟨value, colon, display⟩,
      fun h => ⟨h.value, h.colon, h.display⟩⟩

def Entry.IsPrintable : Entry → Prop
  | .single choice => choice.IsPrintable
  | .group label choices => IsItem label ∧ ∀ choice ∈ choices, choice.IsPrintable

instance : DecidablePred Entry.IsPrintable
  | .single choice => inferInstanceAs (Decidable choice.IsPrintable)
  | .group label choices =>
    inferInstanceAs (Decidable (IsItem label ∧ ∀ choice ∈ choices, choice.IsPrintable))

def Choice.print (choice : Choice) : Text :=
  choice.value ++ ':' :: (choice.display ++ if choice.isDefault then ['*'] else [])

/-- Parts as they are written in a row, with some white space after each comma. -/
def printRow (gap : Text) (parts : List Text) : Text := Text.join (',' :: gap) parts

def Entry.print (gap : Text) : Entry → Text
  | .single choice => choice.print
  | .group label choices => label ++ '\x7b' :: (printRow gap (choices.map Choice.print) ++ ['\x7d'])

/-- What holds of the parts of a row and is kept by putting texts together holds of the row. -/
theorem printRow_induction {motive : Text → Prop} {gap : Text} {parts : List Text}
    (nil : motive []) (append : ∀ s t, motive s → motive t → motive (s ++ t))
    (comma : motive (',' :: gap)) (each : ∀ part ∈ parts, motive part) :
    motive (printRow gap parts) := by
  induction parts with
  | nil => exact nil
  | cons part parts ih =>
    obtain ⟨here, later⟩ := List.forall_mem_cons.mp each
    cases parts with
    | nil => simpa [printRow, Text.join] using here
    | cons next parts =>
      rw [printRow, Text.join_cons_cons]
      exact append _ _ (append _ _ here comma) (ih later)

def Entry.printAll (gap : Text) (entries : List Entry) : Text :=
  printRow gap (entries.map (Entry.print gap))

section Splitting

variable {depth : Nat} {gap label inner s t : Text} {parts : List Text}

def addToFirst (t : Text) (parts : List Text) : List Text := t.foldr consPart parts

theorem addToFirst_cons (t part : Text) (parts : List Text) :
    addToFirst t (part :: parts) = (t ++ part) :: parts := by
  induction t with
  | nil => rfl
  | cons c t ih => exact congrArg (consPart c) ih

theorem addToFirst_append (s t : Text) (parts : List Text) :
    addToFirst (s ++ t) parts = addToFirst s (addToFirst t parts) := List.foldr_append

/-- A text without braces, and outside braces without commas, is not cut. -/
theorem splitTopFrom_append
    (plain : ∀ c ∈ t, c ≠ '\x7b' ∧ c ≠ '\x7d' ∧ (depth = 0 → c ≠ ',')) (s : Text) :
    splitTopFrom depth (t ++ s) = addToFirst t (splitTopFrom depth s) := by
  induction t with
  | nil => rfl
  | cons c t ih =>
    obtain ⟨⟨opening, closing, comma⟩, plain⟩ := List.forall_mem_cons.mp plain
    have uncut : ¬(c = ',' ∧ depth = 0) := fun cut => comma cut.2 cut.1
    rw [List.cons_append, splitTopFrom, if_neg uncut, if_neg opening, if_neg closing, ih plain]
    rfl

/-- Whether a text outside braces is not cut, and leaves what follows outside braces. -/
def Uncut (t : Text) : Prop :=
  ∀ s, splitTopFrom 0 (t ++ s) = addToFirst t (splitTopFrom 0 s)

theorem uncut_of_plain (plain : ∀ c ∈ t, c ∉ ['\x7b', '\x7d', ',']) : Uncut t := by
  refine splitTopFrom_append fun c member => ?_
  have other := plain c member
  simp only [List.mem_cons, List.not_mem_nil, or_false, not_or] at other
  exact ⟨other.1, other.2.1, fun _ => other.2.2⟩

/-- Commas in braces cut nothing. -/
theorem uncut_group (plain : ∀ c ∈ label, c ∉ ['\x7b', '\x7d', ','])
    (flat : ∀ c ∈ inner, c ∉ ['\x7b', '\x7d']) :
    Uncut (label ++ '\x7b' :: (inner ++ ['\x7d'])) := by
  intro s
  have braced : splitTopFrom 0 ('\x7b' :: (inner ++ '\x7d' :: s)) =
      consPart '\x7b' (addToFirst inner (consPart '\x7d' (splitTopFrom 0 s))) := by
    have inside : splitTopFrom 1 (inner ++ '\x7d' :: s) =
        addToFirst inner (splitTopFrom 1 ('\x7d' :: s)) := by
      refine splitTopFrom_append (fun c member => ?_) _
      have other := flat c member
      simp only [List.mem_cons, List.not_mem_nil, or_false, not_or] at other
      exact ⟨other.1, other.2, nofun⟩
    simp [splitTopFrom, inside]
  rw [List.append_assoc, uncut_of_plain plain, addToFirst_append]
  simp only [List.cons_append, List.append_assoc, List.nil_append]
  rw [braced]
  simp [addToFirst]

/-- A row of parts that are not cut is split at the commas between them. -/
theorem splitTopFrom_printRow (uncut : ∀ part ∈ parts, Uncut part) (blank : Uncut gap) :
    splitTopFrom 0 (printRow gap parts) =
      match parts with
      | [] => [[]]
      | part :: parts => part :: parts.map (gap ++ ·) := by
  induction parts with
  | nil => rfl
  | cons part parts ih =>
    obtain ⟨here, later⟩ := List.forall_mem_cons.mp uncut
    have ih := ih later
    cases parts with
    | nil =>
      have alone := here []
      simpa [printRow, Text.join, splitTopFrom, addToFirst_cons] using alone
    | cons next parts =>
      have comma : splitTopFrom 0 (',' :: (gap ++ printRow gap (next :: parts))) =
          [] :: splitTopFrom 0 (gap ++ printRow gap (next :: parts)) := by
        simp [splitTopFrom]
      have split : printRow gap (part :: next :: parts) =
          part ++ ',' :: (gap ++ printRow gap (next :: parts)) := by
        simp [printRow, Text.join_cons_cons]
      dsimp only at ih
      rw [split, here, comma, blank, ih, addToFirst_cons, addToFirst_cons]
      simp

theorem uncut_of_blank (blank : ∀ c ∈ gap, isSpace c = true) : Uncut gap :=
  uncut_of_plain fun c member => not_mem_of_apart (by decide) (blank c member)

/-- Parts that begin and end with no white space are found in their row. -/
theorem splitTop_printRow (uncut : ∀ part ∈ parts, Uncut part)
    (nonempty : ∀ part ∈ parts, part ≠ [])
    (ends : ∀ part ∈ parts, (∀ c ∈ part.head?, isSpace c = false) ∧
      ∀ c ∈ part.getLast?, isSpace c = false)
    (blank : ∀ c ∈ gap, isSpace c = true) : splitTop (printRow gap parts) = parts := by
  have trimmed : (splitTopFrom 0 (printRow gap parts)).map Text.trim =
      if parts = [] then [[]] else parts := by
    rw [splitTopFrom_printRow uncut (uncut_of_blank blank)]
    cases parts with
    | nil => rfl
    | cons part parts =>
      obtain ⟨here, later⟩ := List.forall_mem_cons.mp ends
      have first : Text.trim part = part := Text.trim_append (t := []) nofun here.1 here.2
      have others : parts.map (Text.trim ∘ (gap ++ ·)) = parts.map id :=
        List.map_congr_left fun part member =>
          Text.trim_append blank (later part member).1 (later part member).2
      simp [first, others]
  rw [splitTop, trimmed]
  split
  · simp_all
  · exact List.filter_eq_self.mpr fun part member => by simp [nonempty part member]

end Splitting

section Reading

variable {choice : Choice} {gap : Text}

theorem IsItem.ends (h : IsItem s) : (∀ c ∈ s.head?, isSpace c = false) ∧
    ∀ c ∈ s.getLast?, isSpace c = false := Text.ends_of_trim_eq h.trimmed

theorem IsItem.unbraced (h : IsItem s) : ∀ c ∈ s, c ∉ ['\x7b', '\x7d', ','] := fun c member sign =>
  h.plain c member ((by decide : ['\x7b', '\x7d', ','] ⊆ ['\x7b', '\x7d', ',', '*']) sign)

theorem isPlain_of_unbraced {c : Char} (h : c ∉ ['\x7b', '\x7d', ',']) : isPlain c = true := by
  simp only [List.mem_cons, List.not_mem_nil, or_false, not_or] at h
  simp [isPlain, h.1, h.2.1]

theorem flat_of_unbraced {t : Text} (plain : ∀ c ∈ t, c ∉ ['\x7b', '\x7d', ',']) :
    ∀ c ∈ t, c ∉ ['\x7b', '\x7d'] := fun c member sign =>
  plain c member ((by decide : ['\x7b', '\x7d'] ⊆ ['\x7b', '\x7d', ',']) sign)

theorem Choice.print_eq (choice : Choice) : choice.print =
    (choice.value ++ ':' :: choice.display) ++ if choice.isDefault then ['*'] else [] := by
  simp [Choice.print]

namespace Choice.IsPrintable

theorem plain (h : choice.IsPrintable) : ∀ c ∈ choice.print, c ∉ ['\x7b', '\x7d', ','] := by
  refine List.forall_mem_append.mpr ⟨h.value.unbraced, List.forall_mem_cons.mpr ⟨by decide, ?_⟩⟩
  refine List.forall_mem_append.mpr ⟨h.display.unbraced, ?_⟩
  split <;> decide

theorem print_ne_nil (h : choice.IsPrintable) : choice.print ≠ [] := by
  simp [print, h.value.nonempty]

/-- What is shown for a choice is the end of it, up to the asterisk. -/
theorem ends_unstarred (h : choice.IsPrintable) :
    ∀ c ∈ (choice.value ++ ':' :: choice.display).getLast?, isSpace c = false ∧ c ≠ '*' := by
  intro c last
  have shown : choice.display.getLast? = some c := by
    rw [List.getLast?_append_of_ne_nil _ (List.cons_ne_nil _ _),
      ← List.singleton_append, List.getLast?_append_of_ne_nil _ h.display.nonempty] at last
    exact last
  refine ⟨h.display.ends.2 c shown, ?_⟩
  rintro rfl
  exact h.display.plain _ (List.mem_of_getLast? shown) (by decide)

/-- No white space stands at either end of what is written. -/
theorem ends (h : choice.IsPrintable) : (∀ c ∈ choice.print.head?, isSpace c = false) ∧
    ∀ c ∈ choice.print.getLast?, isSpace c = false := by
  constructor
  · intro c first
    rw [print, List.head?_append_of_ne_nil _ h.value.nonempty] at first
    exact h.value.ends.1 c first
  · intro c last
    rw [print_eq] at last
    split at last
    · rw [List.getLast?_concat] at last
      obtain rfl := Option.some.inj last
      decide
    · rw [List.append_nil] at last
      exact (h.ends_unstarred c last).1

/-- The asterisk is told from the text before it, which has none. -/
theorem dropStar_print (h : choice.IsPrintable) :
    dropStar choice.print = (choice.value ++ ':' :: choice.display, choice.isDefault) := by
  rw [print_eq, dropStar]
  cases choice.isDefault with
  | true =>
    have kept : Text.trimEnd (choice.value ++ ':' :: choice.display) =
        choice.value ++ ':' :: choice.display :=
      Text.dropEndWhile_eq_self fun c last => (h.ends_unstarred c last).1
    simp only [if_true]
    rw [if_pos List.getLast?_concat, List.dropLast_concat, kept]
  | false =>
    have unstarred : (choice.value ++ ':' :: choice.display).getLast? ≠ some '*' :=
      fun last => (h.ends_unstarred '*' last).2 rfl
    simp only [Bool.false_eq_true, if_false, List.append_nil]
    rw [if_neg unstarred]

theorem parse_print (h : choice.IsPrintable) : Choice.parse? choice.print = some choice := by
  have trimmed : Text.trim choice.print = choice.print :=
    Text.trim_append (t := []) nofun h.ends.1 h.ends.2
  have split : Text.splitFirst? ':' (choice.value ++ ':' :: choice.display) =
      some (choice.value, choice.display) := Text.splitFirst?_eq_some_iff.mpr ⟨rfl, h.colon⟩
  rw [Choice.parse?, trimmed, h.dropStar_print]
  simp [split, h.value.trimmed, h.display.trimmed]

end Choice.IsPrintable

theorem splitTop_printRow_choices {choices : List Choice}
    (printable : ∀ choice ∈ choices, choice.IsPrintable) (blank : ∀ c ∈ gap, isSpace c = true) :
    splitTop (printRow gap (choices.map Choice.print)) = choices.map Choice.print := by
  refine splitTop_printRow ?_ ?_ ?_ blank
  · exact List.forall_mem_map.mpr fun choice member =>
      uncut_of_plain (printable choice member).plain
  · exact List.forall_mem_map.mpr fun choice member => (printable choice member).print_ne_nil
  · exact List.forall_mem_map.mpr fun choice member => (printable choice member).ends

/-- No brace stands between the braces of a group. -/
theorem flat_printRow {choices : List Choice}
    (printable : ∀ choice ∈ choices, choice.IsPrintable) (blank : ∀ c ∈ gap, isSpace c = true) :
    ∀ c ∈ printRow gap (choices.map Choice.print), c ∉ ['\x7b', '\x7d'] := by
  refine printRow_induction (motive := fun t => ∀ c ∈ t, c ∉ ['\x7b', '\x7d']) nofun ?_ ?_ ?_
  · exact fun s t left right => List.forall_mem_append.mpr ⟨left, right⟩
  · refine List.forall_mem_cons.mpr ⟨by decide, fun c member => ?_⟩
    exact not_mem_of_apart (by decide) (blank c member)
  · exact List.forall_mem_map.mpr fun choice member =>
      flat_of_unbraced (printable choice member).plain

namespace Entry.IsPrintable

variable {entry : Entry}

theorem uncut (h : entry.IsPrintable) (blank : ∀ c ∈ gap, isSpace c = true) :
    Uncut (entry.print gap) := by
  cases entry with
  | single choice => exact uncut_of_plain (Choice.IsPrintable.plain h)
  | group label choices => exact uncut_group h.1.unbraced (flat_printRow h.2 blank)

theorem print_ne_nil (h : entry.IsPrintable) : entry.print gap ≠ [] := by
  cases entry with
  | single choice => exact Choice.IsPrintable.print_ne_nil h
  | group label choices => simp [print]

/-- No white space stands at either end of what is written. -/
theorem ends (h : entry.IsPrintable) : (∀ c ∈ (entry.print gap).head?, isSpace c = false) ∧
    ∀ c ∈ (entry.print gap).getLast?, isSpace c = false := by
  cases entry with
  | single choice => exact Choice.IsPrintable.ends h
  | group label choices =>
    constructor
    · intro c first
      rw [print, List.head?_append_of_ne_nil _ h.1.nonempty] at first
      exact h.1.ends.1 c first
    · intro c last
      have whole : print gap (.group label choices) =
          label ++ '\x7b' :: printRow gap (choices.map Choice.print) ++ ['\x7d'] := by
        simp [print]
      rw [whole, List.getLast?_concat] at last
      obtain rfl := Option.some.inj last
      decide

theorem parse_print (h : entry.IsPrintable) (blank : ∀ c ∈ gap, isSpace c = true) :
    Entry.parse? (entry.print gap) = some entry := by
  cases entry with
  | single choice =>
    have h : choice.IsPrintable := h
    have single : group? choice.print = none := by
      have flat : choice.print.dropWhile isPlain = [] :=
        List.dropWhile_eq_nil_iff.mpr fun c member => isPlain_of_unbraced (h.plain c member)
      rw [group?, flat]
    rw [print, Entry.parse?, single, h.parse_print]
    rfl
  | group label choices =>
    obtain ⟨item, printable⟩ := h
    have flat : ∀ c ∈ label, isPlain c = true := fun c member =>
      isPlain_of_unbraced (item.unbraced c member)
    have braced : group? (print gap (.group label choices)) =
        some (label, printRow gap (choices.map Choice.print)) := by
      rw [print, group?, Text.dropWhile_run flat (by decide), Text.takeWhile_run flat (by decide)]
      simp [item.trimmed]
    have again : choices.filterMap (Choice.parse? ∘ Choice.print) = choices :=
      (List.filterMap_congr fun choice member => (printable choice member).parse_print).trans
        List.filterMap_some
    rw [Entry.parse?, braced]
    dsimp only
    rw [splitTop_printRow_choices printable blank, List.filterMap_map, again]

end Entry.IsPrintable

/-- Entries are read back from what is written for them. -/
theorem Entry.parseAll_print {entries : List Entry}
    (printable : ∀ entry ∈ entries, entry.IsPrintable) (blank : ∀ c ∈ gap, isSpace c = true) :
    Entry.parseAll (Entry.printAll gap entries) = entries := by
  have parts : splitTop (Entry.printAll gap entries) = entries.map (Entry.print gap) := by
    refine splitTop_printRow ?_ ?_ ?_ blank
    · exact List.forall_mem_map.mpr fun entry member => (printable entry member).uncut blank
    · exact List.forall_mem_map.mpr fun entry member => (printable entry member).print_ne_nil
    · exact List.forall_mem_map.mpr fun entry member => (printable entry member).ends
  have again : entries.filterMap (Entry.parse? ∘ Entry.print gap) = entries :=
    (List.filterMap_congr fun entry member => (printable entry member).parse_print blank).trans
      List.filterMap_some
  rw [Entry.parseAll, parts, List.filterMap_map, again]

end Reading

section Written

variable {gap kind name values attrs s t : Text}

/-- Whether a text outside the braces of a group is passed on the way to the brace that closes the
values of a control. -/
def Carried (t : Text) : Prop :=
  ∀ s, valuesEnd? false (t ++ s) = (valuesEnd? false s).map fun (v, rest) => (t ++ v, rest)

/-- Text without braces is passed on the way to the brace that closes the values. -/
theorem valuesEnd?_append (inGroup : Bool) (flat : ∀ c ∈ t, c ∉ ['\x7b', '\x7d']) (s : Text) :
    valuesEnd? inGroup (t ++ s) =
      (valuesEnd? inGroup s).map fun (v, rest) => (t ++ v, rest) := by
  induction t with
  | nil => simp
  | cons c t ih =>
    obtain ⟨here, flat⟩ := List.forall_mem_cons.mp flat
    simp only [List.mem_cons, List.not_mem_nil, or_false, not_or] at here
    rw [List.cons_append, valuesEnd?]
    · simp [here.1, here.2, ih flat, Function.comp_def]
    · simp [here.2]
    · simp [here.1]

theorem carried_of_flat (flat : ∀ c ∈ t, c ∉ ['\x7b', '\x7d']) : Carried t :=
  valuesEnd?_append false flat

theorem Carried.append (first : Carried s) (second : Carried t) : Carried (s ++ t) := by
  intro rest
  rw [List.append_assoc, first, second]
  simp [Function.comp_def]

/-- A group is passed as a whole. -/
theorem carried_group (flat : ∀ c ∈ t, c ∉ ['\x7b', '\x7d']) :
    Carried ('\x7b' :: (t ++ ['\x7d'])) := by
  intro s
  have closes : valuesEnd? true ('\x7d' :: s) =
      (valuesEnd? false s).map fun (v, rest) => ('\x7d' :: v, rest) := by
    simp [valuesEnd?]
  have inside := valuesEnd?_append true flat ('\x7d' :: s)
  have split : '\x7b' :: (t ++ ['\x7d']) ++ s = '\x7b' :: (t ++ '\x7d' :: s) := by simp
  rw [closes] at inside
  rw [split]
  simp [valuesEnd?, inside, Function.comp_def]

theorem Entry.IsPrintable.carried {entry : Entry} (h : entry.IsPrintable)
    (blank : ∀ c ∈ gap, isSpace c = true) : Carried (entry.print gap) := by
  cases entry with
  | single choice => exact carried_of_flat (flat_of_unbraced (Choice.IsPrintable.plain h))
  | group label choices =>
    exact (carried_of_flat (flat_of_unbraced h.1.unbraced)).append
      (carried_group (flat_printRow h.2 blank))

/-- The values of a control end at the brace behind them. -/
theorem valuesEnd?_printAll {entries : List Entry}
    (printable : ∀ entry ∈ entries, entry.IsPrintable) (blank : ∀ c ∈ gap, isSpace c = true)
    (s : Text) : valuesEnd? false (Entry.printAll gap entries ++ '\x7d' :: s) =
      some (Entry.printAll gap entries, s) := by
  have comma : ∀ c ∈ ',' :: gap, c ∉ ['\x7b', '\x7d'] :=
    List.forall_mem_cons.mpr ⟨by decide, fun c member =>
      not_mem_of_apart (by decide) (blank c member)⟩
  have carried : Carried (Entry.printAll gap entries) := by
    refine printRow_induction (motive := Carried) (carried_of_flat nofun)
      (fun _ _ => Carried.append) (carried_of_flat comma) ?_
    exact List.forall_mem_map.mpr fun entry member => (printable entry member).carried blank
  rw [carried]
  simp [valuesEnd?]

/-- A control as it is written, with a blank between its parts. -/
def Control.print (kind name values attrs : Text) : Text :=
  "[" ++ kind ++ " " ++ name ++ " \x7b" ++ values ++ "\x7d]\x7b" ++ attrs ++ "\x7d"

theorem Control.print_eq (kind name values attrs : Text) : Control.print kind name values attrs =
    '[' :: (kind ++ ' ' :: (name ++ ' ' :: '\x7b' :: (values ++ '\x7d' :: ']' :: '\x7b' ::
      (attrs ++ ['\x7d'])))) := by
  change "[" ++ kind ++ " " ++ name ++ " \x7b" ++ values ++ "\x7d]\x7b" ++ attrs ++ "\x7d" = _
  simp

theorem bracedSuffix_braced (plain : ∀ c ∈ attrs, c ∉ ['\x7b', '\x7d', '\n']) (rest : Text) :
    bracedSuffix ('\x7b' :: (attrs ++ '\x7d' :: rest)) = (some attrs, rest) := by
  have inner : ∀ c ∈ attrs, Markup.isPlaceholderChar c = true := by
    intro c member
    have other := plain c member
    simp only [List.mem_cons, List.not_mem_nil, or_false, not_or] at other
    simp [Markup.isPlaceholderChar, other]
  rw [bracedSuffix, Text.dropWhile_run inner (by decide), Text.takeWhile_run inner (by decide)]
  simp [Text.after?]

theorem readValues_braced (ended : ∀ s, valuesEnd? false (values ++ '\x7d' :: s) = some (values, s))
    (rest : Text) : readValues (' ' :: '\x7b' :: (values ++ '\x7d' :: ']' :: rest)) =
      some (some values, rest) := by
  have blank : isBlank ' ' = true := by decide
  have brace : isBlank '\x7b' = false := by decide
  have bracket : isBlank ']' = false := by decide
  simp [readValues, blank, brace, bracket, ended, Text.after?]

/-- A control is read from its kind, its name, and what is read behind them. -/
theorem Control.read_of_values (letters : ∀ c ∈ kind, isAsciiLetter c = true) (typed : kind ≠ [])
    (chars : ∀ c ∈ name, isNameChar c = true) (named : name ≠ []) {stop : Char}
    (stops : isNameChar stop = false) {found : Option Text} {rest : Text}
    (valuesRead : readValues (stop :: s) = some (found, rest)) (before : Option Char) :
    Control.read before ('[' :: (kind ++ ' ' :: (name ++ stop :: s))) =
      some (⟨.ofName (Text.lower kind), name, found, (bracedSuffix rest).1,
        Text.startsWith (bracedSuffix rest).2 ['(']⟩, (bracedSuffix rest).2) := by
  have typed : kind.isEmpty = false := by simpa using typed
  have blank : isBlank ' ' = true := by decide
  have afterBlank : (' ' :: (name ++ stop :: s)).dropWhile isBlank = name ++ stop :: s := by
    obtain ⟨first, more, rfl⟩ := List.exists_cons_of_ne_nil named
    have blanks : ∀ c ∈ [' ', '\t'], isNameChar c = false := by decide
    have visible := not_mem_of_apart blanks (chars first List.mem_cons_self)
    simp_all [isBlank]
  have opened : Text.after? ['['] ('[' :: (kind ++ ' ' :: (name ++ stop :: s))) =
      some (kind ++ ' ' :: (name ++ stop :: s)) := Text.after?_append ['['] _
  simp only [Control.read, opened, Option.bind_eq_bind, Option.bind_some,
    Text.takeWhile_run letters (show isAsciiLetter ' ' = false by decide),
    Text.dropWhile_run letters (show isAsciiLetter ' ' = false by decide), afterBlank,
    Text.takeWhile_run chars stops, Text.dropWhile_run chars stops, valuesRead]
  simp [typed, named, startsBlank, blank]

theorem Control.read_print (letters : ∀ c ∈ kind, isAsciiLetter c = true) (typed : kind ≠ [])
    (chars : ∀ c ∈ name, isNameChar c = true) (named : name ≠ [])
    (ended : ∀ s, valuesEnd? false (values ++ '\x7d' :: s) = some (values, s))
    (plain : ∀ c ∈ attrs, c ∉ ['\x7b', '\x7d', '\n']) (before : Option Char) :
    Control.read before (Control.print kind name values attrs) =
      some (⟨.ofName (Text.lower kind), name, some values, some attrs, false⟩, []) := by
  have valuesRead := readValues_braced ended ('\x7b' :: (attrs ++ ['\x7d']))
  have attrsRead := bracedSuffix_braced plain []
  rw [Control.print_eq, read_of_values letters typed chars named (by decide) valuesRead, attrsRead]
  rfl

end Written

/-- Values that can be printed are read back from what is written for them; and the text of a
control with such values becomes just the HTML of its kind, with its name, those values and its
attributes. -/
theorem controls_print {entries : List Entry} (printable : ∀ entry ∈ entries, entry.IsPrintable)
    {gap : Text} (blank : ∀ c ∈ gap, isSpace c = true) :
    Entry.parseAll (Entry.printAll gap entries) = entries ∧
      ∀ kind name attrs, kind ≠ [] → (∀ c ∈ kind, isAsciiLetter c = true) →
        name ≠ [] → (∀ c ∈ name, isNameChar c = true) →
        (∀ c ∈ attrs, c ∉ ['\x7b', '\x7d', '\n']) →
        expandControls (Control.print kind name (Entry.printAll gap entries) attrs) =
          (ControlKind.ofName (Text.lower kind)).html name entries
            (if Text.trim attrs = [] then [] else ' ' :: Text.trim attrs) := by
  have parsed := Entry.parseAll_print printable blank
  refine ⟨parsed, fun kind name attrs typed letters named chars plain => ?_⟩
  have read := Control.read_print letters typed chars named
    (valuesEnd?_printAll printable blank) plain none
  have written : Control.print kind name (Entry.printAll gap entries) attrs ≠ [] := by
    rw [Control.print_eq]
    exact List.cons_ne_nil _ _
  obtain ⟨before, found⟩ := Text.scanFrom_found Control.read (w := []) written
    (by rwa [List.append_nil])
  rw [List.append_nil] at found
  rw [expandControls, Text.substitute, Text.scan, found]
  simp [Text.ofPieces, Text.scanFrom, Control.html, extraAttributes, parsed]

/-- Entries with brackets, colons, a default, and a group with nothing in it. -/
def colorEntries : List Entry :=
  [.single ⟨"r]", "Red: [1]", true⟩, .group "Cool: (2)" [],
    .group "Warm" [⟨"o", "Orange", false⟩, ⟨"y", "Yellow", true⟩], .single ⟨"x", "x", false⟩]

theorem controls_print_colors :
    (∀ entry ∈ colorEntries, entry.IsPrintable) ∧
      Entry.printAll [' '] colorEntries =
        "r]:Red: [1]*, Cool: (2)\x7b\x7d, Warm\x7bo:Orange, y:Yellow*\x7d, x:x" ∧
      Entry.parseAll (Entry.printAll [' '] colorEntries) = colorEntries ∧
      expandControls (Control.print "Select" "my.hue_2-é" (Entry.printAll [' '] colorEntries)
          " class=\"]\" ") =
        ControlKind.select.html "my.hue_2-é" colorEntries " class=\"]\"" := by
  have printable : ∀ entry ∈ colorEntries, entry.IsPrintable := by decide
  have blank : ∀ c ∈ [' '], isSpace c = true := by decide
  obtain ⟨parsed, expanded⟩ := controls_print printable blank
  refine ⟨printable, by decide, parsed, ?_⟩
  rw [expanded "Select" "my.hue_2-é" " class=\"]\" " (by decide) (by decide) (by decide)
    (by decide) (by decide)]
  rfl

end Form

end Stencil
