import Stencil.Proofs.Tag.Segment

/-!
# Attributes read character by character

The attributes of an open tag are found by a reader that takes one character at a time and knows
where it stands (`AttributePlace`): in a gap, in a name, in a value with or without quotes, or
nowhere, once a closing bracket has stood where a name should begin.  Each character may complete an
attribute, and the end of the text completes the one that is being read
(`Attributes.parse_eq_parseFrom`).  A text that is made longer is read on from where the reader
stands (`Attributes.parse_append`), and no letter of it is lost (`Attributes.count_written`).

The end of an open tag may be replaced in the same way: what closes the tag is found again as long
as no quote was open (`openTagEndFrom?_replace`).
-/

namespace Stencil

/-- Where a reader of attributes stands. -/
inductive AttributePlace where
  | gap
  | inName (name : Text)
  /-- In a value without quotes, or before any value if it is empty so far. -/
  | inValue (name value : Text)
  /-- In a value that this quote closes, and there perhaps directly after a backslash. -/
  | inQuotes (name : Text) (quote : Char) (isQuote : quote = '"' ∨ quote = '\'') (value : Text)
    (escaped : Bool)
  | stopped

namespace AttributePlace

/-- The attribute that the end of the text completes. -/
def last? : AttributePlace → Option Attribute
  | .gap | .stopped => none
  | .inName name => some ⟨name, none⟩
  | .inValue name value | .inQuotes name _ _ value _ => some ⟨name, some value⟩

/-- The attribute that a character completes, and the place after it. -/
def next : AttributePlace → Char → Option Attribute × AttributePlace
  | .gap, c =>
    if c = '>' then (none, .stopped)
    else if c = '=' then (none, .inValue [] [])
    else if Attributes.isGap c then (none, .gap)
    else (none, .inName [c])
  | .inName name, c =>
    if c = '>' then (some ⟨name, none⟩, .stopped)
    else if c = '=' then (none, .inValue name [])
    else if Attributes.isGap c then (some ⟨name, none⟩, .gap)
    else (none, .inName (name ++ [c]))
  | .inValue name value, c =>
    if opens : value = [] ∧ (c = '"' ∨ c = '\'') then (none, .inQuotes name c opens.2 [] false)
    else if isTagSpace c then (some ⟨name, some value⟩, .gap)
    else (none, .inValue name (value ++ [c]))
  | .inQuotes name quote isQuote value true, c =>
    (none, .inQuotes name quote isQuote (value ++ [c]) false)
  | .inQuotes name quote isQuote value false, c =>
    if c = '\\' then (none, .inQuotes name quote isQuote (value ++ [c]) true)
    else if c = quote then (some ⟨name, some value⟩, .gap)
    else (none, .inQuotes name quote isQuote (value ++ [c]) false)
  | .stopped, _ => (none, .stopped)

/-- Whether a value between quotes is being read. -/
def IsOpen : AttributePlace → Prop
  | .inQuotes .. => True
  | _ => False

/-- Whether the next character will be read. -/
def goesOn : AttributePlace → Bool
  | .stopped => false
  | _ => true

/-- A value of an attribute with this name is being read, and this much of it has been. -/
inductive Reads (name value : Text) : AttributePlace → Prop
  | bare : Reads name value (.inValue name value)
  | quoted {quote : Char} {isQuote : quote = '"' ∨ quote = '\''} {escaped : Bool} :
    Reads name value (.inQuotes name quote isQuote value escaped)

end AttributePlace

namespace Attributes

/-- The attributes that a text completes for a reader, and the place after it. -/
def readFrom : AttributePlace → Text → Attributes × AttributePlace
  | place, [] => ([], place)
  | place, c :: s =>
    ((place.next c).1.toList ++ (readFrom (place.next c).2 s).1, (readFrom (place.next c).2 s).2)

/-- All attributes in a text for a reader. -/
def parseFrom (place : AttributePlace) (s : Text) : Attributes :=
  (readFrom place s).1 ++ (readFrom place s).2.last?.toList

/-- What a reader makes of a text: all attributes in it, and whether it comes to the end of it. -/
def outcome (place : AttributePlace) (s : Text) : Attributes × Bool :=
  (parseFrom place s, (readFrom place s).2.goesOn)

/-- Where a reader stands after a text. -/
def placeAfter (s : Text) : AttributePlace := (readFrom .gap s).2

/-- Whether the character after a text between quotes stands behind a backslash that counts. -/
def escapedAfter (escaped : Bool) (s : Text) : Bool :=
  s.foldl (fun escaped c => !escaped && c == '\\') escaped

/-- Whether no closing bracket stands where a name should begin. -/
def Ends (s : Text) : Prop := placeAfter s ≠ .stopped

theorem readFrom_append (place : AttributePlace) (s t : Text) :
    readFrom place (s ++ t) =
      ((readFrom place s).1 ++ (readFrom (readFrom place s).2 t).1,
        (readFrom (readFrom place s).2 t).2) := by
  induction s generalizing place with
  | nil => rfl
  | cons c s ih => simp [readFrom, ih]

theorem parseFrom_append (place : AttributePlace) (s t : Text) :
    parseFrom place (s ++ t) = (readFrom place s).1 ++ parseFrom (readFrom place s).2 t := by
  rw [parseFrom, readFrom_append, parseFrom, List.append_assoc]

@[simp] theorem parseFrom_nil (place : AttributePlace) :
    parseFrom place [] = place.last?.toList := rfl

theorem parseFrom_cons (place : AttributePlace) (c : Char) (s : Text) :
    parseFrom place (c :: s) = (place.next c).1.toList ++ parseFrom (place.next c).2 s := by
  simp [parseFrom, readFrom]

@[simp] theorem outcome_nil (place : AttributePlace) :
    outcome place [] = (place.last?.toList, place.goesOn) := rfl

theorem outcome_cons (place : AttributePlace) (c : Char) (s : Text) :
    outcome place (c :: s) =
      ((place.next c).1.toList ++ (outcome (place.next c).2 s).1,
        (outcome (place.next c).2 s).2) := by
  rw [outcome, parseFrom_cons]
  rfl

theorem outcome_congr {place place' : AttributePlace} {s t : Text}
    (h : readFrom place s = readFrom place' t) : outcome place s = outcome place' t := by
  rw [outcome, outcome, parseFrom, parseFrom, h]

@[simp] theorem readFrom_stopped (s : Text) : readFrom .stopped s = ([], .stopped) := by
  induction s with
  | nil => rfl
  | cons c s ih => simp [readFrom, AttributePlace.next, ih]

theorem placeAfter_append (s t : Text) :
    placeAfter (s ++ t) = (readFrom (placeAfter s) t).2 := by
  rw [placeAfter, readFrom_append]
  rfl

/-- A reader that goes on has not stopped before. -/
theorem ends_of_append {s t : Text} (h : Ends (s ++ t)) : Ends s := by
  intro stopped
  refine h ?_
  rw [placeAfter_append, stopped, readFrom_stopped]

section Parse

/-- A gap is passed without reading anything. -/
theorem readFrom_gap_dropWhile (s : Text) :
    readFrom .gap s = readFrom .gap (s.dropWhile isGap) := by
  induction s with
  | nil => rfl
  | cons c s ih =>
    by_cases gap : isGap c
    · have bracket : c ≠ '>' := by
        rintro rfl
        exact absurd gap (by decide)
      have equals : c ≠ '=' := by
        rintro rfl
        exact absurd gap (by decide)
      rw [List.dropWhile_cons_of_pos gap, ← ih, readFrom]
      simp [AttributePlace.next, bracket, equals, gap]
    · rw [List.dropWhile_cons_of_neg gap]

theorem readFrom_gap_cons {c : Char} (space : isTagSpace c = true) (s : Text) :
    readFrom .gap (c :: s) = readFrom .gap s := by
  have gap : isGap c = true := by simp [isGap, space]
  rw [readFrom_gap_dropWhile, List.dropWhile_cons_of_pos gap, ← readFrom_gap_dropWhile]

theorem ne_of_isNameChar {c : Char} (h : isNameChar c = true) :
    c ≠ '>' ∧ c ≠ '=' ∧ isGap c = false := by
  simp only [isNameChar, isGap, Bool.not_eq_true', Bool.or_eq_false_iff, beq_eq_false_iff_ne] at h ⊢
  exact ⟨h.1.2, h.1.1.1, h.2, h.1.1.2⟩

/-- The characters of a name are read one after the other. -/
theorem readFrom_inName (name s : Text) :
    readFrom (.inName name) s =
      readFrom (.inName (name ++ s.takeWhile isNameChar)) (s.dropWhile isNameChar) := by
  induction s generalizing name with
  | nil => simp
  | cons c s ih =>
    by_cases letter : isNameChar c
    · obtain ⟨bracket, equals, gap⟩ := ne_of_isNameChar letter
      rw [List.takeWhile_cons_of_pos letter, List.dropWhile_cons_of_pos letter, readFrom]
      simp only [AttributePlace.next, bracket, equals, gap, if_false, Bool.false_eq_true,
        Option.toList_none, List.nil_append]
      rw [ih]
      simp
    · simp [letter]

/-- After a gap a name begins with the first character that may belong to one. -/
theorem readFrom_gap_of_name {t : Text} (named : t.takeWhile isNameChar ≠ []) :
    readFrom .gap t = readFrom (.inName (t.takeWhile isNameChar)) (t.dropWhile isNameChar) := by
  cases t with
  | nil => exact absurd rfl named
  | cons c t =>
    by_cases letter : isNameChar c
    · obtain ⟨bracket, equals, gap⟩ := ne_of_isNameChar letter
      rw [List.takeWhile_cons_of_pos letter, List.dropWhile_cons_of_pos letter, readFrom]
      simp only [AttributePlace.next, bracket, equals, gap, if_false, Bool.false_eq_true,
        Option.toList_none, List.nil_append]
      exact readFrom_inName [c] t
    · exact absurd (List.takeWhile_cons_of_neg letter) named

theorem readFrom_gap_of_equals {t rest : Text} (h : t.dropWhile isNameChar = '=' :: rest) :
    readFrom .gap t = readFrom (.inValue (t.takeWhile isNameChar) []) rest := by
  by_cases named : t.takeWhile isNameChar = []
  · have whole := List.takeWhile_append_dropWhile (p := isNameChar) (l := t)
    rw [named, h, List.nil_append] at whole
    rw [named, ← whole, readFrom]
    simp [AttributePlace.next]
  · rw [readFrom_gap_of_name named, h, readFrom]
    simp [AttributePlace.next]

/-- A value between quotes ends at the quote that closes it, or else with the text. -/
theorem outcome_inQuotes (name : Text) (quote : Char) (isQuote : quote = '"' ∨ quote = '\'')
    (value s : Text) :
    outcome (.inQuotes name quote isQuote value false) s =
      match closingQuote? quote s with
      | some (more, rest) =>
        (⟨name, some (value ++ more)⟩ :: (outcome .gap rest).1, (outcome .gap rest).2)
      | none => ([⟨name, some (value ++ s)⟩], true) := by
  fun_induction closingQuote? quote s generalizing value with
  | case1 => simp [AttributePlace.last?, AttributePlace.goesOn]
  | case2 c s ih =>
    rw [outcome_cons]
    simp only [AttributePlace.next, if_true, Option.toList_none, List.nil_append]
    rw [outcome_cons]
    simp only [AttributePlace.next, Option.toList_none, List.nil_append]
    rw [ih]
    cases closingQuote? quote s <;> simp
  | case3 s single =>
    rw [outcome_cons]
    have escape : quote ≠ '\\' := by
      rcases isQuote with rfl | rfl <;> decide
    simp [AttributePlace.next, escape]
  | case4 c s single other ih =>
    rw [outcome_cons]
    by_cases escape : c = '\\'
    · subst escape
      cases s with
      | nil =>
        simp [AttributePlace.next, AttributePlace.last?, AttributePlace.goesOn, closingQuote?]
      | cons d s => exact absurd rfl (single _ _ rfl)
    · simp only [AttributePlace.next, escape, other, if_false, Option.toList_none, List.nil_append]
      rw [ih]
      cases closingQuote? quote s <;> simp

/-- A value without quotes ends before white space. -/
theorem outcome_inValue (name value s : Text) (begun : value ≠ []) :
    outcome (.inValue name value) s =
      (⟨name, some (value ++ s.takeWhile (!isTagSpace ·))⟩ ::
        (outcome .gap (s.dropWhile (!isTagSpace ·))).1,
        (outcome .gap (s.dropWhile (!isTagSpace ·))).2) := by
  induction s generalizing value with
  | nil => simp [AttributePlace.last?, AttributePlace.goesOn]
  | cons c s ih =>
    rw [outcome_cons]
    by_cases space : isTagSpace c
    · simp [AttributePlace.next, begun, space, outcome_congr (readFrom_gap_cons space s)]
    · simp [AttributePlace.next, begun, space, ih (value ++ [c]) (by simp)]

/-- The value behind an equals sign is the one that `readValue` reads. -/
theorem outcome_afterEquals (name s : Text) :
    outcome (.inValue name []) s =
      (⟨name, some (readValue s).1⟩ :: (outcome .gap (readValue s).2).1,
        (outcome .gap (readValue s).2).2) := by
  cases s with
  | nil => rfl
  | cons c s =>
    rw [outcome_cons]
    by_cases quote : c = '"' ∨ c = '\''
    · simp only [AttributePlace.next, quote, and_self, dif_pos, Option.toList_none, List.nil_append,
        readValue, if_true]
      rw [outcome_inQuotes]
      cases closingQuote? c s <;> simp [AttributePlace.last?, AttributePlace.goesOn]
    · by_cases space : isTagSpace c
      · simp [AttributePlace.next, quote, space, readValue,
          outcome_congr (readFrom_gap_cons space s)]
      · simp [AttributePlace.next, quote, space, readValue,
          outcome_inValue name [c] s (List.cons_ne_nil c [])]

/-- A name ends before what is neither a part of it nor an equals sign. -/
theorem outcome_inName_of_ne (name : Text) {s : Text}
    (stops : ∀ c ∈ s.head?, isNameChar c = false ∧ c ≠ '=') :
    outcome (.inName name) s =
      (⟨name, none⟩ :: (outcome .gap s).1, (outcome .gap s).2) := by
  cases s with
  | nil => rfl
  | cons c s =>
    obtain ⟨noLetter, noEquals⟩ := stops c rfl
    rw [outcome_cons, outcome_cons]
    by_cases bracket : c = '>'
    · simp [AttributePlace.next, bracket]
    · have gap : isGap c := by
        simp only [isNameChar, Bool.not_eq_false', Bool.or_eq_true, beq_iff_eq, noEquals, bracket,
          false_or, or_false] at noLetter
        simp only [isGap, Bool.or_eq_true, beq_iff_eq]
        exact noLetter.symm
      simp [AttributePlace.next, bracket, noEquals, gap]

/-- Where neither a gap nor a name nor an equals sign begins, a bracket stands or nothing. -/
theorem outcome_gap_of_nothing {t : Text} (noGap : ∀ c ∈ t.head?, isGap c = false)
    (noName : ∀ c ∈ t.head?, isNameChar c = false ∧ c ≠ '=') :
    outcome .gap t = ([], t.isEmpty) := by
  cases t with
  | nil => rfl
  | cons c t =>
    obtain ⟨noLetter, noEquals⟩ := noName c rfl
    have noGap := noGap c rfl
    have bracket : c = '>' := by
      simp only [isGap, Bool.or_eq_false_iff, beq_eq_false_iff_ne] at noGap
      simpa [isNameChar, noEquals, noGap.1, noGap.2] using noLetter
    rw [outcome_cons]
    simp [AttributePlace.next, bracket, outcome, parseFrom, AttributePlace.last?,
      AttributePlace.goesOn]

theorem readAll_of_equals {s rest : Text}
    (h : (s.dropWhile isGap).dropWhile isNameChar = '=' :: rest) :
    readAll s = (⟨(s.dropWhile isGap).takeWhile isNameChar, some (readValue rest).1⟩ ::
      (readAll (readValue rest).2).1, (readAll (readValue rest).2).2) := by
  rw [readAll]
  split <;> rename_i same
  · rw [h] at same
    obtain ⟨_, rfl⟩ := List.cons.inj same
    rfl
  · exact absurd h (same rest)

theorem readAll_of_ne_equals {s : Text}
    (h : ∀ rest, (s.dropWhile isGap).dropWhile isNameChar ≠ '=' :: rest) :
    readAll s = if ((s.dropWhile isGap).takeWhile isNameChar).isEmpty then
        ([], ((s.dropWhile isGap).dropWhile isNameChar).isEmpty)
      else (⟨(s.dropWhile isGap).takeWhile isNameChar, none⟩ ::
        (readAll ((s.dropWhile isGap).dropWhile isNameChar)).1,
        (readAll ((s.dropWhile isGap).dropWhile isNameChar)).2) := by
  rw [readAll]
  split <;> rename_i same
  · exact absurd same (h _)
  · rfl

theorem stops_of_ne_equals {t : Text} (h : ∀ rest, t.dropWhile isNameChar ≠ '=' :: rest) :
    ∀ c ∈ (t.dropWhile isNameChar).head?, isNameChar c = false ∧ c ≠ '=' := by
  intro c first
  have behindName := List.head?_dropWhile_not isNameChar t
  refine ⟨?_, ?_⟩
  · rw [Option.mem_def] at first
    simpa [first] using behindName
  · rintro rfl
    obtain ⟨rest, equals⟩ := List.head?_eq_some_iff.mp first
    exact h rest equals

/-- Reading a text attribute by attribute finds what the reader finds in it from a gap on, and ends
where that reader comes to the end of the text. -/
theorem readAll_eq_outcome (s : Text) : readAll s = outcome .gap s := by
  induction length : s.length using Nat.strong_induction_on generalizing s with
  | _ n ih =>
    subst length
    rw [outcome_congr (readFrom_gap_dropWhile s)]
    have shorter := length_dropWhile_le isGap s
    have behindGap := List.head?_dropWhile_not isGap s
    have whole := List.takeWhile_append_dropWhile (p := isNameChar) (l := s.dropWhile isGap)
    have lengths := congrArg List.length whole
    rw [List.length_append] at lengths
    by_cases assigned : ∃ rest, (s.dropWhile isGap).dropWhile isNameChar = '=' :: rest
    · obtain ⟨rest, equals⟩ := assigned
      have less := length_readValue_le rest
      rw [equals, List.length_cons] at lengths
      rw [readAll_of_equals equals, ih _ (by omega) _ rfl,
        outcome_congr (readFrom_gap_of_equals equals), outcome_afterEquals]
    · have unassigned := not_exists.mp assigned
      have stops := stops_of_ne_equals unassigned
      rw [readAll_of_ne_equals unassigned]
      by_cases named : (s.dropWhile isGap).takeWhile isNameChar = []
      · rw [named, List.nil_append] at whole
        rw [named, List.isEmpty_nil, if_pos rfl]
        rw [whole] at stops ⊢
        refine (outcome_gap_of_nothing (fun c first => ?_) stops).symm
        rw [Option.mem_def] at first
        simpa [first] using behindGap
      · have some := List.length_pos_iff.mpr named
        rw [if_neg (by simpa using named), outcome_congr (readFrom_gap_of_name named),
          outcome_inName_of_ne _ stops, ih _ (by omega) _ rfl]

theorem parse_eq_parseFrom (s : Text) : parse s = parseFrom .gap s :=
  congrArg Prod.fst (readAll_eq_outcome s)

/-- Reading attributes ends exactly if no closing bracket stands where a name should begin. -/
theorem ends_iff (s : Text) : ends s = true ↔ Ends s := by
  have same : ends s = (placeAfter s).goesOn := congrArg Prod.snd (readAll_eq_outcome s)
  rw [same, Ends]
  cases placeAfter s <;> simp [AttributePlace.goesOn]

theorem parse_append (s t : Text) :
    parse (s ++ t) = (readFrom .gap s).1 ++ parseFrom (placeAfter s) t := by
  rw [parse_eq_parseFrom, parseFrom_append]
  rfl

end Parse

section Continue

variable {place : AttributePlace} {name value s w : Text} {quote : Char}
  {isQuote : quote = '"' ∨ quote = '\''} {escaped : Bool}

/-- White space ends all but a value between quotes. -/
theorem next_space (closed : ¬place.IsOpen) (goesOn : place ≠ .stopped) :
    place.next ' ' = (place.last?, .gap) := by
  have gap : isGap ' ' = true := by decide
  have space : isTagSpace ' ' = true := by decide
  cases place with
  | gap => simp [AttributePlace.next, gap, AttributePlace.last?]
  | inName name => simp [AttributePlace.next, gap, AttributePlace.last?]
  | inValue name value => simp [AttributePlace.next, space, AttributePlace.last?]
  | inQuotes name quote isQuote value escaped => exact absurd trivial closed
  | stopped => exact absurd rfl goesOn

theorem next_inQuotes {c : Char} (other : c ≠ quote) :
    AttributePlace.next (.inQuotes name quote isQuote value escaped) c =
      (none, .inQuotes name quote isQuote (value ++ [c]) (!escaped && c == '\\')) := by
  cases escaped with
  | true => rfl
  | false => by_cases backslash : c = '\\' <;> simp [AttributePlace.next, backslash, other]

/-- Between quotes all characters but the quote belong to the value. -/
theorem readFrom_inQuotes (absent : quote ∉ s) :
    readFrom (.inQuotes name quote isQuote value escaped) s =
      ([], .inQuotes name quote isQuote (value ++ s) (escapedAfter escaped s)) := by
  induction s generalizing value escaped with
  | nil => simp [readFrom, escapedAfter]
  | cons c s ih =>
    obtain ⟨other, absent⟩ := not_or.mp (List.mem_cons.not.mp absent)
    rw [readFrom, next_inQuotes (Ne.symm other), ih absent]
    simp [escapedAfter]

/-- The value between quotes that is being read only gets longer. -/
theorem exists_parseFrom_inQuotes (s : Text) :
    ∃ more others, parseFrom (.inQuotes name quote isQuote value escaped) s =
      ⟨name, some (value ++ more)⟩ :: others := by
  have unescaped (value s : Text) :
      ∃ more others, parseFrom (.inQuotes name quote isQuote value false) s =
        ⟨name, some (value ++ more)⟩ :: others := by
    have read : parseFrom (.inQuotes name quote isQuote value false) s = _ :=
      congrArg Prod.fst (outcome_inQuotes name quote isQuote value s)
    rw [read]
    cases closingQuote? quote s with
    | none => exact ⟨s, [], rfl⟩
    | some split => exact ⟨split.1, _, rfl⟩
  cases escaped with
  | false => exact unescaped value s
  | true =>
    cases s with
    | nil => exact ⟨[], [], by simp [AttributePlace.last?]⟩
    | cons c s =>
      obtain ⟨more, others, split⟩ := unescaped (value ++ [c]) s
      exact ⟨c :: more, others, by simpa [parseFrom_cons, AttributePlace.next] using split⟩

/-- What is read of a value is the beginning of what the value will be. -/
theorem exists_parseFrom_of_reads (reads : place.Reads name value) (s : Text) :
    ∃ more others, parseFrom place s = ⟨name, some (value ++ more)⟩ :: others := by
  cases reads with
  | quoted => exact exists_parseFrom_inQuotes s
  | bare =>
    by_cases begun : value = []
    · subst begun
      exact ⟨_, _, congrArg Prod.fst (outcome_afterEquals name s)⟩
    · exact ⟨_, _, congrArg Prod.fst (outcome_inValue name value s begun)⟩

/-- A bracket that does not stop the reader belongs to a value. -/
theorem reads_of_bracket (goesOn : (place.next '>').2 ≠ .stopped) :
    ∃ name value, place.Reads name value ∧ (place.next '>').1 = none ∧
      (place.next '>').2.Reads name (value ++ ['>']) := by
  cases place with
  | gap => exact absurd rfl goesOn
  | inName name => exact absurd rfl goesOn
  | inValue name value =>
    have next : AttributePlace.next (.inValue name value) '>' =
        (none, .inValue name (value ++ ['>'])) := by
      have space : isTagSpace '>' = false := by decide
      simp [AttributePlace.next, space]
    exact ⟨name, value, .bare, by rw [next], by rw [next]; exact .bare⟩
  | inQuotes name quote isQuote value escaped =>
    have other : '>' ≠ quote := by rcases isQuote with rfl | rfl <;> decide
    exact ⟨name, value, .quoted, by rw [next_inQuotes other], by
      rw [next_inQuotes other]; exact .quoted⟩
  | stopped => exact absurd rfl goesOn

/-- A value in which a character leaves the reader was being read before, unless the character
can begin one. -/
theorem reads_of_next {c : Char} (equals : c ≠ '=') (noQuote : ¬(c = '"' ∨ c = '\''))
    (reads : (place.next c).2.Reads name value) :
    ∃ begun, place.Reads name begun ∧ value = begun ++ [c] ∧ (place.next c).1 = none := by
  cases place with
  | gap =>
    simp only [AttributePlace.next, equals, if_false] at reads
    split_ifs at reads <;> cases reads
  | inName read =>
    simp only [AttributePlace.next, equals, if_false] at reads
    split_ifs at reads <;> cases reads
  | inValue read earlier =>
    simp only [AttributePlace.next, noQuote, and_false, dif_neg, not_false_eq_true] at reads ⊢
    split_ifs at reads ⊢
    · cases reads
    · cases reads
      exact ⟨earlier, .bare, rfl, rfl⟩
  | inQuotes read quote isQuote earlier escaped =>
    have other : c ≠ quote := fun same => noQuote (same ▸ isQuote)
    rw [next_inQuotes other] at reads ⊢
    cases reads
    exact ⟨earlier, .quoted, rfl, rfl⟩
  | stopped => cases reads

/-- A value in which a text leaves the reader was being read before it, unless the text has a
character that can begin one. -/
theorem reads_of_readFrom (plain : ∀ c ∈ w, c ≠ '=' ∧ ¬(c = '"' ∨ c = '\''))
    (reads : (readFrom place w).2.Reads name value) :
    ∃ begun, place.Reads name begun ∧ value = begun ++ w ∧ (readFrom place w).1 = [] := by
  induction w generalizing place with
  | nil => exact ⟨value, reads, by simp, rfl⟩
  | cons c w ih =>
    obtain ⟨⟨equals, noQuote⟩, plain⟩ := List.forall_mem_cons.mp plain
    obtain ⟨behind, there, rfl, nothing⟩ := ih plain reads
    obtain ⟨begun, here, rfl, none⟩ := reads_of_next equals noQuote there
    exact ⟨begun, here, by simp, by rw [readFrom, none, nothing]; rfl⟩

end Continue

section Letters

def written (attrs : Attributes) : Text := attrs.flatMap fun a => a.name ++ a.value.getD []

@[simp] theorem written_nil : written [] = [] := rfl

@[simp] theorem written_cons (a : Attribute) (attrs : Attributes) :
    written (a :: attrs) = a.name ++ a.value.getD [] ++ written attrs := rfl

@[simp] theorem written_append (attrs more : Attributes) :
    written (attrs ++ more) = written attrs ++ written more := List.flatMap_append

variable {c : Char}

/-- A character that neither separates attributes nor quotes their values is not lost. -/
theorem count_next (letter : isNameChar c = true) (noQuote : ¬(c = '"' ∨ c = '\''))
    (place : AttributePlace) (d : Char) (goesOn : (place.next d).2 ≠ .stopped) :
    (written (place.next d).1.toList).count c + (written (place.next d).2.last?.toList).count c =
      (written place.last?.toList).count c + [d].count c := by
  obtain ⟨bracket, equals, gap⟩ := ne_of_isNameChar letter
  have space : isTagSpace c = false := (Bool.or_eq_false_iff.mp gap).1
  by_cases same : d = c
  · subst same
    cases place with
    | gap => simp [AttributePlace.next, AttributePlace.last?, bracket, equals, gap]
    | inName name => simp [AttributePlace.next, AttributePlace.last?, bracket, equals, gap]
    | inValue name value =>
      simp [AttributePlace.next, AttributePlace.last?, noQuote, space, Nat.add_assoc]
    | inQuotes name quote isQuote value escaped =>
      have other : d ≠ quote := fun same => noQuote (same ▸ isQuote)
      cases escaped with
      | true => simp [AttributePlace.next, AttributePlace.last?, Nat.add_assoc]
      | false =>
        by_cases backslash : d = '\\' <;>
          simp [AttributePlace.next, AttributePlace.last?, backslash, other, Nat.add_assoc]
    | stopped => exact absurd rfl goesOn
  · have none : [d].count c = 0 := by simp [same]
    rw [none]
    cases place with
    | gap =>
      simp only [AttributePlace.next] at goesOn ⊢
      split_ifs at goesOn ⊢ <;> simp_all [AttributePlace.last?]
    | inName name =>
      simp only [AttributePlace.next] at goesOn ⊢
      split_ifs at goesOn ⊢ <;> simp_all [AttributePlace.last?]
    | inValue name value =>
      simp only [AttributePlace.next] at goesOn ⊢
      split_ifs at goesOn ⊢ <;> simp_all [AttributePlace.last?]
    | inQuotes name quote isQuote value escaped =>
      cases escaped with
      | true => simp [AttributePlace.next, AttributePlace.last?, none]
      | false =>
        simp only [AttributePlace.next] at goesOn ⊢
        split_ifs at goesOn ⊢ <;> simp_all [AttributePlace.last?]
    | stopped => exact absurd rfl goesOn

/-- No letter of a text is lost from its attributes if the reader goes on to its end. -/
theorem count_written (letter : isNameChar c = true) (noQuote : ¬(c = '"' ∨ c = '\''))
    {place : AttributePlace} {s : Text} (goesOn : (readFrom place s).2 ≠ .stopped) :
    (written (parseFrom place s)).count c = (written place.last?.toList).count c + s.count c := by
  induction s generalizing place with
  | nil => simp
  | cons d s ih =>
    have onward : (place.next d).2 ≠ .stopped := by
      intro stopped
      refine goesOn ?_
      rw [readFrom, stopped, readFrom_stopped]
    have here := count_next letter noQuote place d onward
    rw [parseFrom_cons, written_append, List.count_append, ih goesOn, ← List.singleton_append,
      List.count_append]
    omega

end Letters

end Attributes

open Attributes

section Bracket

/-- The quote that closes a value stands before the bracket that closes the tag. -/
theorem mem_of_openTagEndFrom?_inside {quote : Char} {s raw rest : Text}
    (h : openTagEndFrom? (.inside quote) s = some (raw, rest)) : quote ∈ raw := by
  generalize here : TagPlace.inside quote = place at h
  fun_induction openTagEndFrom? place s generalizing raw with
  | case1 => simp at h
  | case2 => simp at here
  | case3 => simp at here
  | case4 quote' c s ih =>
    obtain ⟨⟨raw, _⟩, split, same⟩ := Option.map_eq_some_iff.mp h
    obtain ⟨rfl, rfl⟩ := Prod.mk.inj same
    exact List.mem_cons_of_mem _ (List.mem_cons_of_mem _ (ih here split))
  | case5 quote' c s unescaped next =>
    rename_i ih
    obtain rfl := TagPlace.inside.inj here
    obtain ⟨⟨raw, _⟩, split, same⟩ := Option.map_eq_some_iff.mp h
    obtain ⟨rfl, rfl⟩ := Prod.mk.inj same
    by_cases closes : c = quote
    · exact closes ▸ List.mem_cons_self
    · exact List.mem_cons_of_mem _ (ih (by simp [next, closes]) split)

theorem openTagEndFrom?_inside_cons {quote c : Char} (backslash : c ≠ '\\') (s : Text) :
    openTagEndFrom? (.inside quote) (c :: s) =
      (openTagEndFrom? (if c = quote then .outside false else .inside quote) s).map
        fun (raw, rest) => (c :: raw, rest) := by
  rw [openTagEndFrom?]
  exact fun _ _ same _ => backslash same

theorem map_cons_eq_some_iff {answer? : Option (Text × Text)} {raw rest : Text} :
    (answer?.map fun (raw, rest) => (c :: raw, rest)) = some (c :: raw, rest) ↔
      answer? = some (raw, rest) := by
  cases answer? <;> simp [Prod.ext_iff]

/-- Where a text without quotes stands before the bracket that closes a tag, another text that
has its bracket outside quotes may take the place of both. -/
theorem openTagEndFrom?_replace {place : TagPlace} {s w rest raw more more' : Text}
    (isQuote : ∀ quote, place = .inside quote → quote = '"' ∨ quote = '\'')
    (plain : ∀ c ∈ w, ¬(c = '"' ∨ c = '\''))
    (h : openTagEndFrom? place (s ++ (w ++ '>' :: rest)) = some (s ++ w, rest))
    (ends : ∀ afterEquals, openTagEndFrom? (.outside afterEquals) more = some (raw, more')) :
    openTagEndFrom? place (s ++ more) = some (s ++ raw, more') := by
  have inside {quote : Char} {s : Text} (isQuote : quote = '"' ∨ quote = '\'')
      (h : openTagEndFrom? (.inside quote) (s ++ (w ++ '>' :: rest)) = some (s ++ w, rest)) :
      quote ∈ s :=
    (List.mem_append.mp (mem_of_openTagEndFrom?_inside h)).resolve_right
      fun member => plain quote member isQuote
  fun_induction openTagEndFrom? place s with
  | case1 place =>
    cases place with
    | outside afterEquals => exact ends afterEquals
    | inside quote => exact absurd (inside (isQuote quote rfl) h) List.not_mem_nil
  | case2 afterEquals s => simp [openTagEndFrom?] at h
  | case3 afterEquals c s other next =>
    rename_i ih
    rw [List.cons_append, openTagEndFrom?, if_neg other] at h ⊢
    have opened (quote : Char) (here : next = .inside quote) : quote = '"' ∨ quote = '\'' := by
      simp only [next] at here
      split at here
      · rename_i opens
        obtain rfl := TagPlace.inside.inj here
        simpa using (Bool.and_eq_true_iff.mp opens).2
      · simp at here
    exact map_cons_eq_some_iff.mpr (ih opened (map_cons_eq_some_iff.mp h))
  | case4 quote c s ih =>
    rw [List.cons_append, List.cons_append, openTagEndFrom?] at h ⊢
    obtain ⟨⟨_, _⟩, split, same⟩ := Option.map_eq_some_iff.mp h
    obtain ⟨longer, rfl⟩ := Prod.mk.inj same
    obtain ⟨-, rfl⟩ := List.cons.inj (List.cons.inj longer).2
    exact Option.map_eq_some_iff.mpr ⟨_, ih isQuote split, rfl⟩
  | case5 quote c s unescaped next =>
    rename_i ih
    have backslash : c ≠ '\\' := by
      rintro rfl
      cases s with
      | nil =>
        obtain rfl := List.mem_singleton.mp (inside (isQuote quote rfl) h)
        exact absurd (isQuote _ rfl) (by decide)
      | cons d s => exact unescaped d s rfl rfl
    rw [List.cons_append, openTagEndFrom?_inside_cons backslash] at h ⊢
    have goesOn (quote' : Char) (here : next = .inside quote') : quote' = '"' ∨ quote' = '\'' := by
      simp only [next] at here
      split at here
      · simp at here
      · exact isQuote quote' here
    exact map_cons_eq_some_iff.mpr (ih goesOn (map_cons_eq_some_iff.mp h))

/-- Where a value ends, the two readers agree: the one of attributes and the one of tags. -/
theorem openTagEndFrom?_inside {quote : Char} (mark : quote ≠ '\\') (s : Text) :
    openTagEndFrom? (.inside quote) s = (closingQuote? quote s).bind fun (v, t) =>
      (openTagEndFrom? (.outside false) t).map fun (raw, rest) => (v ++ quote :: raw, rest) := by
  fun_induction closingQuote? quote s with
  | case1 => rfl
  | case2 c s ih =>
    rw [openTagEndFrom?, ih]
    cases closingQuote? quote s <;> simp [Function.comp_def]
  | case3 s =>
    rw [openTagEndFrom?_inside_cons mark, if_pos rfl]
    rfl
  | case4 c s single other ih =>
    by_cases backslash : c = '\\'
    · subst backslash
      cases s with
      | nil => rfl
      | cons d s => exact absurd rfl (single d s rfl)
    · rw [openTagEndFrom?_inside_cons backslash, if_neg other, ih]
      cases closingQuote? quote s <;> simp [Function.comp_def]

/-- A value without its quote in it ends at the quote behind it if no backslash hides that one. -/
theorem closingQuote?_append {quote : Char} {v : Text} (absent : quote ∉ v)
    (unescaped : escapedAfter false v = false) (mark : quote ≠ '\\') (t : Text) :
    closingQuote? quote (v ++ quote :: t) = some (v, t) := by
  fun_induction closingQuote? quote v with
  | case1 => simp [closingQuote?, mark]
  | case2 c s ih =>
    have absent : quote ∉ s := fun member =>
      absent (List.mem_cons_of_mem _ (List.mem_cons_of_mem _ member))
    simp [closingQuote?, ih absent unescaped]
  | case3 s => exact absurd List.mem_cons_self absent
  | case4 c s single other ih =>
    have backslash : c ≠ '\\' := by
      rintro rfl
      cases s with
      | nil => exact absurd unescaped (by decide)
      | cons d s => exact single d s rfl rfl
    have step : escapedAfter false (c :: s) = escapedAfter false s := by
      simp [escapedAfter, beq_eq_false_iff_ne.mpr backslash]
    have rest := ih (fun member => absent (List.mem_cons_of_mem _ member)) (step ▸ unescaped)
    simp [closingQuote?, backslash, other, rest]

/-- A value between quotes is read to its end if no backslash hides the quote there. -/
theorem openTagEndFrom?_quoted {quote : Char} {v : Text} (absent : quote ∉ v)
    (unescaped : escapedAfter false v = false) (mark : quote ≠ '\\') (t : Text) :
    openTagEndFrom? (.inside quote) (v ++ quote :: t) =
      (openTagEndFrom? (.outside false) t).map
        fun (raw, rest) => (v ++ quote :: raw, rest) := by
  rw [openTagEndFrom?_inside mark, closingQuote?_append absent unescaped mark, Option.bind_some]

end Bracket

end Stencil
