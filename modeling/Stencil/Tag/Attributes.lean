import Stencil.Text.Basic

/-!
# Attributes of an open tag

The text between a tag's name and its closing bracket is a list of attributes: a name, and perhaps
an equals sign and a value with or without quotes.  A backslash keeps the character after it from
closing a quoted value; it stays in the value.
-/

namespace Stencil

/-- An attribute with its value, if it has one. -/
structure Attribute where
  name : Text
  value : Option Text
  deriving DecidableEq, Repr

abbrev Attributes := List Attribute

namespace Attributes

/-- What may stand between attributes. -/
def isGap (c : Char) : Bool := isTagSpace c || c == '/'

def isNameChar (c : Char) : Bool := !(c == '=' || c == '/' || c == '>' || isTagSpace c)

/-- Splits a text at the quote that closes a value; a backslash hides the character after it. -/
def closingQuote? (quote : Char) : Text → Option (Text × Text)
  | [] => none
  | '\\' :: c :: s =>
    (closingQuote? quote s).map fun (value, rest) => ('\\' :: c :: value, rest)
  | c :: s =>
    if c = quote then some ([], s)
    else (closingQuote? quote s).map fun (value, rest) => (c :: value, rest)

/-- Reads what follows an equals sign.  A quote that is never closed takes the rest of the text; a
value without quotes ends before white space. -/
def readValue : Text → Text × Text
  | [] => ([], [])
  | c :: s =>
    if c = '"' ∨ c = '\'' then (closingQuote? c s).getD (s, [])
    else ((c :: s).takeWhile (!isTagSpace ·), (c :: s).dropWhile (!isTagSpace ·))

theorem length_dropWhile_le (p : Char → Bool) (s : Text) : (s.dropWhile p).length ≤ s.length :=
  (List.dropWhile_suffix p).length_le

theorem length_closingQuote? (quote : Char) (s : Text) {value rest : Text}
    (h : closingQuote? quote s = some (value, rest)) : rest.length < s.length := by
  fun_induction closingQuote? quote s generalizing value rest with
  | case1 => simp at h
  | case2 c s ih =>
    obtain ⟨⟨v, r⟩, hv, he⟩ := Option.map_eq_some_iff.1 h
    have := ih hv
    simp only [Prod.mk.injEq] at he
    simp only [List.length_cons, ← he.2]
    omega
  | case3 s _ => simp_all
  | case4 c s _ hc ih =>
    obtain ⟨⟨v, r⟩, hv, he⟩ := Option.map_eq_some_iff.1 h
    have := ih hv
    simp only [Prod.mk.injEq] at he
    simp only [List.length_cons, ← he.2]
    omega

theorem length_readValue_le (s : Text) : (readValue s).2.length ≤ s.length := by
  unfold readValue
  split
  · simp
  · next c s =>
    split
    · cases h : closingQuote? c s with
      | none => simp
      | some p =>
        have : p.2.length < s.length := length_closingQuote? c s h
        simp only [Option.getD_some, List.length_cons]
        omega
    · exact length_dropWhile_le _ _

/-- Reads the text between a tag's name and its closing bracket: the attributes in it, and whether
reading them comes to an end.  At a closing bracket where a name should begin it does not: the
reader stays there, and the attributes are those in front of the bracket. -/
def readAll (s : Text) : Attributes × Bool :=
  let t := s.dropWhile isGap
  let name := t.takeWhile isNameChar
  match _h : t.dropWhile isNameChar with
  | '=' :: rest =>
    let (attrs, ends) := readAll (readValue rest).2
    (⟨name, some (readValue rest).1⟩ :: attrs, ends)
  | rest =>
    if name.isEmpty then ([], rest.isEmpty)
    else
      let (attrs, ends) := readAll rest
      (⟨name, none⟩ :: attrs, ends)
termination_by s.length
decreasing_by
  all_goals
    have h1 := length_dropWhile_le isGap s
    have h2 := length_dropWhile_le isNameChar (s.dropWhile isGap)
    have h3 : (s.dropWhile isGap).takeWhile isNameChar ++
        (s.dropWhile isGap).dropWhile isNameChar = s.dropWhile isGap :=
      List.takeWhile_append_dropWhile
    have h4 := congrArg List.length h3
    rw [List.length_append] at h4
  · have h5 := length_readValue_le rest
    have h6 := congrArg List.length _h
    simp only [t, List.length_cons] at h6
    omega
  · have h6 := congrArg List.length _h
    have h7 : ((s.dropWhile isGap).takeWhile isNameChar).length ≠ 0 := by
      simp_all [name, t]
    simp only [t] at h6
    omega

/-- The attributes of an open tag.  They are those that the program works with only where reading
them ends (`ends`). -/
def parse (s : Text) : Attributes := (readAll s).1

def ends (s : Text) : Bool := (readAll s).2

/-- The value of the first attribute with a name, in letters of either case.  An attribute without
a value has the empty one. -/
def get? (attrs : Attributes) (name : Text) : Option Text :=
  (attrs.find? fun a => Text.sameLetters a.name name).map fun a => a.value.getD []

def contains (attrs : Attributes) (name : Text) : Bool := (get? attrs name).isSome

/-- An attribute as it is written, after a space.  A value stands between double quotes unless it
has one in it. -/
def printOne (a : Attribute) : Text :=
  match a.value with
  | none => ' ' :: a.name
  | some v =>
    if '"' ∈ v then [' '] ++ a.name ++ ['=', '\''] ++ v ++ ['\'']
    else [' '] ++ a.name ++ ['=', '"'] ++ v ++ ['"']

def print (attrs : Attributes) : Text := attrs.flatMap printOne

end Attributes

end Stencil
