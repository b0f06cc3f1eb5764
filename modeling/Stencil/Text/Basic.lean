/-!
# Texts

A text is a list of characters.  This module holds the questions that every stage asks of a text:
which characters are blank, what is left after a given start, where the lines are, what an
overall replacement gives.  Everything is structural recursion or a standard list operation, so
that a statement about a text is a statement about a list.
-/

namespace Stencil

/-- A text, character by character. -/
abbrev Text := List Char

/-- A string literal stands for the text of its characters. -/
instance : Coe String Text := ⟨String.toList⟩

/-- Equality of texts that is computed is equality. -/
instance : LawfulBEq Text := inferInstance

/-- A property of the characters of a text is decided along the text.  It goes before every way to
decide a property of characters by trying them all. -/
instance (priority := 2000) Text.decidableForallMem {p : Char → Prop} [DecidablePred p] (s : Text) :
    Decidable (∀ c ∈ s, p c) := List.decidableBAll p s

/-- As for texts, for a character that there may be. -/
instance (priority := 2000) Text.decidableForallMemOption {p : Char → Prop} [DecidablePred p]
    (c? : Option Char) : Decidable (∀ c ∈ c?, p c) :=
  match c? with
  | none => .isTrue (by simp)
  | some c => decidable_of_iff (p c) (by simp)

def isBlank (c : Char) : Bool := c == ' ' || c == '\t'

/-- The characters that may stand around an attribute in a tag. -/
def isTagSpace (c : Char) : Bool :=
  c == ' ' || c == '\t' || c == '\n' || c == '\x0c' || c == '\r'

/-- White space in the sense of the Unicode property of that name. -/
def isSpace (c : Char) : Bool :=
  let n := c.toNat
  (9 ≤ n && n ≤ 13) || n == 0x20 || n == 0x85 || n == 0xA0 || n == 0x1680 ||
    (0x2000 ≤ n && n ≤ 0x200A) || n == 0x2028 || n == 0x2029 || n == 0x202F || n == 0x205F ||
    n == 0x3000

def isAsciiLetter (c : Char) : Bool := ('a' ≤ c && c ≤ 'z') || ('A' ≤ c && c ≤ 'Z')

def isDigit (c : Char) : Bool := '0' ≤ c && c ≤ '9'

def isHexDigit (c : Char) : Bool :=
  isDigit c || ('a' ≤ c && c ≤ 'f') || ('A' ≤ c && c ≤ 'F')

/-- The value of a hexadecimal digit; other characters count as zero. -/
def hexValue (c : Char) : Nat :=
  if isDigit c then c.toNat - '0'.toNat
  else if 'a' ≤ c && c ≤ 'f' then c.toNat - 'a'.toNat + 10
  else if 'A' ≤ c && c ≤ 'F' then c.toNat - 'A'.toNat + 10
  else 0

namespace Text

def startsWith (s start : Text) : Bool := start.isPrefixOf s

def endsWith (s finish : Text) : Bool := finish.isSuffixOf s

/-- What follows `start` in a text that begins with it. -/
def after? : (start s : Text) → Option Text
  | [], s => some s
  | _ :: _, [] => none
  | a :: start, c :: s => if a = c then after? start s else none

/-- As `after?`, where letters of the text are compared in the case that `fold` gives them. -/
def afterFolded? (fold : Char → Char) : (start s : Text) → Option Text
  | [], s => some s
  | _ :: _, [] => none
  | a :: start, c :: s => if a = fold c then afterFolded? fold start s else none

/-- The text with A to Z in lower case. -/
def lower (s : Text) : Text := s.map Char.toLower

/-- The text with a to z in upper case. -/
def upper (s : Text) : Text := s.map Char.toUpper

/-- Equality up to the case of A to Z. -/
def sameLetters (s t : Text) : Bool := lower s == lower t

def dropEndWhile (p : Char → Bool) (s : Text) : Text := (s.reverse.dropWhile p).reverse

def trimStart (s : Text) : Text := s.dropWhile isSpace

def trimEnd (s : Text) : Text := dropEndWhile isSpace s

def trim (s : Text) : Text := trimEnd (trimStart s)

def isSpaceOnly (s : Text) : Bool := s.all isSpace

/-- The parts between the occurrences of `sep`; one part more than there are occurrences. -/
def splitOn (sep : Char) : Text → List Text
  | [] => [[]]
  | c :: s =>
    if c = sep then [] :: splitOn sep s
    else match splitOn sep s with
      | [] => [[c]]
      | part :: parts => (c :: part) :: parts

def join (sep : Text) (parts : List Text) : Text := List.intercalate sep parts

def lines (s : Text) : List Text := splitOn '\n' s

def ofLines (ls : List Text) : Text := join ['\n'] ls

/-- What stands before and after the first occurrence of `sep`. -/
def splitFirst? (sep : Char) : Text → Option (Text × Text)
  | [] => none
  | c :: s =>
    if c = sep then some ([], s)
    else (splitFirst? sep s).map fun (before, rest) => (c :: before, rest)

/-- What stands before the first place at which `after` recognises something, and what `after`
leaves of the text there. -/
def splitWhere? (after : Text → Option Text) : Text → Option (Text × Text)
  | [] => (after []).map ([], ·)
  | c :: s =>
    match after (c :: s) with
    | some rest => some ([], rest)
    | none => (splitWhere? after s).map fun (before, rest) => (c :: before, rest)

/-- What stands before and after the first occurrence of the text `mark`. -/
def splitAtFirst? (mark : Text) (s : Text) : Option (Text × Text) := splitWhere? (after? mark) s

/-- What stands before and after the last occurrence of the text `mark`. -/
def splitAtLast? (mark s : Text) : Option (Text × Text) :=
  (splitAtFirst? mark.reverse s.reverse).map fun (after, before) => (before.reverse, after.reverse)

/-- Replaces the occurrences of `old`, which is not empty, by `new`, from left to right.  The next
`skip` characters belong to an occurrence that has already been replaced. -/
def replaceFrom (old new : Text) : Nat → Text → Text
  | _, [] => []
  | skip + 1, _ :: s => replaceFrom old new skip s
  | 0, c :: s =>
    if startsWith (c :: s) old then new ++ replaceFrom old new (old.length - 1) s
    else c :: replaceFrom old new 0 s

/-- Replaces every occurrence of `old`, found from left to right, by `new`.  The empty text occurs
before every character and at the end. -/
def replace (old new s : Text) : Text :=
  if old.isEmpty then new ++ s.flatMap (· :: new) else replaceFrom old new 0 s

/-- A number in decimal digits. -/
def ofNat (n : Nat) : Text := Nat.toDigits 10 n

/-- A number in at least `width` decimal digits. -/
def ofNatPadded (width n : Nat) : Text := List.replicate (width - (ofNat n).length) '0' ++ ofNat n

/-- The number that decimal digits denote. -/
def digitsValue (s : Text) : Nat := s.foldl (fun n c => 10 * n + (c.toNat - '0'.toNat)) 0

/-- The largest number that an index or a count can hold. -/
def maxIndex : Nat := Nat.pow 2 64 - 1

/-- The number that a nonempty run of digits denotes, if it is small enough to be an index. -/
def index? (s : Text) : Option Nat :=
  if s.isEmpty || !s.all isDigit then none
  else if digitsValue s ≤ maxIndex then some (digitsValue s) else none

/-- The size of a character in UTF-8. -/
def byteSize (s : Text) : Nat := s.foldr (fun c n => c.utf8Size + n) 0

/-- Order by the bytes of the UTF-8 form, which is the order by code points. -/
def le : Text → Text → Bool
  | [], _ => true
  | _ :: _, [] => false
  | a :: s, b :: t => a < b || (a == b && le s t)

end Text

end Stencil
