import Stencil.Text.Basic

/-!
# Strings in TOML

A string stands within quotes, with escapes, or within apostrophes, as it is.  Either mark may be
written three times, and then the string may go over several lines; a newline right after the
opening marks does not belong to it, and up to two marks may stand before the closing ones.
-/

namespace Stencil.Toml

/-- The characters that may stand in strings and comments as they are. -/
def isPlain (c : Char) : Bool := c == '\t' || (0x20 ≤ c.toNat && c.toNat != 0x7F)

def newline? : Text → Option Text
  | '\n' :: s => some s
  | '\r' :: '\n' :: s => some s
  | _ => none

def dropGap : Text → Text
  | '\r' :: '\n' :: s => dropGap s
  | c :: s => if isBlank c || c == '\n' then dropGap s else c :: s
  | [] => []

/-- The character with a number in some hexadecimal digits. -/
def charOfHex? (count : Nat) (s : Text) : Option (Char × Text) :=
  let digits := s.take count
  let n := digits.foldl (fun n d => 16 * n + hexValue d) 0
  if digits.length = count ∧ digits.all isHexDigit ∧ n.isValidChar then
    some (Char.ofNat n, s.drop count)
  else none

/-- The character that an escape denotes, from after its backslash. -/
def escape? : Text → Option (Char × Text)
  | '"' :: s => some ('"', s)
  | '\\' :: s => some ('\\', s)
  | 'b' :: s => some ('\x08', s)
  | 't' :: s => some ('\t', s)
  | 'n' :: s => some ('\n', s)
  | 'f' :: s => some ('\x0c', s)
  | 'r' :: s => some ('\r', s)
  | 'e' :: s => some ('\x1b', s)
  | 'x' :: s => charOfHex? 2 s
  | 'u' :: s => charOfHex? 4 s
  | 'U' :: s => charOfHex? 8 s
  | _ => none

/-- The rest of a string on one line; each step takes at least one character. -/
def lineString? (mark : Char) : (fuel : Nat) → Text → Option (Text × Text)
  | 0, _ => none
  | _ + 1, [] => none
  | fuel + 1, c :: s =>
    if c = mark then some ([], s)
    else if c = '\\' ∧ mark = '"' then do
      let (d, s) ← escape? s
      let (value, rest) ← lineString? mark fuel s
      return (d :: value, rest)
    else if isPlain c then (lineString? mark fuel s).map fun (value, rest) => (c :: value, rest)
    else none

/-- What follows a backslash that ends its line: the next character that is neither a blank nor a
newline. -/
def joinedLine? (s : Text) : Option Text :=
  (newline? (s.dropWhile isBlank)).map dropGap

/-- The rest of a string over several lines; each step takes at least one character. -/
def blockString? (mark : Char) : (fuel : Nat) → Text → Option (Text × Text)
  | 0, _ => none
  | _ + 1, [] => none
  | fuel + 1, c :: s =>
    let marks := ((c :: s).takeWhile (· == mark)).length
    if 3 ≤ marks then
      some (List.replicate (min marks 5 - 3) mark, (c :: s).drop (min marks 5))
    else if c = '\\' ∧ mark = '"' then
      match joinedLine? s with
      | some rest => blockString? mark fuel rest
      | none => do
        let (d, s) ← escape? s
        let (value, rest) ← blockString? mark fuel s
        return (d :: value, rest)
    else if isPlain c || (newline? (c :: s)).isSome then
      (blockString? mark fuel s).map fun (value, rest) => (c :: value, rest)
    else none

/-- A string with one of the marks around it. -/
def markedString? (mark : Char) (s : Text) : Option (Text × Text) :=
  match Text.after? [mark, mark, mark] s with
  | some rest =>
    let rest := (newline? rest).getD rest
    blockString? mark (rest.length + 1) rest
  | none => (Text.after? [mark] s).bind fun rest => lineString? mark (rest.length + 1) rest

/-- A string on one line, with either mark. -/
def lineQuoted? : Text → Option (Text × Text)
  | '"' :: s => lineString? '"' (s.length + 1) s
  | '\'' :: s => lineString? '\'' (s.length + 1) s
  | _ => none

end Stencil.Toml
