import Stencil.Json.Value
import Stencil.Number.Scaled

/-!
# Reading JSON

A text is read as one value with nothing but white space around it.  Whole numbers that fit into
64 bits stay whole; all other numbers are decimals whose significand has at most 64 bits, and a
number beyond the range of binary64 is no value.  Arrays and objects nest at most 127 deep.
-/

namespace Stencil.Json

/-- White space between the parts of a value. -/
def isGap (c : Char) : Bool := c == ' ' || c == '\n' || c == '\t' || c == '\r'

def skipGap (s : Text) : Text := s.dropWhile isGap

/-- The number that four hexadecimal digits denote. -/
def fourHex? : Text → Option (Nat × Text)
  | a :: b :: c :: d :: s =>
    if [a, b, c, d].all isHexDigit then
      some ((([a, b, c, d].map hexValue).foldl (fun n d => 16 * n + d) 0), s)
    else none
  | _ => none

/-- The character that the digits after a backslash and a `u` denote.  A character beyond 16 bits
takes two such escapes, and neither half stands alone. -/
def unicodeEscape? (s : Text) : Option (Char × Text) := do
  let (n, s) ← fourHex? s
  if n < 0xD800 ∨ 0xDFFF < n then return (Char.ofNat n, s)
  else if 0xDBFF < n then none
  else
    let s ← Text.after? ['\\', 'u'] s
    let (m, s) ← fourHex? s
    if m < 0xDC00 ∨ 0xDFFF < m then none
    else return (Char.ofNat (0x10000 + (n - 0xD800) * 0x400 + (m - 0xDC00)), s)

/-- The character that an escape denotes, from after its backslash. -/
def escape? : Text → Option (Char × Text)
  | '"' :: s => some ('"', s)
  | '\\' :: s => some ('\\', s)
  | '/' :: s => some ('/', s)
  | 'b' :: s => some ('\x08', s)
  | 'f' :: s => some ('\x0c', s)
  | 'n' :: s => some ('\n', s)
  | 'r' :: s => some ('\r', s)
  | 't' :: s => some ('\t', s)
  | 'u' :: s => unicodeEscape? s
  | _ => none

/-- The rest of a string after its opening quote; each step takes at least one character. -/
def stringEnd? : (fuel : Nat) → Text → Option (Text × Text)
  | 0, _ => none
  | _ + 1, [] => none
  | fuel + 1, c :: s =>
    if c = '"' then some ([], s)
    else if c = '\\' then do
      let (d, s) ← escape? s
      let (value, rest) ← stringEnd? fuel s
      return (d :: value, rest)
    else if c.toNat < 32 then none
    else (stringEnd? fuel s).map fun (value, rest) => (c :: value, rest)

/-- A string from after its opening quote. -/
def readString? (s : Text) : Option (Text × Text) := stringEnd? s.length s

def digits? (s : Text) : Option (Text × Text) :=
  let digits := s.takeWhile isDigit
  if digits.isEmpty then none else some (digits, s.dropWhile isDigit)

/-- The digits before a point or an exponent: no zero stands before other digits. -/
def wholeDigits? (s : Text) : Option (Text × Text) := do
  let (digits, rest) ← digits? s
  if digits.head? = some '0' ∧ 1 < digits.length then none else some (digits, rest)

/-- The digits behind a point, if one follows. -/
def fraction? : Text → Option (Option Text × Text)
  | '.' :: s => (digits? s).map fun (digits, rest) => (some digits, rest)
  | s => some (none, s)

/-- The sign of an exponent; whether it is negative. -/
def exponentSign : Text → Bool × Text
  | '+' :: s => (false, s)
  | '-' :: s => (true, s)
  | s => (false, s)

/-- The exponent, if one follows. -/
def exponent? : Text → Option (Option Int × Text)
  | c :: s =>
    if c = 'e' ∨ c = 'E' then do
      let (negative, s) := exponentSign s
      let (digits, rest) ← digits? s
      let n : Int := Text.digitsValue digits
      return (some (if negative then -n else n), rest)
    else some (none, c :: s)
  | [] => some (none, [])

/-- The number with these digits before and behind the point and this exponent. -/
def numberOf? (negative : Bool) (whole : Text) (fraction : Option Text) (exponent : Option Int) :
    Option JsonNumber :=
  let n := Text.digitsValue whole
  let isWhole := fraction.isNone && exponent.isNone
  if isWhole && !negative && n < Nat.pow 2 64 then some (.int n)
  else if isWhole && negative && 0 < n && n ≤ Nat.pow 2 63 then some (.int (-n))
  else
    ((Scaled.ofDigits whole (fraction.getD [])).magnitude? (exponent.getD 0)).map (.float negative)

def readNumber? (s : Text) : Option (Json × Text) := do
  let (negative, s) : Bool × Text := match s with
    | '-' :: s => (true, s)
    | s => (false, s)
  let (whole, s) ← wholeDigits? s
  let (fraction, s) ← fraction? s
  let (exponent, rest) ← exponent? s
  let n ← numberOf? negative whole fraction exponent
  return (.number n, rest)

/-- The rest of an array after an element has been begun, and what follows the array.  Each step
reads at least one character. -/
def elements? (read : Text → Option (Json × Text)) :
    (fuel : Nat) → Text → Option (List Json × Text)
  | 0, _ => none
  | fuel + 1, s => do
    let (value, s) ← read (skipGap s)
    match skipGap s with
    | ']' :: rest => return ([value], rest)
    | ',' :: s => do
      let (values, rest) ← elements? read fuel s
      return (value :: values, rest)
    | _ => none

/-- The rest of an object from the name of a member on, and what follows the object.  Each step
reads at least one character. -/
def members? (read : Text → Option (Json × Text)) :
    (fuel : Nat) → Text → Option (List (Text × Json) × Text)
  | 0, _ => none
  | fuel + 1, s => do
    let s ← Text.after? ['"'] (skipGap s)
    let (name, s) ← readString? s
    let s ← Text.after? [':'] (skipGap s)
    let (value, s) ← read (skipGap s)
    match skipGap s with
    | '\x7d' :: rest => return ([(name, value)], rest)
    | ',' :: s => do
      let (members, rest) ← members? read fuel s
      return ((name, value) :: members, rest)
    | _ => none

/-- Reads an array from after its opening bracket. -/
def readArray? (read : Text → Option (Json × Text)) (s : Text) : Option (Json × Text) :=
  match skipGap s with
  | ']' :: rest => some (.array [], rest)
  | s => (elements? read s.length s).map fun (values, rest) => (.array values, rest)

/-- Reads an object from after its opening brace. -/
def readObject? (read : Text → Option (Json × Text)) (s : Text) : Option (Json × Text) :=
  match skipGap s with
  | '\x7d' :: rest => some (.object [], rest)
  | s => (members? read s.length s).map fun (members, rest) => (ofMembers members, rest)

/-- Reads a value in which arrays and objects nest at most `depth` deep. -/
def readValue? : (depth : Nat) → Text → Option (Json × Text)
  | _, '"' :: s => (readString? s).map fun (value, rest) => (.string value, rest)
  | 0, '[' :: _ => none
  | 0, '\x7b' :: _ => none
  | depth + 1, '[' :: s => readArray? (readValue? depth) s
  | depth + 1, '\x7b' :: s => readObject? (readValue? depth) s
  | _, s =>
    if let some rest := Text.after? "null" s then some (.null, rest)
    else if let some rest := Text.after? "true" s then some (.bool true, rest)
    else if let some rest := Text.after? "false" s then some (.bool false, rest)
    else readNumber? s

/-- How deep arrays and objects may nest. -/
def maxDepth : Nat := 127

def parse? (s : Text) : Option Json := do
  let (value, rest) ← readValue? maxDepth (skipGap s)
  if (skipGap rest).isEmpty then some value else none

end Stencil.Json
