import Stencil.Toml.Number
import Stencil.Toml.Quoted
import Stencil.Toml.Table

/-!
# Reading TOML

A document is a sequence of lines: headers of tables, keys with values, comments.  Values may go
over several lines within quotes, brackets and braces, where arrays and tables nest at most 80
deep.
-/

namespace Stencil.Toml

/-! ## Between the values -/

def skipBlanks (s : Text) : Text := s.dropWhile isBlank

/-- Drops blanks, newlines and comments. -/
def skipFiller? : (inComment : Bool) → Text → Option Text
  | _, [] => some []
  | _, '\n' :: s => skipFiller? false s
  | _, '\r' :: '\n' :: s => skipFiller? false s
  | true, c :: s => if isPlain c then skipFiller? true s else none
  | false, c :: s =>
    if isBlank c then skipFiller? false s
    else if c = '#' then skipFiller? true s
    else some (c :: s)

/-- Drops the rest of a line, which holds nothing but blanks and a comment. -/
def skipLine? (s : Text) : Option Text :=
  let s := match skipBlanks s with
    | '#' :: s => s.dropWhile isPlain
    | s => s
  if s.isEmpty then some [] else newline? s

/-! ## Keys -/

def isBareKey (c : Char) : Bool := isAsciiLetter c || isDigit c || c == '_' || c == '-'

def keyPart? (s : Text) : Option (Text × Text) :=
  (lineQuoted? s).or
    (if (s.takeWhile isBareKey).isEmpty then none
    else some (s.takeWhile isBareKey, s.dropWhile isBareKey))

/-- Reads a key of at most some parts: the parts before the last point, the last part, and the rest
without blanks before it. -/
def key? : (parts : Nat) → Text → Option ((List Text × Text) × Text)
  | 0, _ => none
  | parts + 1, s => do
    let (part, s) ← keyPart? (skipBlanks s)
    match skipBlanks s with
    | '.' :: s => do
      let ((path, last), rest) ← key? parts s
      return ((part :: path, last), rest)
    | rest => return (([], part), rest)

def maxKeyParts : Nat := 80

def readKey? (s : Text) : Option ((List Text × Text) × Text) := key? maxKeyParts s

/-! ## Values -/

def isBareValue (c : Char) : Bool :=
  isAsciiLetter c || isDigit c || c == '_' || c == '-' || c == '+' || c == '.' || c == ':'

def bareValue? (s : Text) : Option Toml :=
  if s = "true" then some (.boolean true)
  else if s = "false" then some (.boolean false)
  else match Moment.parse? s, integer? s with
    | some m, _ => some (.moment m)
    | none, some n => if isInRange n then some (.integer n) else none
    | none, none => (float? s).map .float

/-- The text of a value without quotes.  A blank between a date and a time belongs to it. -/
def bareText (s : Text) : Text :=
  let word := s.takeWhile isBareValue
  match s.dropWhile isBareValue with
  | ' ' :: c :: rest =>
    if (Date.read? word).map Prod.snd = some [] ∧ isDigit c then
      word ++ [' '] ++ (c :: rest).takeWhile isBareValue
    else word
  | _ => word

def readBare? (s : Text) : Option (Toml × Text) :=
  (bareValue? (bareText s)).map fun value => (value, s.drop (bareText s).length)

/-- The rest of an array, from a value or the closing bracket on.  Each step takes at least one
character. -/
def elementsEnd? (read : Text → Option (Toml × Text)) :
    (fuel : Nat) → Text → Option (List Toml × Text)
  | 0, _ => none
  | fuel + 1, s => do
    match ← skipFiller? false s with
    | ']' :: rest => return ([], rest)
    | s => do
      let (value, s) ← read s
      match ← skipFiller? false s with
      | ',' :: s => do
        let (values, rest) ← elementsEnd? read fuel s
        return (value :: values, rest)
      | ']' :: rest => return ([value], rest)
      | _ => none

/-- Reads a key and its value, with what `skip` drops around the equals sign; the change adds them
to a table. -/
def readMember? (skip : Text → Option Text) (read : Text → Option (Toml × Text)) (s : Text) :
    Option ((Members → Option Members) × Text) := do
  let ((path, key), s) ← readKey? s
  let s ← Text.after? ['='] (← skip s)
  let (value, rest) ← read (← skip s)
  return (addDotted? path key value, rest)

/-- The rest of a table within braces, from a key or the closing brace on.  Newlines and comments
may stand between its parts, but not within a key.  Each step takes at least one character. -/
def membersEnd? (read : Text → Option (Toml × Text)) :
    (fuel : Nat) → Members → Text → Option (Members × Text)
  | 0, _, _ => none
  | fuel + 1, m, s => do
    match ← skipFiller? false s with
    | '\x7d' :: rest => return (m, rest)
    | s => do
      let (add, s) ← readMember? (skipFiller? false) read s
      let m ← add m
      match ← skipFiller? false s with
      | ',' :: s => membersEnd? read fuel m s
      | '\x7d' :: rest => return (m, rest)
      | _ => none

/-- Reads a value in which arrays and tables nest at most `depth` deep. -/
def readValue? : (depth : Nat) → Text → Option (Toml × Text)
  | _, '"' :: s => (markedString? '"' ('"' :: s)).map fun (s, rest) => (.string s, rest)
  | _, '\'' :: s => (markedString? '\'' ('\'' :: s)).map fun (s, rest) => (.string s, rest)
  | 0, '[' :: _ => none
  | 0, '\x7b' :: _ => none
  | depth + 1, '[' :: s =>
    (elementsEnd? (readValue? depth) (s.length + 1) s).map fun (values, rest) =>
      (.array values, rest)
  | depth + 1, '\x7b' :: s =>
    (membersEnd? (readValue? depth) (s.length + 1) [] s).map fun (members, rest) =>
      (.inlineTable members, rest)
  | _, s => readBare? s

def maxDepth : Nat := 80

/-! ## Documents -/

/-- A document up to some line. -/
structure Draft where
  root : Members := []
  /-- The table that lines with keys add to. -/
  header : List Text := []

namespace Draft

/-- Applies a change to the table that lines with keys add to. -/
def change? (d : Draft) (change : Members → Option Members) : Option Draft :=
  (changeAt? .header change d.header d.root).map fun root => { d with root := root }

/-- Begins a table or an element of an array of tables. -/
def begin? (d : Draft) (opening : Text → Members → Option Members) (path : List Text)
    (key : Text) : Option Draft :=
  (changeAt? .header (opening key) path d.root).map fun root => ⟨root, path ++ [key]⟩

end Draft

/-- Reads a header from after its opening brackets. -/
def readHeader? (opening : Text → Members → Option Members) (closing s : Text) (d : Draft) :
    Option (Draft × Text) := do
  let ((path, key), s) ← readKey? s
  let rest ← Text.after? closing s
  let d ← d.begin? opening path key
  return (d, rest)

/-- Reads what a line begins with. -/
def readLine? (s : Text) (d : Draft) : Option (Draft × Text) :=
  match s with
  | [] => some (d, [])
  | '[' :: '[' :: s => readHeader? openElement? [']', ']'] s d
  | '[' :: s => readHeader? openTable? [']'] s d
  | c :: s =>
    if c = '#' ∨ (newline? (c :: s)).isSome then some (d, c :: s)
    else do
      let (add, rest) ← readMember? (some ∘ skipBlanks) (readValue? maxDepth) (c :: s)
      let d ← d.change? add
      return (d, rest)

/-- Reads the lines of a document.  Each line takes at least one character. -/
def readLines? : (fuel : Nat) → Text → Draft → Option Draft
  | _, [], d => some d
  | 0, _, _ => none
  | fuel + 1, s, d => do
    let (d, s) ← readLine? (skipBlanks s) d
    let rest ← skipLine? s
    readLines? fuel rest d

/-- The table that a document makes up.  A byte order mark may stand before it. -/
def parse? (s : Text) : Option Members :=
  let s := (Text.after? ['\ufeff'] s).getD s
  (readLines? s.length s {}).map Draft.root

end Stencil.Toml
