import Stencil.Text.Scan

/-!
# Entity codes

Authors write a short code after an ampersand, such as the two characters of "not equal" or a
hash sign and a letter, and get the entity for it.  Letters count in either case and a semicolon
after the code is part of it.  References by number are left alone, and nothing that is written for
a code is a code again; but a code without an entry leaves nothing, and what stood around it may be
a code then.
-/

namespace Stencil.EntityCode

/-- The entity for a code, with letters in lower case.  The two codes that are read and have no
entry give nothing. -/
def table : List (Text × Text) :=
  [ (['<'], "&lt;"), (['>'], "&gt;"), (['&'], "&amp;"),
    (['*'], "&ast;"), (['\\'], "&bsol;"), (['/'], "&sol;"),
    (['"'], "&quot;"), (['\''], "&apos;"), (['\x60'], "&grave;"),
    (['?'], "&quest;"), (['='], "&equals;"),
    ("#s", "&sect;"), ("#c", "&copy;"),
    ("#r", "&reg;"), ("#o", "&deg;"),
    ("#p", "&para;"), ("#i", "&infin;"),
    ("+-", "&plusmn;"), ("?=", "&asymp;"),
    ("^/", "&radic;"), ("!=", "&ne;"),
    ("<=", "&le;"), (">=", "&ge;"),
    (['$'], "&cent;"), ("$p", "&pound;"),
    ("$e", "&euro;"), ("$y", "&yen;"),
    ("$r", "&#8377;"), ("$u", "&#20803;"),
    ("$w", "&#8361;"), (['#'], "&#960;") ]

def entity (code : Text) : Text := (table.lookup code).getD []

/-- The codes of two signs. -/
def pairs : List Text :=
  ["+-", "?=", "^/", "!=", "<=", ">="]

/-- The letters that make a code with a hash sign.  The long s is a case form of s. -/
def hashLetters : List Char := ['s', 'c', 'r', 'o', 'p', 'i', 'd', '\u017f']

/-- The letters that make a code with a dollar sign. -/
def dollarLetters : List Char := ['c', 'p', 'e', 'y', 'r', 'u', 'w']

/-- The signs that are a code on their own. -/
def singles : List Char :=
  ['<', '>', '&', '\\', '/', '"', '\'', '\x60', '?', '=', '$', '#', '*']

/-- The code at the start of a text, with its letter in lower case; the longer code wins. -/
def code? : Text → Option (Text × Text)
  | [] => none
  | [c] => if c ∈ singles then some ([c], []) else none
  | c :: d :: s =>
    if [c, d] ∈ pairs then some ([c, d], s)
    else if c = '#' ∧ d.toLower ∈ hashLetters then some ([c, d.toLower], s)
    else if c = '$' ∧ d.toLower ∈ dollarLetters then some ([c, d.toLower], s)
    else if c ∈ singles then some ([c], d :: s)
    else none

/-- Whether the text after an ampersand and a hash sign goes on with a reference by number. -/
def startsNumber : Text → Bool
  | c :: d :: _ => isDigit c || ((c == 'x' || c == 'X') && isHexDigit d)
  | [c] => isDigit c
  | [] => false

def dropSemicolon : Text → Text
  | ';' :: s => s
  | s => s

/-- Reads an ampersand with its code and gives what it stands for: the bare ampersand before a
semicolon, the entity of the code, or `none` for a reference by number, which stays. -/
def read : Reader (Option Text)
  | _, '&' :: ';' :: s => some (some "&amp;", s)
  | _, '&' :: s =>
    (code? s).map fun (code, rest) =>
      if code = ['#'] ∧ startsNumber rest then (none, rest)
      else (some (entity code), dropSemicolon rest)
  | _, _ => none

def expand (s : Text) : Text :=
  Text.substitute read (fun source value => value.getD source) s

end Stencil.EntityCode
