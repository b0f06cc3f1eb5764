import Stencil.Text.Basic

/-!
# Strings in JSON

A string in JSON stands between double quotes.  Only the quote, the backslash and the characters
below the space are written with a backslash; five of them have a letter and the others their code
point in four hexadecimal digits.
-/

namespace Stencil.Json

/-- A code point below the space in four hexadecimal digits. -/
def fourDigits (n : Nat) : Text :=
  let digits := Nat.toDigits 16 n
  List.replicate (4 - digits.length) '0' ++ digits

/-- A character of a string in JSON. -/
def quotedChar (c : Char) : Text :=
  if c = '"' then ['\\', '"']
  else if c = '\\' then ['\\', '\\']
  else if c = '\n' then ['\\', 'n']
  else if c = '\r' then ['\\', 'r']
  else if c = '\t' then ['\\', 't']
  else if c = '\x08' then ['\\', 'b']
  else if c = '\x0c' then ['\\', 'f']
  else if c.toNat < 32 then ['\\', 'u'] ++ fourDigits c.toNat
  else [c]

def quoted (s : Text) : Text := ['"'] ++ s.flatMap quotedChar ++ ['"']

end Stencil.Json
