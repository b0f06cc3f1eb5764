import Stencil.Toml.Value

/-!
# Numbers in TOML

Digits may be grouped by single underscores.  A whole number is decimal, with a sign, or has a
prefix that names its base; it has at most 128 bits.  A number with a point or an exponent is
rounded to binary64, and is none if it is beyond the range.
-/

namespace Stencil.Toml

/-- Removes the underscores that stand between digits; there must be at least one digit. -/
def ungrouped? (isDigitOf : Char → Bool) (s : Text) : Option Text :=
  let groups := Text.splitOn '_' s
  if groups.all fun g => !g.isEmpty && g.all isDigitOf then some groups.flatten else none

/-- The sign of a number, if it has one; whether it is negative. -/
def sign? : Text → Option Bool × Text
  | '+' :: s => (some false, s)
  | '-' :: s => (some true, s)
  | s => (none, s)

/-- Decimal digits with no zero before other digits. -/
def wholeDigits? (s : Text) : Option Text := do
  let digits ← ungrouped? isDigit s
  guard (digits.length = 1 ∨ digits.head? ≠ some '0')
  return digits

/-- The number that digits denote in a base. -/
def digitsValueIn (base : Nat) (digits : Text) : Nat :=
  digits.foldl (fun n d => base * n + hexValue d) 0

/-- A whole number in a base, from after its prefix. -/
def based? (base : Nat) (s : Text) : Option Nat :=
  (ungrouped? (fun c => isHexDigit c && hexValue c < base) s).map (digitsValueIn base)

def integer? (s : Text) : Option Int :=
  match s with
  | '0' :: 'x' :: s => (based? 16 s).map Int.ofNat
  | '0' :: 'o' :: s => (based? 8 s).map Int.ofNat
  | '0' :: 'b' :: s => (based? 2 s).map Int.ofNat
  | _ =>
    let (sign, s) := sign? s
    (wholeDigits? s).map fun digits =>
      let n : Int := Text.digitsValue digits
      if sign = some true then -n else n

def isInRange (n : Int) : Bool := -(Nat.pow 2 127 : Nat) ≤ n && n < (Nat.pow 2 128 : Nat)

/-- Whether a character may stand in a group of digits. -/
def isGrouped (c : Char) : Bool := isDigit c || c == '_'

/-- The digits behind a point, if there is one. -/
def fraction? (s : Text) : Option (Option Text × Text) :=
  match s with
  | '.' :: s =>
    (ungrouped? isDigit (s.takeWhile isGrouped)).map fun digits =>
      (some digits, s.dropWhile isGrouped)
  | s => some (none, s)

/-- An exponent up to the end, if there is one. -/
def exponent? (s : Text) : Option (Option Int) :=
  match s with
  | [] => some none
  | c :: s =>
    if c = 'e' ∨ c = 'E' then
      let (sign, s) := sign? s
      (ungrouped? isDigit s).map fun digits =>
        let n : Int := Text.digitsValue digits
        some (if sign = some true then -n else n)
    else none

/-- A number with a point or an exponent, from after its sign. -/
def decimal? (s : Text) : Option Magnitude := do
  let whole ← wholeDigits? (s.takeWhile isGrouped)
  let (fraction, s) ← fraction? (s.dropWhile isGrouped)
  let exponent ← exponent? s
  guard (fraction.isSome ∨ exponent.isSome)
  let behind := fraction.getD []
  Magnitude.ofDecimal? (Text.digitsValue (whole ++ behind)) (exponent.getD 0 - behind.length)

/-- A number that is not whole. -/
def float? (s : Text) : Option TomlFloat :=
  let (sign, s) := sign? s
  let negative := sign = some true
  if s = "inf" then some (.infinite negative)
  else if s = "nan" then some .nan
  else (decimal? s).map (.finite negative)

end Stencil.Toml
