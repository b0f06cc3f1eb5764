import Stencil.Json.Quoted
import Stencil.Number.Shortest

/-!
# JSON values

Values, and how they are written: without blanks, with the members of an object in the order of
their names.  A number is a whole number of 64 bits or a binary64 number; the latter always shows a
point or an exponent.
-/

namespace Stencil

inductive JsonNumber where
  | int (n : Int)
  | float (negative : Bool) (magnitude : Magnitude)
  deriving DecidableEq, Repr

/-- A value in JSON.  The members of an object are in the order of their names, which differ. -/
inductive Json where
  | null
  | bool (b : Bool)
  | number (n : JsonNumber)
  | string (s : Text)
  | array (elements : List Json)
  | object (members : List (Text × Json))
  deriving Repr

namespace JsonNumber

def printSigned (negative : Bool) (s : Text) : Text := if negative then '-' :: s else s

/-- A positional decimal: the digits with the point after `before` of them. -/
def printPositional (digits : Text) (before : Nat) : Text :=
  let whole := digits.take before ++ List.replicate (before - digits.length) '0'
  let fraction := digits.drop before
  whole ++ ['.'] ++ (if fraction.isEmpty then ['0'] else fraction)

/-- A decimal with an exponent. -/
def printExponent (digits : Text) (exponent : Int) : Text :=
  let sign : Char := if exponent < 0 then '-' else '+'
  let fraction := digits.drop 1
  digits.take 1 ++ (if fraction.isEmpty then [] else '.' :: fraction) ++ ['e', sign] ++
    Text.ofNat exponent.natAbs

/-- A scientific decimal as text: positional from five places behind the point to sixteen before it,
and with an exponent beyond that. -/
def printScientific (s : Scientific) : Text :=
  if s.exponent < -5 ∨ 15 < s.exponent then printExponent s.digits s.exponent
  else if s.exponent < 0 then
    ['0', '.'] ++ List.replicate (s.exponent.natAbs - 1) '0' ++ s.digits
  else printPositional s.digits (s.exponent.toNat + 1)

def print : JsonNumber → Text
  | .int n => printSigned (n < 0) (Text.ofNat n.natAbs)
  | .float negative magnitude => printSigned negative (printScientific magnitude.shortest)

end JsonNumber

namespace Json

/-- Puts a member at its place among others; a member of that name is replaced. -/
def insertMember (name : Text) (value : Json) : List (Text × Json) → List (Text × Json)
  | [] => [(name, value)]
  | (n, v) :: rest =>
    if name = n then (name, value) :: rest
    else if Text.le name n then (name, value) :: (n, v) :: rest
    else (n, v) :: insertMember name value rest

/-- The object with some members, of which the last one of a name counts. -/
def ofMembers (members : List (Text × Json)) : Json :=
  .object (members.foldl (fun sorted (name, value) => insertMember name value sorted) [])

mutual

def print : Json → Text
  | .null => "null"
  | .bool true => "true"
  | .bool false => "false"
  | .number n => n.print
  | .string s => quoted s
  | .array elements => ['['] ++ printElements elements ++ [']']
  | .object members => ['\x7b'] ++ printMembers members ++ ['\x7d']

def printElements : List Json → Text
  | [] => []
  | [v] => print v
  | v :: w :: rest => print v ++ [','] ++ printElements (w :: rest)

def printMembers : List (Text × Json) → Text
  | [] => []
  | [(name, v)] => quoted name ++ [':'] ++ print v
  | (name, v) :: m :: rest => quoted name ++ [':'] ++ print v ++ [','] ++ printMembers (m :: rest)

end

end Json

end Stencil
