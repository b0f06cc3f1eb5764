import Stencil.Text.Scan

/-!
# Stand-ins for parts of a text

A part of a text that later steps must not touch is taken out and a stand-in left in its place: a
number between two characters that occur nowhere else.  The parts that were taken out are kept in
a list, and the number says which of them belongs in the place.
-/

namespace Stencil

/-- The two characters around the number of a stand-in. -/
structure StandIn where
  opening : Char
  closing : Char
  deriving DecidableEq, Repr

namespace StandIn

/-- The stand-in for part `n`. -/
def token (kind : StandIn) (n : Nat) : Text := kind.opening :: (Text.ofNat n ++ [kind.closing])

/-- Reads a stand-in of one of some kinds.  A number too large for an index reads as none. -/
def read (kinds : List StandIn) : Reader (Option Nat)
  | _, c :: s => do
    let kind ← kinds.find? fun kind => kind.opening == c
    let digits := s.takeWhile isDigit
    if digits.isEmpty then none
    let rest ← Text.after? [kind.closing] (s.dropWhile isDigit)
    return (Text.index? digits, rest)
  | _, [] => none

/-- Puts the parts back in place of their stand-ins.  A stand-in for no part vanishes. -/
def fill (kinds : List StandIn) (parts : Array Text) (s : Text) : Text :=
  Text.substitute (read kinds) (fun _ n => (n.bind fun i => parts[i]?).getD []) s

/-- Leaves a stand-in for every find, numbered from `n` on, and keeps what `write` makes of the
finds. -/
def place {α : Type} (kind : StandIn) (write : Text → α → Text) :
    Nat → List (Piece α) → Text × List Text
  | _, [] => ([], [])
  | n, .plain c :: pieces =>
    let (s, parts) := place kind write n pieces
    (c :: s, parts)
  | n, .found source value :: pieces =>
    let (s, parts) := place kind write (n + 1) pieces
    (kind.token n ++ s, write source value :: parts)

end StandIn

end Stencil
