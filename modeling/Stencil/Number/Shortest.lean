import Stencil.Number.Binary64

/-!
# The shortest decimal of a magnitude

A magnitude is written with the fewest digits that read back as the same magnitude, and with the
nearest of those decimals if there are several; of two that are equally near, with the one whose
last digit is even.  For each number of digits only the two decimals next to the value can be the
answer: if any decimal of that many digits reads back, one of the two does.
-/

namespace Stencil

/-- A decimal in scientific form: its digits, the first of which stands before the point, and the
power of ten. -/
structure Scientific where
  digits : Text
  exponent : Int
  deriving DecidableEq, Repr

namespace Magnitude

/-- The power of ten of the first significant digit. -/
def exponent10 (x : Magnitude) : Int :=
  if unitsOfOne ≤ x.units then ((Nat.toDigits 10 (x.units / unitsOfOne)).length : Int) - 1
  else
    match (List.range 330).find? fun j => unitsOfOne ≤ x.units * Nat.pow 10 j with
    | some j => -(j : Int)
    | none => 0

/-- Twice the distance, in units, to the half way points below and above a magnitude, doubled once
more to stay whole.  Below a power of two the next magnitude is half as far. -/
def gaps (x : Magnitude) : Nat × Nat :=
  let step := spacing x.units
  (if x.units = Nat.pow 2 52 * step ∧ 1 < step then step else 2 * step, 2 * step)

/-- Whether `c / d` quarter units read back as the magnitude: half way points belong to it if its
significand is even. -/
def readsBack (x : Magnitude) (c d : Nat) : Bool :=
  let (below, above) := x.gaps
  let low := (4 * x.units - below) * d
  let high := (4 * x.units + above) * d
  if x.units / spacing x.units % 2 = 0 then low ≤ c && c ≤ high else low < c && c < high

/-- The nearest decimal of some number of digits that reads back, as a whole number of units in the
last place. -/
def ofDigits? (x : Magnitude) (count : Nat) : Option Nat :=
  let place := x.exponent10 - count + 1
  let n := Nat.pow 10 place.toNat * 4 * unitsOfOne
  let d := Nat.pow 10 (-place).toNat
  let value := 4 * x.units * d
  let lower := value / n
  match x.readsBack (lower * n) d, x.readsBack ((lower + 1) * n) d with
  | true, true => some (Magnitude.divNearest value n)
  | true, false => some lower
  | false, true => some (lower + 1)
  | false, false => none

/-- The shortest decimal of a positive magnitude; zero has the digit zero. -/
def shortest (x : Magnitude) : Scientific :=
  if x.units = 0 then ⟨['0'], 0⟩
  else
    match (List.range 17).findSome? fun i => (x.ofDigits? (i + 1)).map (i + 1, ·) with
    | some (count, n) =>
      let digits := Nat.toDigits 10 n
      ⟨Text.dropEndWhile (· == '0') digits, x.exponent10 + (digits.length - count : Nat)⟩
    | none => ⟨['0'], 0⟩

end Magnitude

end Stencil
