import Stencil.Text.Basic

/-!
# Binary64 magnitudes

A finite binary64 magnitude is a whole number of units of 2^-1074, the smallest positive one, with
at most 53 significant bits.  A ratio is rounded to the nearest magnitude, and to the one with the
even significand when two are equally near; all of this is arithmetic on natural numbers.
-/

namespace Stencil

/-- A finite binary64 magnitude, as a number of units of 2^-1074. -/
structure Magnitude where
  units : Nat
  deriving DecidableEq, Repr

namespace Magnitude

/-- How many units make one. -/
def unitsOfOne : Nat := Nat.pow 2 1074

/-- The first number of units beyond the range. -/
def limit : Nat := Nat.pow 2 2098

/-- Division rounded to the nearest whole number, and to the even one of two. -/
def divNearest (a b : Nat) : Nat :=
  let q := a / b
  let r := a % b
  if 2 * r < b then q else if b < 2 * r then q + 1 else q + q % 2

/-- The units from one magnitude to the next around a number of units, as a power of two. -/
def spacing (units : Nat) : Nat := Nat.pow 2 (units.log2 - 52)

/-- The magnitude nearest to a ratio; none if it is beyond the range. -/
def ofRatio? (num den : Nat) : Option Magnitude :=
  let a := num * unitsOfOne
  let step := spacing (a / den)
  let units := divNearest a (den * step) * step
  if units < limit then some ⟨units⟩ else none

/-- The magnitude nearest to a decimal with some digits and a power of ten; none if it is beyond
the range.  Powers that are far out of range are not computed. -/
def ofDecimal? (digits : Nat) (power : Int) : Option Magnitude :=
  let size := (Nat.toDigits 10 digits).length
  if digits = 0 ∨ (size : Int) + power < -330 then some ⟨0⟩
  else if 310 < (size : Int) + power then none
  else if 0 ≤ power then ofRatio? (digits * Nat.pow 10 power.toNat) 1
  else ofRatio? digits (Nat.pow 10 (-power).toNat)

/-- The product with a whole number, rounded; none if it is beyond the range. -/
def scale? (x : Magnitude) (factor : Nat) : Option Magnitude :=
  ofRatio? (x.units * factor) unitsOfOne

/-- The nearest whole number; a half goes up. -/
def round (x : Magnitude) : Nat := (2 * x.units + unitsOfOne) / (2 * unitsOfOne)

end Magnitude

end Stencil
