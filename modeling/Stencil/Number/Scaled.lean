import Stencil.Number.Binary64

/-!
# Decimals with a significand of 64 bits

A decimal is read digit by digit into a significand as long as it fits into 64 bits.  Of the digits
before the point that are left out only the places count, and the digits behind the point that are
left out do not count at all.  The significand is rounded to binary64 and then multiplied by a power
of ten, or divided by one; each of these steps rounds, so that the result may be next to the nearest
magnitude.
-/

namespace Stencil

namespace Magnitude

/-- The magnitude nearest to a whole number; none if it is beyond the range. -/
def ofNat? (n : Nat) : Option Magnitude := ofRatio? n 1

/-- The product, rounded; none if it is beyond the range. -/
def mul? (x y : Magnitude) : Option Magnitude :=
  ofRatio? (x.units * y.units) (unitsOfOne * unitsOfOne)

/-- The quotient, rounded; none if it is beyond the range. -/
def div? (x y : Magnitude) : Option Magnitude := ofRatio? x.units y.units

/-- The greatest power of ten within the range. -/
def maxPower10 : Nat := 308

def power10? (power : Nat) : Option Magnitude := ofNat? (Nat.pow 10 power)

/-- The product with a power of ten, rounded; none if it is beyond the range. -/
def scaleUp? (x : Magnitude) (power : Nat) : Option Magnitude :=
  if power ≤ maxPower10 then (power10? power).bind x.mul?
  else if x.units = 0 then some x
  else none

/-- The quotient by the greatest power of ten, rounded, as often as `steps` says or until there is
nothing left. -/
def divSteps? : (steps : Nat) → Magnitude → Option Magnitude
  | 0, x => some x
  | steps + 1, x =>
    if x.units = 0 then some x
    else (power10? maxPower10).bind fun p => (x.div? p).bind (divSteps? steps)

/-- The quotient by a power of ten, rounded.  Of a power beyond the range the greatest one is split
off as often as possible. -/
def scaleDown? (x : Magnitude) (power : Nat) : Option Magnitude :=
  let steps := (power - 1) / maxPower10
  (divSteps? steps x).bind fun y =>
    (power10? (power - steps * maxPower10)).bind y.div?

/-- The product with a power of ten; none if it is beyond the range. -/
def scale10? (x : Magnitude) : (power : Int) → Option Magnitude
  | .ofNat power => x.scaleUp? power
  | .negSucc power => x.scaleDown? (power + 1)

end Magnitude

/-- A whole number of 64 bits times a power of ten. -/
structure Scaled where
  significand : Nat
  power : Int
  deriving DecidableEq, Repr

namespace Scaled

/-- Adds digits to a significand as long as it fits into 64 bits; how many are left out. -/
def gather : (significand : Nat) → Text → Nat × Nat
  | n, [] => (n, 0)
  | n, c :: s =>
    let next := 10 * n + Text.digitsValue [c]
    if next ≤ Text.maxIndex then gather next s else (n, s.length + 1)

/-- The number with some digits before and behind the point. -/
def ofDigits (whole behind : Text) : Scaled :=
  let (n, missing) := gather 0 whole
  let (n, ignored) := gather n behind
  ⟨n, missing - ((behind.length - ignored : Nat) : Int)⟩

/-- The magnitude of the product with a power of ten; none if it is beyond the range. -/
def magnitude? (x : Scaled) (exponent : Int) : Option Magnitude :=
  (Magnitude.ofNat? x.significand).bind fun n => n.scale10? (x.power + exponent)

end Scaled

end Stencil
