import Stencil.Number.Binary64
import Stencil.Text.Quoted

/-!
# Lifetimes

How long something is kept: for some milliseconds or for ever.  People write a lifetime as a number
with a unit, such as `2h` or `1.5d`; programs write a whole number of milliseconds.  Nothing that
people write is refused outright: where no number is found, or the number is zero, there is no
lifetime, and the caller falls back to a default.
-/

namespace Stencil

inductive Lifetime where
  /-- For some milliseconds. -/
  | finite (ms : Nat)
  | forever
  deriving DecidableEq, Repr

/-- A text that gives no lifetime where one is required. -/
structure InvalidDuration where
  text : Text
  deriving DecidableEq, Repr

namespace InvalidDuration

def message (e : InvalidDuration) : Text := "Invalid duration: " ++ Text.quoted e.text

end InvalidDuration

/-- A text around the first decimal number in it. -/
structure NumberInText where
  before : Text
  whole : Text
  /-- The digits behind the point; empty if there are none. -/
  fraction : Text
  after : Text
  deriving DecidableEq, Repr

namespace NumberInText

/-- The digits behind a point at the start of a text, and the rest.  A point with no digit behind it
does not belong to the number. -/
def fractionOf (s : Text) : Text × Text :=
  match s with
  | '.' :: rest =>
    if (rest.takeWhile isDigit).isEmpty then ([], s)
    else (rest.takeWhile isDigit, rest.dropWhile isDigit)
  | _ => ([], s)

def find? (s : Text) : Option NumberInText :=
  let fromDigit := s.dropWhile fun c => !isDigit c
  if fromDigit.isEmpty then none
  else
    let (fraction, after) := fractionOf (fromDigit.dropWhile isDigit)
    some ⟨s.takeWhile fun c => !isDigit c, fromDigit.takeWhile isDigit, fraction, after⟩

/-- The binary64 number nearest to the decimal one; none if it is beyond the range. -/
def value? (n : NumberInText) : Option Magnitude :=
  Magnitude.ofDecimal? (Text.digitsValue (n.whole ++ n.fraction)) (-(n.fraction.length : Int))

/-- What stands around the number. -/
def remainder (n : NumberInText) : Text := n.before ++ n.after

end NumberInText

namespace Lifetime

/-- The units, in milliseconds: a month has 30 days and a year 365. -/
def units : List (Char × Nat) :=
  [ ('s', 1000), ('m', 60000), ('h', 3600000), ('d', 86400000), ('w', 604800000),
    ('M', 2592000000), ('Y', 31536000000) ]

/-- The milliseconds that one of a unit makes.  A text that is not exactly a unit stands for
milliseconds. -/
def factor (unit : Text) : Nat :=
  match unit with
  | [c] => (units.lookup c).getD 1
  | _ => 1

def maxMillis : Nat := Nat.pow 2 64 - 1

/-- A number of some unit in whole milliseconds; what is beyond the range becomes the longest. -/
def millis (value : Option Magnitude) (factor : Nat) : Nat :=
  match value.bind (Magnitude.scale? · factor) with
  | some x => min x.round maxMillis
  | none => maxMillis

/-- The lifetime that a number in a text gives; none if the number is zero. -/
def ofNumber? (n : NumberInText) : Option Lifetime :=
  if n.value? = some ⟨0⟩ then none
  else some (.finite (millis n.value? (factor n.remainder)))

/-- The lifetime that a text gives, if it gives one: `-1` is for ever, and otherwise the first
number counts, in the unit that all else in the text spells. -/
def parse? (s : Text) : Option Lifetime :=
  let s := Text.trim s
  if s = "-1" then some .forever
  else (NumberInText.find? s).bind ofNumber?

/-- As `parse?`, where a text that gives no lifetime is an error. -/
def parse (s : Text) : Except InvalidDuration Lifetime :=
  match parse? s with
  | some l => .ok l
  | none => .error ⟨s⟩

/-- The lifetime that a whole number of milliseconds gives: -1 is for ever, and other numbers that
are not positive give none. -/
def ofMillis? (ms : Int) : Option Lifetime :=
  if ms = -1 then some .forever
  else if ms ≤ 0 then none
  else some (.finite ms.toNat)

def millis? : Lifetime → Option Nat
  | .finite ms => some ms
  | .forever => none

def print : Lifetime → Text
  | .finite ms => Text.ofNat ms ++ "ms"
  | .forever => "forever"

end Lifetime

end Stencil
