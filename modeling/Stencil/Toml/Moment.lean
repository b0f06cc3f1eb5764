import Stencil.Text.Basic

/-!
# Dates and times in TOML

A moment is a date, a time of day, or both with perhaps an offset from the universal time.  The
numbers are checked against the calendar and the clock when a moment is read, and a moment is
printed in one form only, whichever of the ways to write it was chosen.
-/

namespace Stencil

structure Date where
  year : Nat
  month : Nat
  day : Nat
  deriving DecidableEq, Repr

/-- A second of a minute, perhaps with billionths. -/
structure Second where
  whole : Nat
  billionths : Option Nat
  deriving DecidableEq, Repr

/-- A time of day; the second may be left out. -/
structure TimeOfDay where
  hour : Nat
  minute : Nat
  second : Option Second
  deriving DecidableEq, Repr

inductive TimeOffset where
  /-- The universal time itself. -/
  | universal
  /-- So many minutes ahead of it. -/
  | minutes (ahead : Int)
  deriving DecidableEq, Repr

inductive Moment where
  | date (d : Date)
  | time (t : TimeOfDay)
  | both (d : Date) (t : TimeOfDay) (offset : Option TimeOffset)
  deriving DecidableEq, Repr

/-! ## Printing -/

/-- Four digits for the year, two for the month and two for the day. -/
def Date.print (d : Date) : Text :=
  Text.ofNatPadded 4 d.year ++ ['-'] ++ Text.ofNatPadded 2 d.month ++ ['-'] ++
    Text.ofNatPadded 2 d.day

/-- The second with the billionths that are given, without zeros at the end but at least one
digit. -/
def Second.print (s : Second) : Text :=
  let fraction : Text := match s.billionths with
    | none => []
    | some 0 => ".0"
    | some n => '.' :: Text.dropEndWhile (· == '0') (Text.ofNatPadded 9 n)
  Text.ofNatPadded 2 s.whole ++ fraction

/-- Two digits for each part that is given. -/
def TimeOfDay.print (t : TimeOfDay) : Text :=
  let second : Text := match t.second with
    | none => []
    | some s => ':' :: s.print
  Text.ofNatPadded 2 t.hour ++ [':'] ++ Text.ofNatPadded 2 t.minute ++ second

/-- A sign, hours and minutes; no offset at all is ahead. -/
def TimeOffset.print : TimeOffset → Text
  | .universal => ['Z']
  | .minutes ahead =>
    (if ahead < 0 then '-' else '+') :: TimeOfDay.print
      ⟨ahead.natAbs / 60, ahead.natAbs % 60, none⟩

/-- A date and a time have a T between them. -/
def Moment.print : Moment → Text
  | .date d => d.print
  | .time t => t.print
  | .both d t offset => d.print ++ ['T'] ++ t.print ++ (offset.map TimeOffset.print).getD []

/-! ## Reading -/

/-- Reads a number of exactly some digits. -/
def Text.readDigits? (count : Nat) (s : Text) : Option (Nat × Text) :=
  let digits := s.take count
  if digits.length = count ∧ digits.all isDigit then
    some (Text.digitsValue digits, s.drop count)
  else none

namespace Date

def daysInMonth (year month : Nat) : Nat :=
  if month = 2 then
    if year % 4 = 0 ∧ (year % 100 ≠ 0 ∨ year % 400 = 0) then 29 else 28
  else if month ∈ [4, 6, 9, 11] then 30
  else if 1 ≤ month ∧ month ≤ 12 then 31
  else 0

/-- Reads a day that the calendar has. -/
def read? (s : Text) : Option (Date × Text) := do
  let (year, s) ← Text.readDigits? 4 s
  let s ← Text.after? ['-'] s
  let (month, s) ← Text.readDigits? 2 s
  let s ← Text.after? ['-'] s
  let (day, s) ← Text.readDigits? 2 s
  guard (1 ≤ day ∧ day ≤ daysInMonth year month)
  return (⟨year, month, day⟩, s)

end Date

namespace Second

/-- Reads the parts of a second, if there are any.  Of its digits nine count. -/
def readBillionths? : Text → Option (Option Nat × Text)
  | '.' :: s =>
    let digits := s.takeWhile isDigit
    if digits.isEmpty then none
    else some (some (Text.digitsValue ((digits ++ List.replicate 9 '0').take 9)),
      s.dropWhile isDigit)
  | s => some (none, s)

/-- Reads a second, which may be a leap second. -/
def read? (s : Text) : Option (Second × Text) := do
  let (whole, s) ← Text.readDigits? 2 s
  guard (whole ≤ 60)
  let (billionths, s) ← readBillionths? s
  return (⟨whole, billionths⟩, s)

end Second

namespace TimeOfDay

def readMinutes? (s : Text) : Option ((Nat × Nat) × Text) := do
  let (hour, s) ← Text.readDigits? 2 s
  let s ← Text.after? [':'] s
  let (minute, s) ← Text.readDigits? 2 s
  guard (hour ≤ 23 ∧ minute ≤ 59)
  return ((hour, minute), s)

def read? (s : Text) : Option (TimeOfDay × Text) := do
  let ((hour, minute), s) ← readMinutes? s
  match s with
  | ':' :: s => do
    let (second, s) ← Second.read? s
    return (⟨hour, minute, some second⟩, s)
  | s => return (⟨hour, minute, none⟩, s)

end TimeOfDay

/-- The offset that a text denotes, or none in an empty text. -/
def TimeOffset.parse? : Text → Option (Option TimeOffset)
  | [] => some none
  | c :: s =>
    if c = 'z' ∨ c = 'Z' then if s.isEmpty then some (some .universal) else none
    else if c = '+' ∨ c = '-' then
      match TimeOfDay.readMinutes? s with
      | some ((hour, minute), []) =>
        let ahead : Int := 60 * hour + minute
        some (some (.minutes (if c = '-' then -ahead else ahead)))
      | _ => none
    else none

namespace Moment

/-- The date with a time and perhaps an offset. -/
def ofDateAnd? (d : Date) (s : Text) : Option Moment := do
  let (t, s) ← TimeOfDay.read? s
  let offset ← TimeOffset.parse? s
  return .both d t offset

/-- The moment that a text denotes.  Either case of the T between date and time will do, and so
will a blank. -/
def parse? (s : Text) : Option Moment :=
  match Date.read? s with
  | some (d, []) => some (.date d)
  | some (d, c :: s) => if c = 'T' ∨ c = 't' ∨ c = ' ' then ofDateAnd? d s else none
  | none =>
    match TimeOfDay.read? s with
    | some (t, []) => some (.time t)
    | _ => none

end Moment

end Stencil
