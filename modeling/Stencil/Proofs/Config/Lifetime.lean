import Stencil.Config.File
import Stencil.Proofs.Number.Whole
import Stencil.Proofs.Render.Tokens
import Stencil.Proofs.Text.Split

/-!
# Lifetimes in numbers of a unit

A whole number in a text gives that many of the unit that the rest of the text spells, where the
number and its product are each rounded to binary64 (`parse?_of_trim`).  Up to 2^53 milliseconds
there is nothing to round, so that a number with a unit means just what it says; beyond that a whole
number of milliseconds means the same as its decimal text if it is one of binary64.
-/

namespace Stencil

namespace Text

/-- A number in decimal digits behind some zeros. -/
def numeral (zeros n : Nat) : Text := List.replicate zeros '0' ++ ofNat n

/-- Whether a number ends before a text: neither a digit comes next, nor a point and a digit. -/
structure EndsNumber (s : Text) : Prop where
  noDigit : ∀ c ∈ s.head?, isDigit c = false
  noFraction : ∀ c rest, s = '.' :: c :: rest → isDigit c = false

theorem isDigit_of_mem_numeral {c : Char} {zeros n : Nat} (member : c ∈ numeral zeros n) :
    isDigit c = true := by
  rcases List.mem_append.mp member with zero | digit
  · rw [List.eq_of_mem_replicate zero]
    decide
  · exact isDigit_of_mem_ofNat digit

theorem numeral_ne_nil (zeros n : Nat) : numeral zeros n ≠ [] :=
  List.append_ne_nil_of_right_ne_nil _ Nat.toDigits_ne_nil

/-- Zeros in front of a number do not count. -/
theorem digitsValue_numeral (zeros n : Nat) : digitsValue (numeral zeros n) = n := by
  induction zeros with
  | zero => exact digitsValue_ofNat n
  | succ zeros ih => exact ih

end Text

namespace NumberInText

open Text

/-- The first number in a text is the one with no digit in front of it. -/
theorem find?_numeral {a b : Text} {zeros n : Nat} (noDigit : ∀ c ∈ a, isDigit c = false)
    (ends : EndsNumber b) :
    find? (a ++ numeral zeros n ++ b) = some ⟨a, numeral zeros n, [], b⟩ := by
  have digits {c : Char} (member : c ∈ numeral zeros n) := isDigit_of_mem_numeral member
  have before : ∀ c ∈ a, (!isDigit c) = true := fun c member => by simp [noDigit c member]
  have stops : ∀ c ∈ (numeral zeros n ++ b).head?, (!isDigit c) = false := fun c first => by
    simp [digits (mem_of_mem_head?_append (numeral_ne_nil zeros n) first)]
  have whole : fractionOf b = ([], b) := by
    unfold fractionOf
    split
    · next rest =>
      cases rest with
      | nil => rfl
      | cons c rest => simp [ends.noFraction c rest rfl]
    · rfl
  have filled : (numeral zeros n ++ b).isEmpty = false := by simp [numeral_ne_nil]
  simp only [find?, List.append_assoc, dropWhile_all before stops, takeWhile_all before stops,
    dropWhile_all (fun _ => digits) ends.noDigit, takeWhile_all (fun _ => digits) ends.noDigit,
    whole, filled]
  rfl

end NumberInText

namespace Lifetime

open Text Magnitude

variable {unit s a b front back : Text} {f n zeros : Nat}

/-- The units as they are written, each with the milliseconds that it makes. -/
def unitFactors : List (Text × Nat) :=
  [ ("s", 1000), ("m", 60000), ("h", 3600000), ("d", 86400000), ("w", 604800000),
    ("M", 2592000000), ("Y", 31536000000) ]

/-- Whether a text stands for some milliseconds: a unit for its own, any other text for one. -/
def StandsFor (unit : Text) (f : Nat) : Prop :=
  (unit, f) ∈ unitFactors ∨ f = 1 ∧ ∀ g, (unit, g) ∉ unitFactors

theorem factor_of_mem (known : (unit, f) ∈ unitFactors) : factor unit = f := by
  have each : ∀ entry ∈ unitFactors, factor entry.1 = entry.2 := by decide
  exact each _ known

/-- A text that is no unit counts as milliseconds. -/
theorem factor_of_unknown (unknown : ∀ g, (unit, g) ∉ unitFactors) : factor unit = 1 := by
  match unit, unknown with
  | [], _ => rfl
  | [c], unknown =>
    cases found : units.lookup c with
    | none => simp [factor, found]
    | some g =>
      obtain ⟨before, after, split, -⟩ := List.lookup_eq_some_iff.mp found
      have member : ([c], g) ∈ units.map fun entry => ([entry.1], entry.2) := by simp [split]
      exact absurd member (unknown g)
  | _ :: _ :: _, _ => rfl

/-- The factor of a text is the number of milliseconds that it stands for. -/
theorem standsFor_iff : StandsFor unit f ↔ factor unit = f := by
  constructor
  · rintro (known | ⟨rfl, unknown⟩)
    · exact factor_of_mem known
    · exact factor_of_unknown unknown
  · rintro rfl
    by_cases known : ∃ g, (unit, g) ∈ unitFactors
    · obtain ⟨g, member⟩ := known
      exact .inl ((factor_of_mem member).symm ▸ member)
    · have unknown := not_exists.mp known
      exact .inr ⟨factor_of_unknown unknown, unknown⟩

theorem factor_pos (unit : Text) : 0 < factor unit := by
  have each : ∀ entry ∈ unitFactors, 0 < entry.2 := by decide
  rcases standsFor_iff.mpr (rfl : factor unit = factor unit) with known | ⟨single, -⟩
  · exact each _ known
  · rw [single]
    exact Nat.one_pos

/-- A whole number of a unit in whole milliseconds: the number is rounded, then the product, and
what is too large becomes the longest lifetime. -/
theorem millis_ofDecimal? (n : Nat) (positive : 0 < f) :
    millis (ofDecimal? n 0) f = min (nearest (nearest n * f)) maxMillis := by
  have saturated {m : Nat} (large : 2 ^ 64 ≤ m) : min m maxMillis = maxMillis :=
    Nat.min_eq_right ((Nat.sub_le _ 1).trans large)
  -- The number or the product may be beyond binary64; either is then beyond 64 bits, too.
  rcases ofDecimal?_zero n with found | ⟨none, large⟩
  · rw [millis, found, Option.bind_some, scale?_ofWhole, ofRatio?_one]
    split_ifs with inside
    · dsimp only
      rw [round_ofWhole]
    · exact (saturated (two_pow_le_beyond.trans (Nat.le_of_not_lt inside))).symm
  · rw [millis, none, saturated (le_nearest (large.trans (Nat.le_mul_of_pos_right _ positive)))]
    rfl

theorem ofDecimal?_eq_zero_iff : ofDecimal? n 0 = some ⟨0⟩ ↔ n = 0 := by
  constructor
  · intro found
    by_contra positive
    have filled := (Nat.two_pow_pos _).trans_le (two_pow_le_nearest positive)
    rcases ofDecimal?_zero n with given | ⟨none, -⟩
    · rw [found, Option.some.injEq, ofWhole, Magnitude.mk.injEq] at given
      exact absurd given (Nat.mul_pos filled unitsOfOne_pos).ne
    · rw [none] at found
      exact absurd found (by simp)
  · rintro rfl
    rfl

/-- The lifetime that a text with a whole number gives. -/
theorem parse?_of_trim (trimmed : trim s = a ++ numeral zeros n ++ b) (other : trim s ≠ "-1")
    (noDigit : ∀ c ∈ a, isDigit c = false) (ends : EndsNumber b) :
    parse? s = if n = 0 then none
      else some (.finite (min (nearest (nearest n * factor (a ++ b))) maxMillis)) := by
  have value : (NumberInText.mk a (numeral zeros n) [] b).value? = ofDecimal? n 0 := by
    rw [NumberInText.value?, List.append_nil, digitsValue_numeral]
    rfl
  rw [trimmed] at other
  simp only [parse?, trimmed, if_neg other]
  rw [NumberInText.find?_numeral noDigit ends, Option.bind_some, ofNumber?, value,
    millis_ofDecimal? n (factor_pos _)]
  simp only [ofDecimal?_eq_zero_iff, NumberInText.remainder]

/-- The lifetime of a number at the start of a text, with white space around it. -/
theorem parse?_numeral (ends : EndsNumber b) (shown : ∀ c ∈ b, isSpace c = false ∧ c ≠ '-')
    (before : isSpaceOnly front = true) (after : isSpaceOnly back = true) :
    parse? (front ++ numeral zeros n ++ b ++ back) = if n = 0 then none
      else some (.finite (min (nearest (nearest n * factor b)) maxMillis)) := by
  have visible : ∀ c ∈ numeral zeros n ++ b, isSpace c = false ∧ c ≠ '-' := by
    intro c member
    rcases List.mem_append.mp member with digit | letter
    · have digit := isDigit_of_mem_numeral digit
      exact ⟨not_isSpace_of_isDigit digit, by rintro rfl; exact absurd digit (by decide)⟩
    · exact shown c letter
  have trimmed : trim (front ++ numeral zeros n ++ b ++ back) = [] ++ numeral zeros n ++ b := by
    rw [List.append_assoc front]
    exact trim_between (fun c member => (visible c member).1)
      (List.append_ne_nil_of_left_ne_nil (numeral_ne_nil zeros n) b) before after
  -- All that is left of the text is visible and has no minus sign, so it is not the text for ever.
  have other : trim (front ++ numeral zeros n ++ b ++ back) ≠ "-1" := by
    have minus : '-' ∈ ("-1" : Text) := by decide
    intro same
    rw [← same, trimmed, List.nil_append] at minus
    exact (visible '-' minus).2 rfl
  have read := parse?_of_trim trimmed other (by simp) ends
  rwa [List.nil_append] at read

theorem endsNumber_of_letters (letters : ∀ c ∈ b, isDigit c = false ∧ c ≠ '.') : EndsNumber b where
  noDigit c first := (letters c (List.mem_of_mem_head? first)).1
  noFraction _ _ split := absurd rfl (letters '.' (split ▸ List.mem_cons_self)).2

/-- A number with a unit is read exactly if there is nothing to round. -/
theorem parse?_numeral_unit (known : unit = [] ∧ f = 1 ∨ (unit, f) ∈ unitFactors) (positive : 1 ≤ n)
    (small : n * f ≤ 2 ^ 53) (before : isSpaceOnly front = true) (after : isSpaceOnly back = true) :
    parse? (front ++ numeral zeros n ++ unit ++ back) = some (.finite (n * f)) := by
  have letters : factor unit = f ∧
      ∀ c ∈ unit, isDigit c = false ∧ isSpace c = false ∧ c ≠ '.' ∧ c ≠ '-' := by
    rcases known with ⟨rfl, rfl⟩ | known
    · exact ⟨rfl, by simp⟩
    · have each : ∀ entry ∈ unitFactors, ∀ c ∈ entry.1,
          isDigit c = false ∧ isSpace c = false ∧ c ≠ '.' ∧ c ≠ '-' := by decide
      exact ⟨factor_of_mem known, each _ known⟩
  obtain ⟨rfl, letters⟩ := letters
  have whole : nearest n = n := nearest_of_isWhole
    (isWhole_of_le ((Nat.le_mul_of_pos_right n (factor_pos unit)).trans small))
  rw [parse?_numeral
      (endsNumber_of_letters fun c member => ⟨(letters c member).1, (letters c member).2.2.1⟩)
      (fun c member => ⟨(letters c member).2.1, (letters c member).2.2.2⟩) before after,
    if_neg (by omega), whole, nearest_of_isWhole (isWhole_of_le small),
    Nat.min_eq_left (small.trans (by decide : 2 ^ 53 ≤ maxMillis))]

/-- The milliseconds of a printed lifetime are read back if there is nothing to round. -/
theorem parse?_print (positive : 1 ≤ n) (small : n ≤ 2 ^ 53) :
    parse? (print (.finite n)) = some (.finite n) := by
  have printed : print (.finite n) = [] ++ numeral 0 n ++ ("ms" : Text) ++ [] := by
    rw [List.append_nil]
    rfl
  have whole := nearest_of_isWhole (isWhole_of_le small)
  rw [printed, parse?_numeral (endsNumber_of_letters (by decide)) (by decide) rfl rfl,
    if_neg (by omega), whole, show factor "ms" = 1 from rfl, Nat.mul_one, whole,
    Nat.min_eq_left (small.trans (by decide : 2 ^ 53 ≤ maxMillis))]

/-- A number with a unit, or with none for milliseconds, means exactly what it says up to 2^53
milliseconds, and so does what is printed of it.  In any text in which the number is the first one,
the unit is what all else in the text spells; the number and then the product are rounded, and the
longest lifetime has 2^64 - 1 milliseconds. -/
theorem parse?_units :
    (∀ unit f, unit = [] ∧ f = 1 ∨ (unit, f) ∈ unitFactors → ∀ n zeros front back, 1 ≤ n →
      n * f ≤ 2 ^ 53 → isSpaceOnly front = true → isSpaceOnly back = true →
      parse? (front ++ numeral zeros n ++ unit ++ back) = some (.finite (n * f)) ∧
        parse? (print (.finite (n * f))) = some (.finite (n * f))) ∧
    ∀ s a zeros n b, trim s = a ++ numeral zeros n ++ b → trim s ≠ "-1" →
      (∀ c ∈ a, isDigit c = false) → EndsNumber b →
      (n = 0 → parse? s = none) ∧
        (0 < n → ∃ f m r, StandsFor (a ++ b) f ∧ RoundsTo n m ∧ RoundsTo (m * f) r ∧
          parse? s = some (.finite (min r (2 ^ 64 - 1)))) := by
  constructor
  · intro unit f known n zeros front back positive small before after
    have filled : 0 < f := by
      rcases known with ⟨-, rfl⟩ | known
      · exact Nat.one_pos
      · exact factor_of_mem known ▸ factor_pos unit
    exact ⟨parse?_numeral_unit known positive small before after,
      parse?_print (Nat.mul_pos positive filled) small⟩
  · intro s a zeros n b trimmed other noDigit ends
    have value := parse?_of_trim trimmed other noDigit ends
    refine ⟨fun zero => by rw [value, if_pos zero], fun positive => ?_⟩
    rw [if_neg positive.ne'] at value
    exact ⟨factor (a ++ b), nearest n, nearest (nearest n * factor (a ++ b)), standsFor_iff.mpr rfl,
      roundsTo_iff.mpr rfl, roundsTo_iff.mpr rfl, value⟩

/-- Seven hours, with zeros and white space around them, and five hours with the unit in front. -/
theorem parse?_units_hours :
    parse? " 007h\n" = some (.finite 25200000) ∧
      parse? (print (.finite 25200000)) = some (.finite 25200000) ∧
      ∃ f m r, StandsFor "h" f ∧ RoundsTo 5 m ∧ RoundsTo (m * f) r ∧
        parse? "h5" = some (.finite (min r (2 ^ 64 - 1))) := by
  have seven := parse?_units.1 "h" 3600000 (.inr (by decide)) 7 2 " " "\n" (by decide) (by decide)
    (by decide) (by decide)
  have five := (parse?_units.2 "h5" "h" 0 5 [] (by decide) (by decide) (by decide)
    ⟨by simp, by simp⟩).2 (by decide)
  exact ⟨seven.1, seven.2, five⟩

def decimal (n : Int) : Text := if n < 0 then '-' :: ofNat n.natAbs else ofNat n.natAbs

/-- A positive number in decimal digits is the lifetime of the magnitude nearest to it. -/
theorem parse?_decimal_of_pos {n : Int} (positive : 0 < n) (bounded : n < 2 ^ 63) :
    parse? (decimal n) = some (.finite (nearest n.toNat)) := by
  obtain ⟨k, rfl⟩ := Int.eq_ofNat_of_zero_le positive.le
  have written : decimal k = [] ++ numeral 0 k ++ [] ++ [] := by
    rw [List.append_nil, List.append_nil, decimal, if_neg (by omega)]
    rfl
  have bounded : k ≤ 2 ^ 63 := by omega
  have inside : nearest k ≤ maxMillis := (nearest_le bounded).trans (by decide)
  rw [written, parse?_numeral (endsNumber_of_letters (by simp)) (by simp) rfl rfl,
    if_neg (by omega), show factor [] = 1 from rfl, Nat.mul_one,
    nearest_of_isWhole (isWhole_nearest k), Nat.min_eq_left inside, Int.toNat_natCast]

theorem ofMillis?_of_pos {n : Int} (positive : 0 < n) :
    ofMillis? n = some (.finite n.toNat) := by
  rw [ofMillis?, if_neg (by omega), if_neg (by omega)]

/-- As a whole number of 64 bits and as its decimal text, -1 and 0 mean the same.  A positive number
is rounded as a text, and so means the same just if it is one of binary64; the two settings of a
configuration file agree as the numbers do. -/
theorem parse?_decimal (n : Int64) (atLeast : -1 ≤ n.toInt) :
    (parse? (decimal n.toInt) = ofMillis? n.toInt ↔ n.toInt ≤ 0 ∨ IsWhole n.toInt.toNat) ∧
    (0 < n.toInt → ∃ r, RoundsTo n.toInt.toNat r ∧
      parse? (decimal n.toInt) = some (.finite r)) ∧
    ∀ fallback : Lifetime,
      ((LifetimeSetting.ofToml? (.string (decimal n.toInt))).map (·.resolve fallback) =
          (LifetimeSetting.ofToml? (.integer n.toInt)).map (·.resolve fallback) ↔
        n.toInt ≤ 0 ∨ IsWhole n.toInt.toNat) := by
  have low := n.le_toInt
  have high := n.toInt_lt
  generalize n.toInt = n at atLeast low high
  have setting : LifetimeSetting.ofToml? (.integer n) = some (.millis n) := if_pos ⟨low, high⟩
  rw [setting]
  by_cases positive : 0 < n
  · have read := parse?_decimal_of_pos positive high
    have given := ofMillis?_of_pos positive
    have agree : nearest n.toNat = n.toNat ↔ n ≤ 0 ∨ IsWhole n.toNat := by
      rw [nearest_eq_self_iff, or_iff_right (by omega)]
    refine ⟨by simp [read, given, agree], fun _ => ⟨_, roundsTo_iff.mpr rfl, read⟩, ?_⟩
    intro fallback
    simp [LifetimeSetting.ofToml?, LifetimeSetting.resolve, read, given, agree]
  · have small : n ≤ 0 := Int.not_lt.mp positive
    have same : parse? (decimal n) = ofMillis? n := by
      obtain rfl | rfl : n = -1 ∨ n = 0 := by omega
      · decide +kernel
      · decide +kernel
    refine ⟨iff_of_true same (.inl small), (absurd · positive), fun fallback => ?_⟩
    refine iff_of_true ?_ (.inl small)
    simp only [LifetimeSetting.ofToml?, Option.map_some, LifetimeSetting.resolve, same]

/-- The last number up to which binary64 has all, and the next one. -/
theorem parse?_decimal_limit :
    parse? (decimal 9007199254740992) = ofMillis? 9007199254740992 ∧
      ∃ r, RoundsTo 9007199254740993 r ∧ parse? (decimal 9007199254740993) = some (.finite r) :=
  ⟨(parse?_decimal 9007199254740992 (by decide)).1.mpr (.inr ⟨1, 53, by decide, by decide⟩),
    (parse?_decimal 9007199254740993 (by decide)).2.1 (by decide)⟩

theorem parse?_decimal_ne :
    parse? (decimal (9007199254740993 : Int64).toInt) ≠ ofMillis? (9007199254740993 : Int64).toInt ∧
      parse? (decimal (-5 : Int64).toInt) ≠ ofMillis? (-5 : Int64).toInt := by
  decide +kernel

end Lifetime

end Stencil
