import Mathlib.Data.Nat.Dist
import Stencil.Number.Binary64

/-!
# Whole numbers in binary64

A whole number is one of binary64 if it has at most 53 significant bits (`IsWhole`).  Every other
one is rounded to the nearest of these, and of two that are equally near to the one whose
significand is even (`RoundsTo`).  The magnitude that is nearest to a whole number, and that of a
product of two, are those of the rounded whole numbers (`ofRatio?_one`, `scale?_ofWhole`): counted
in units the numbers have only zeros more at their ends, and these make no difference to the
rounding (`nearest_mul_two_pow`).
-/

namespace Stencil

namespace Magnitude

variable {m n k s : Nat}

/-- Whether a whole number is one of binary64, were there no bound on its size. -/
def IsWhole (n : Nat) : Prop := ∃ m k, m < 2 ^ 53 ∧ n = m * 2 ^ k

/-- Whether a whole number of binary64 is the one to which another number is rounded.  A number of
`53 + k` bits has multiples of `2 ^ k` around it, and of these the multiples of `2 ^ (k + 1)` are
the ones with an even significand. -/
structure RoundsTo (n r : Nat) : Prop where
  isWhole : IsWhole r
  nearest : ∀ g, IsWhole g → Nat.dist r n ≤ Nat.dist g n
  even : ∀ g, IsWhole g → g ≠ r → Nat.dist g n = Nat.dist r n →
    ∀ k, 2 ^ (52 + k) ≤ n → n < 2 ^ (53 + k) → 2 ^ (k + 1) ∣ r

/-- The whole number of binary64 to which another one is rounded. -/
def nearest (n : Nat) : Nat := divNearest n (spacing n) * spacing n

section Division

theorem divNearest_mul (positive : 0 < k) (m n : Nat) :
    divNearest (m * k) (n * k) = divNearest m n := by
  unfold divNearest
  rw [Nat.mul_div_mul_right m n positive, Nat.mul_mod_mul_right]
  have first : 2 * (m % n * k) < n * k ↔ 2 * (m % n) < n := by
    rw [← Nat.mul_assoc, Nat.mul_lt_mul_right positive]
  have second : n * k < 2 * (m % n * k) ↔ n < 2 * (m % n) := by
    rw [← Nat.mul_assoc, Nat.mul_lt_mul_right positive]
  simp only [first, second]

theorem divNearest_mul_self (positive : 0 < s) (m : Nat) : divNearest (m * s) s = m := by
  simp [divNearest, Nat.mul_div_cancel m positive, positive]

/-- A quotient is rounded down or up by at most one half, and an even number comes of a half. -/
theorem divNearest_cases (m s : Nat) :
    (divNearest m s = m / s ∧ 2 * (m % s) ≤ s ∨
      divNearest m s = m / s + 1 ∧ s ≤ 2 * (m % s)) ∧
      (2 * (m % s) = s → divNearest m s % 2 = 0) := by
  unfold divNearest
  dsimp only
  split_ifs <;> omega

theorem divNearest_bounds (m s : Nat) : m / s ≤ divNearest m s ∧ divNearest m s ≤ m / s + 1 := by
  obtain ⟨down | up, -⟩ := divNearest_cases m s <;> omega

/-- The multiple that the rounded quotient gives is off by at most one half. -/
theorem two_mul_dist_divNearest_le (m : Nat) (positive : 0 < s) :
    2 * Nat.dist (divNearest m s * s) m ≤ s := by
  have whole := Nat.div_add_mod' m s
  have short := Nat.mod_lt m positive
  unfold Nat.dist
  obtain ⟨⟨rounded, half⟩ | ⟨rounded, half⟩, -⟩ := divNearest_cases m s
  · rw [rounded]
    omega
  · rw [rounded, Nat.add_one_mul (m / s)]
    omega

/-- No multiple is nearer than the one that the rounded quotient gives. -/
theorem dist_divNearest_le (m : Nat) (positive : 0 < s) (k : Nat) :
    Nat.dist (divNearest m s * s) m ≤ Nat.dist (k * s) m := by
  have whole := Nat.div_add_mod' m s
  have short := Nat.mod_lt m positive
  have far : m / s * s + s ≤ k * s ∨ k * s ≤ m / s * s := by
    rcases Nat.lt_or_ge (m / s) k with above | below
    · rw [← Nat.add_one_mul]
      exact .inl (Nat.mul_le_mul_right s above)
    · exact .inr (Nat.mul_le_mul_right s below)
  unfold Nat.dist
  obtain ⟨⟨rounded, half⟩ | ⟨rounded, half⟩, -⟩ := divNearest_cases m s
  · rw [rounded]
    omega
  · rw [rounded, Nat.add_one_mul]
    omega

/-- If another multiple is as near, the rounded quotient is even. -/
theorem divNearest_even (positive : 0 < s) (other : k ≠ divNearest m s)
    (same : Nat.dist (k * s) m = Nat.dist (divNearest m s * s) m) : divNearest m s % 2 = 0 := by
  have whole := Nat.div_add_mod' m s
  have short := Nat.mod_lt m positive
  have step : k = m / s ∨ k = m / s + 1 ∨ m / s * s + 2 * s ≤ k * s ∨ k * s + s ≤ m / s * s := by
    rcases Nat.lt_trichotomy k (m / s) with below | here | above
    · rw [← Nat.add_one_mul]
      exact .inr (.inr (.inr (Nat.mul_le_mul_right s below)))
    · exact .inl here
    · by_cases next : k = m / s + 1
      · exact .inr (.inl next)
      · rw [← Nat.add_mul]
        exact .inr (.inr (.inl (Nat.mul_le_mul_right s (by omega))))
  unfold Nat.dist at same
  obtain ⟨⟨rounded, half⟩ | ⟨rounded, half⟩, even⟩ := divNearest_cases m s
  · refine even ?_
    rw [rounded] at same other
    rcases step with here | rfl | far | far
    · exact absurd here other
    · rw [Nat.add_one_mul] at same
      omega
    · omega
    · omega
  · refine even ?_
    rw [rounded] at same other
    rw [Nat.add_one_mul] at same
    rcases step with rfl | next | far | far
    · omega
    · exact absurd next other
    · omega
    · omega

end Division

section Rounding

theorem spacing_pos (n : Nat) : 0 < spacing n := Nat.two_pow_pos _

/-- Zeros at the end shift the places of a number. -/
theorem log2_mul_two_pow (positive : n ≠ 0) (k : Nat) : (n * 2 ^ k).log2 = n.log2 + k := by
  have shifted : n * 2 ^ k ≠ 0 := Nat.mul_ne_zero positive (Nat.two_pow_pos k).ne'
  rw [Nat.log2_eq_iff shifted, Nat.pow_add, Nat.add_right_comm, Nat.pow_add]
  exact ⟨Nat.mul_le_mul_right _ (Nat.log2_self_le positive),
    Nat.mul_lt_mul_of_pos_right Nat.lt_log2_self (Nat.two_pow_pos k)⟩

theorem nearest_of_dvd (whole : spacing n ∣ n) : nearest n = n := by
  obtain ⟨q, split⟩ := whole
  rw [Nat.mul_comm] at split
  have rounded := divNearest_mul_self (spacing_pos n) q
  rw [← split] at rounded
  rw [nearest, rounded]
  exact split.symm

theorem lt_spacing_mul (n : Nat) : n < spacing n * 2 ^ 53 := by
  show n < 2 ^ (n.log2 - 52) * 2 ^ 53
  rw [← Nat.pow_add]
  exact Nat.lt_log2_self.trans_le (Nat.pow_le_pow_right Nat.zero_lt_two (by omega))

/-- The numbers of binary64 are those that are multiples of their spacing. -/
theorem isWhole_iff (n : Nat) : IsWhole n ↔ spacing n ∣ n := by
  constructor
  · rintro ⟨m, k, small, rfl⟩
    by_cases zero : m = 0
    · simp [zero]
    · have bits : m.log2 < 53 := (Nat.log2_lt zero).mpr small
      rw [spacing, log2_mul_two_pow zero]
      exact (Nat.pow_dvd_pow 2 (by omega)).trans (Nat.dvd_mul_left _ m)
  · rintro ⟨q, split⟩
    refine ⟨q, n.log2 - 52, ?_, by rw [Nat.mul_comm]; exact split⟩
    have small := lt_spacing_mul n
    conv_lhs at small => rw [split]
    exact Nat.lt_of_mul_lt_mul_left small

theorem nearest_of_isWhole (whole : IsWhole n) : nearest n = n :=
  nearest_of_dvd ((isWhole_iff n).mp whole)

theorem isWhole_of_le (small : n ≤ 2 ^ 53) : IsWhole n := by
  rcases Nat.lt_or_eq_of_le small with below | rfl
  · exact ⟨n, 0, below, by simp⟩
  · exact ⟨1, 53, by decide, by decide⟩

/-- Zeros at the end make no difference to the rounding. -/
theorem nearest_mul_two_pow (n k : Nat) : nearest (n * 2 ^ k) = nearest n * 2 ^ k := by
  by_cases zero : n = 0
  · simp [zero, nearest, divNearest]
  -- The spacing is bounded below by one, so it shifts with the zeros only for long numbers; short
  -- ones are not rounded at all.
  · by_cases short : n.log2 < 52
    · have whole : IsWhole n := isWhole_of_le ((Nat.log2_lt zero).mp (by omega)).le
      obtain ⟨m, j, small, rfl⟩ := whole
      have shifted : IsWhole (m * 2 ^ j * 2 ^ k) :=
        ⟨m, j + k, small, by rw [Nat.pow_add, Nat.mul_assoc]⟩
      rw [nearest_of_isWhole shifted, nearest_of_isWhole ⟨m, j, small, rfl⟩]
    · have shifted : spacing (n * 2 ^ k) = spacing n * 2 ^ k := by
        rw [spacing, spacing, log2_mul_two_pow zero]
        show 2 ^ _ = 2 ^ _ * 2 ^ k
        rw [← Nat.pow_add]
        congr 1
        omega
      rw [nearest, shifted, divNearest_mul (Nat.two_pow_pos k), nearest, Nat.mul_assoc]

theorem isWhole_nearest (n : Nat) : IsWhole (nearest n) := by
  have few : n / spacing n < 2 ^ 53 := by
    rw [Nat.div_lt_iff_lt_mul (spacing_pos n), Nat.mul_comm]
    exact lt_spacing_mul n
  have bound := (divNearest_bounds n (spacing n)).2
  rcases Nat.lt_or_eq_of_le (bound.trans few) with below | full
  · exact ⟨_, n.log2 - 52, below, rfl⟩
  · refine ⟨1, 53 + (n.log2 - 52), by decide, ?_⟩
    rw [nearest, full, Nat.one_mul, Nat.pow_add]
    rfl

/-- Rounding does not go below a power of two. -/
theorem two_pow_le_nearest (positive : n ≠ 0) : 2 ^ n.log2 ≤ nearest n := by
  have whole : spacing n ∣ 2 ^ n.log2 := Nat.pow_dvd_pow 2 (Nat.sub_le _ _)
  obtain ⟨q, split⟩ := whole
  have below : q ≤ n / spacing n := by
    rw [Nat.le_div_iff_mul_le (spacing_pos n), Nat.mul_comm, ← split]
    exact Nat.log2_self_le positive
  rw [split, Nat.mul_comm]
  exact Nat.mul_le_mul_right _ (below.trans (divNearest_bounds _ _).1)

theorem le_nearest (large : 2 ^ k ≤ n) : 2 ^ k ≤ nearest n := by
  have positive : n ≠ 0 := (Nat.two_pow_pos k).trans_le large |>.ne'
  have longer : k ≤ n.log2 := (Nat.le_log2 positive).mpr large
  exact (Nat.pow_le_pow_right Nat.zero_lt_two longer).trans (two_pow_le_nearest positive)

/-- A number of binary64 is a multiple of the spacing around another number, or farther from that
number than the one it is rounded to. -/
theorem dvd_or_dist_lt {g : Nat} (whole : IsWhole g) (n : Nat) :
    spacing n ∣ g ∨ Nat.dist (nearest n) n < Nat.dist g n := by
  by_cases zero : n = 0
  · exact .inl (zero ▸ Nat.one_dvd g)
  by_cases large : 2 ^ n.log2 ≤ g
  · have filled : g ≠ 0 := (Nat.two_pow_pos _).trans_le large |>.ne'
    have longer : n.log2 ≤ g.log2 := (Nat.le_log2 filled).mpr large
    exact .inl ((Nat.pow_dvd_pow 2 (by omega)).trans ((isWhole_iff g).mp whole))
  -- Below the power of two the spacing is finer, but the power is nearer than all numbers there.
  · have multiple : spacing n ∣ 2 ^ n.log2 := Nat.pow_dvd_pow 2 (Nat.sub_le _ _)
    obtain ⟨q, split⟩ := multiple
    have near := dist_divNearest_le n (spacing_pos n) q
    rw [Nat.mul_comm q, ← split] at near
    have low := Nat.log2_self_le zero
    unfold nearest
    unfold Nat.dist at near ⊢
    omega

/-- Rounding a whole number gives the nearest one of binary64, and the even one of two that are
equally near. -/
theorem roundsTo_nearest (n : Nat) : RoundsTo n (nearest n) where
  isWhole := isWhole_nearest n
  nearest g whole := by
    rcases dvd_or_dist_lt whole n with ⟨q, rfl⟩ | far
    · rw [Nat.mul_comm]
      exact dist_divNearest_le n (spacing_pos n) q
    · exact far.le
  even g whole other same k low high := by
    have positive : n ≠ 0 := (Nat.two_pow_pos _).trans_le low |>.ne'
    have length : n.log2 = 52 + k :=
      (Nat.log2_eq_iff positive).mpr ⟨low, by rwa [Nat.add_right_comm]⟩
    have step : spacing n = 2 ^ k := by
      rw [spacing, length, Nat.add_sub_cancel_left]
      rfl
    rcases dvd_or_dist_lt whole n with ⟨q, rfl⟩ | far
    · rw [Nat.mul_comm] at other same
      have differs : q ≠ divNearest n (spacing n) := fun equal => other (by rw [equal]; rfl)
      have even := divNearest_even (spacing_pos n) differs same
      rw [nearest, step, Nat.pow_succ, Nat.mul_comm (2 ^ k)]
      rw [step] at even
      exact Nat.mul_dvd_mul_right (Nat.dvd_of_mod_eq_zero even) _
    · exact absurd same far.ne'

theorem nearest_le (small : n ≤ 2 ^ k) : nearest n ≤ 2 ^ k := by
  have near := (roundsTo_nearest n).nearest (2 ^ k) ⟨1, k, by decide, (Nat.one_mul _).symm⟩
  unfold Nat.dist at near
  omega

theorem nearest_eq_self_iff : nearest n = n ↔ IsWhole n :=
  ⟨fun same => same ▸ isWhole_nearest n, nearest_of_isWhole⟩

/-- There is just one number to which a number is rounded: two of them would be equally near and
both even, and so too far from each other. -/
theorem roundsTo_iff {r : Nat} : RoundsTo n r ↔ r = nearest n := by
  refine ⟨fun rounds => ?_, fun same => same ▸ roundsTo_nearest n⟩
  by_contra other
  have same : Nat.dist (nearest n) n = Nat.dist r n :=
    Nat.le_antisymm ((roundsTo_nearest n).nearest r rounds.isWhole)
      (rounds.nearest _ (isWhole_nearest n))
  have close : 2 * Nat.dist (nearest n) n ≤ spacing n :=
    two_mul_dist_divNearest_le n (spacing_pos n)
  by_cases short : n.log2 < 52
  · rw [spacing, Nat.sub_eq_zero_of_le short.le, show Nat.pow 2 0 = 1 from rfl] at close
    unfold Nat.dist at same close
    omega
  · obtain ⟨k, length⟩ : ∃ k, n.log2 = 52 + k := ⟨n.log2 - 52, by omega⟩
    have positive : n ≠ 0 := fun zero => short (by rw [zero]; decide)
    obtain ⟨low, high⟩ := (Nat.log2_eq_iff positive).mp length
    rw [Nat.add_right_comm] at high
    obtain ⟨a, left⟩ := rounds.even _ (isWhole_nearest n) (Ne.symm other) same k low high
    obtain ⟨b, right⟩ := (roundsTo_nearest n).even _ rounds.isWhole other same.symm k low high
    have apart : 2 ^ (k + 1) * a + 2 ^ (k + 1) ≤ 2 ^ (k + 1) * b ∨
        2 ^ (k + 1) * b + 2 ^ (k + 1) ≤ 2 ^ (k + 1) * a := by
      rw [← Nat.mul_add_one, ← Nat.mul_add_one]
      rcases Nat.lt_or_gt_of_ne (fun equal : a = b => other (by rw [left, right, equal])) with h | h
      · exact .inl (Nat.mul_le_mul_left _ h)
      · exact .inr (Nat.mul_le_mul_left _ h)
    have step : spacing n = 2 ^ k := by
      rw [spacing, length, Nat.add_sub_cancel_left]
      rfl
    have positive := Nat.two_pow_pos k
    rw [step] at close
    unfold Nat.dist at same close
    rw [← left, ← right, Nat.pow_succ] at apart
    omega

end Rounding

section Magnitudes

def ofWhole (n : Nat) : Magnitude := ⟨n * unitsOfOne⟩

/-- The number of units that make one is a power of two; which one makes no difference. -/
theorem exists_unitsOfOne_eq : ∃ k, unitsOfOne = 2 ^ k := by
  unfold unitsOfOne
  generalize 1074 = k
  exact ⟨k, rfl⟩

theorem unitsOfOne_pos : 0 < unitsOfOne := by
  obtain ⟨k, power⟩ := exists_unitsOfOne_eq
  rw [power]
  exact Nat.two_pow_pos k

def beyond : Nat := Nat.pow 2 1024

theorem limit_eq : limit = beyond * unitsOfOne := by
  have sum : 2098 = 1024 + 1074 := by decide
  delta limit beyond unitsOfOne
  rw [sum]
  generalize 1074 = b
  generalize 1024 = a
  exact Nat.pow_add 2 a b

/-- The nearest magnitude to a whole number is that of the rounded number. -/
theorem ofRatio?_one (n : Nat) :
    ofRatio? n 1 = if nearest n < beyond then some (ofWhole (nearest n)) else none := by
  obtain ⟨k, power⟩ := exists_unitsOfOne_eq
  have shifted := nearest_mul_two_pow n k
  rw [← power] at shifted
  have rounded : divNearest (n * unitsOfOne) (1 * spacing (n * unitsOfOne / 1)) *
      spacing (n * unitsOfOne / 1) = nearest n * unitsOfOne := by
    rw [Nat.div_one, Nat.one_mul]
    exact shifted
  simp only [ofRatio?, rounded, limit_eq, Nat.mul_lt_mul_right unitsOfOne_pos, ofWhole]

/-- A product with a whole number is rounded as that of whole numbers is. -/
theorem scale?_ofWhole (n f : Nat) : (ofWhole n).scale? f = ofRatio? (n * f) 1 := by
  have order : n * unitsOfOne * f * unitsOfOne = n * f * unitsOfOne * unitsOfOne := by
    rw [Nat.mul_right_comm n]
  simp only [scale?, ofWhole, ofRatio?, order, Nat.mul_div_cancel _ unitsOfOne_pos, Nat.div_one,
    Nat.one_mul, Nat.mul_comm unitsOfOne, divNearest_mul unitsOfOne_pos]

theorem round_ofWhole (n : Nat) : (ofWhole n).round = n := by
  have positive := unitsOfOne_pos
  have halves : 2 * (n * unitsOfOne) + unitsOfOne = unitsOfOne + n * (2 * unitsOfOne) := by
    rw [Nat.mul_left_comm n, Nat.add_comm]
  rw [round, ofWhole, halves, Nat.add_mul_div_right _ _ (by omega), Nat.div_eq_of_lt (by omega),
    Nat.zero_add]

theorem two_pow_le_beyond : 2 ^ 64 ≤ beyond := by
  unfold beyond
  have longer : 64 ≤ 1024 := by decide
  generalize 1024 = k at longer
  exact Nat.pow_le_pow_right Nat.zero_lt_two longer

/-- The magnitude nearest to a whole number in decimal digits is that of the rounded number; what is
too large is beyond 64 bits at any rate. -/
theorem ofDecimal?_zero (n : Nat) :
    ofDecimal? n 0 = some (ofWhole (nearest n)) ∨
      ofDecimal? n 0 = none ∧ 2 ^ 64 ≤ nearest n := by
  by_cases zero : n = 0
  · subst zero
    refine .inl ?_
    have rounded : nearest 0 = 0 := nearest_of_isWhole (isWhole_of_le (Nat.zero_le _))
    rw [rounded, ofDecimal?, if_pos (.inl rfl), ofWhole, Nat.zero_mul]
  · have digits : ¬(n = 0 ∨ ((Nat.toDigits 10 n).length : Int) + 0 < -330) := by omega
    by_cases long : 310 < ((Nat.toDigits 10 n).length : Int) + 0
    · refine .inr ⟨by rw [ofDecimal?, if_neg digits, if_pos long], le_nearest ?_⟩
      by_contra small
      have short := (Nat.length_toDigits_le_iff (b := 10) (k := 20) (by decide) (by decide)).mpr
        ((Nat.lt_of_not_le small).trans (by decide))
      omega
    · have found : ofDecimal? n 0 = ofRatio? n 1 := by
        rw [ofDecimal?, if_neg digits, if_neg long, if_pos (Int.le_refl 0)]
        exact congrArg (ofRatio? · 1) (Nat.mul_one n)
      rw [found, ofRatio?_one]
      split_ifs with inside
      · exact .inl rfl
      · exact .inr ⟨rfl, two_pow_le_beyond.trans (Nat.le_of_not_lt inside)⟩

end Magnitudes

end Magnitude

end Stencil
