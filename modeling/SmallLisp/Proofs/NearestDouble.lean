import Mathlib.Algebra.Order.Field.Basic
import Mathlib.Algebra.Order.Field.Power
import Mathlib.Algebra.Order.Ring.Rat
import Mathlib.Data.Nat.Cast.Order.Field
import Mathlib.Tactic.Linarith
import Mathlib.Tactic.Positivity
import Mathlib.Tactic.Ring
import SmallLisp.Proofs.Rounding

/-!
# The nearest double is nearest

Rounding is defined on natural numbers, and nothing in its definition says what it is for.  Here it
is compared with the values themselves, as rational numbers: no finite double is nearer to the
number that was rounded, of two equally near ones it is the one whose last bit is zero, and it is
infinite exactly from halfway beyond the greatest finite double (`Binary64.IsNearest`).

* A quotient is rounded to a whole number (`RoundsTo`).
* A number that is shifted so that 53 bits are in front of the point (`Shifted`) is rounded on a
  grid of step `2 ^ shift`.  The values of doubles are on that grid, except some that are less than
  `2 ^ 52` steps, and `2 ^ 52` steps is a point of the grid between those and the number
  (`Binary64.exists_units_eq_mul_or_lt`).  So the nearest point of the grid is the nearest value
  (`Binary64.NearestCode`).
* A decimal that is told from its digits alone is beyond the range or below half the smallest
  double, as `Decimal.nearestMagnitude` has it.
* The sign is put in front at the end: a double of the other sign is never nearer than zero.

Magnitudes are counted in units of `2 ^ (-1074)` up to the last step.
-/

namespace SmallLisp

/-! ## Whole numbers -/

/-- From a number to two whole ones it is one step at least. -/
theorem one_le_abs_sub_add_abs_sub (a : ℚ) {k m : ℕ} (hk : k ≠ m) :
    1 ≤ |a - m| + |a - k| := by
  have hne : (m : ℤ) - k ≠ 0 := by omega
  calc (1 : ℚ) ≤ |(m : ℚ) - k| := by exact_mod_cast Int.one_le_abs hne
    _ ≤ |(m : ℚ) - a| + |a - k| := abs_sub_le _ _ _
    _ = |a - m| + |a - k| := by rw [abs_sub_comm a m]

/-- A number is rounded to a whole one, halfway between two of them to the even one. -/
structure RoundsTo (a : ℚ) (m : ℕ) : Prop where
  near : |a - m| ≤ 1 / 2
  even_of_half : |a - m| = 1 / 2 → Even m

namespace RoundsTo

variable {a : ℚ} {k m : ℕ}

/-- No whole number is nearer. -/
theorem abs_sub_le_abs_sub (h : RoundsTo a m) (k : ℕ) : |a - m| ≤ |a - k| := by
  by_cases hk : k = m
  · rw [hk]
  · linarith [h.near, one_le_abs_sub_add_abs_sub a hk]

/-- If another whole number is as near, the number is halfway between the two. -/
theorem even_of_abs_sub_eq (h : RoundsTo a m) (hk : k ≠ m) (heq : |a - m| = |a - k|) : Even m := by
  apply h.even_of_half
  linarith [h.near, one_le_abs_sub_add_abs_sub a hk]

theorem le_of_le (h : RoundsTo a m) (hk : (k : ℚ) ≤ a) : k ≤ m := by
  by_contra hlt
  have hm : (m : ℚ) + 1 ≤ k := by exact_mod_cast Nat.lt_of_not_le hlt
  linarith [le_of_abs_le h.near]

theorem le_of_lt (h : RoundsTo a m) (hk : a < k) : m ≤ k := by
  by_contra hlt
  have hm : (k : ℚ) + 1 ≤ m := by exact_mod_cast Nat.lt_of_not_le hlt
  linarith [neg_le_of_abs_le h.near]

/-- An even number is reached from halfway. -/
theorem lt_iff_of_even (h : RoundsTo a m) (hk : Even k) : m < k ↔ a < k - 1 / 2 := by
  constructor
  · intro hlt
    have hm : (m : ℚ) + 1 ≤ k := by exact_mod_cast hlt
    have hle := le_of_abs_le h.near
    refine lt_of_le_of_ne (by linarith) fun heq => ?_
    have hhalf : a - m = 1 / 2 := by linarith
    have hsucc : m + 1 = k := by
      have hcast : (m : ℚ) + 1 = k := by linarith
      exact_mod_cast hcast
    have heven : Even m := h.even_of_half (by rw [hhalf, abs_of_pos (by norm_num)])
    rw [← hsucc, Nat.even_add_one] at hk
    exact hk heven
  · intro hlt
    by_contra hle
    have hm : (k : ℚ) ≤ m := by exact_mod_cast Nat.le_of_not_lt hle
    linarith [neg_le_of_abs_le h.near]

end RoundsTo

theorem roundsTo_of_lt {a : ℚ} {m : ℕ} (h : |a - m| < 1 / 2) : RoundsTo a m :=
  ⟨h.le, fun heq => absurd heq h.ne⟩

/-- Quotients are rounded. -/
theorem roundsTo_roundQuotient (num : ℕ) {den : ℕ} (hden : 0 < den) :
    RoundsTo (num / den) (roundQuotient num den) := by
  have hden' : (0 : ℚ) < den := by exact_mod_cast hden
  have hnum : (num : ℚ) = den * (num / den : ℕ) + (num % den : ℕ) := by
    exact_mod_cast (Nat.div_add_mod num den).symm
  have hquotient : (num : ℚ) / den = (num / den : ℕ) + (num % den : ℕ) / den := by
    rw [hnum, add_div, mul_div_cancel_left₀ _ hden'.ne']
  have hrest : (0 : ℚ) ≤ (num % den : ℕ) / den := by positivity
  have hone : ((num % den : ℕ) : ℚ) / den < 1 := by
    rw [div_lt_one hden']
    exact_mod_cast Nat.mod_lt num hden
  -- The tests are made in whole numbers; these are the same tests of the part behind the point.
  have hless : 2 * (num % den) < den ↔ ((num % den : ℕ) : ℚ) / den < 1 / 2 := by
    rw [div_lt_div_iff₀ hden' two_pos, one_mul, mul_comm]
    norm_cast
  have hgreater : den < 2 * (num % den) ↔ 1 / 2 < ((num % den : ℕ) : ℚ) / den := by
    rw [div_lt_div_iff₀ two_pos hden', one_mul, mul_comm]
    norm_cast
  rw [hquotient, roundQuotient]
  simp only [hless, hgreater]
  generalize num / den = whole
  generalize ((num % den : ℕ) : ℚ) / den = part at hrest hone
  split
  · next hless =>
    apply roundsTo_of_lt
    rwa [add_sub_cancel_left, abs_of_nonneg hrest]
  · next hless =>
    split
    · next hgreater =>
      apply roundsTo_of_lt
      rw [Nat.cast_succ, add_sub_add_left_eq_sub, abs_of_neg (by linarith)]
      linarith
    · next hgreater =>
      obtain rfl : part = 1 / 2 := le_antisymm (not_lt.1 hgreater) (not_lt.1 hless)
      rcases Nat.even_or_odd whole with heven | hodd
      · rw [Nat.even_iff.1 heven, Nat.add_zero]
        refine ⟨?_, fun _ => heven⟩
        rw [add_sub_cancel_left, abs_of_nonneg hrest]
      · rw [Nat.odd_iff.1 hodd]
        refine ⟨?_, fun _ => hodd.add_one⟩
        rw [Nat.cast_succ, add_sub_add_left_eq_sub, abs_of_neg (by norm_num)]
        norm_num

/-! ## Fifty-three bits -/

/-- How far a number is shifted so that 53 bits of it are before the point, or all of them if
there are fewer. -/
structure Shifted (a : ℚ) (shift : ℕ) : Prop where
  lt : a < 2 ^ (53 + shift)
  eq_zero_or_le : shift = 0 ∨ 2 ^ (52 + shift) ≤ a

theorem shifted_log2 (num : ℕ) {den : ℕ} (hden : 0 < den) :
    Shifted (num / den) (Nat.log2 (num / den) - 52) := by
  have hden' : (0 : ℚ) < den := by exact_mod_cast hden
  have hfloor : ((num / den : ℕ) : ℚ) ≤ num / den := by
    rw [le_div_iff₀ hden']
    exact_mod_cast Nat.div_mul_le_self num den
  have hlt : (num : ℚ) / den < ((num / den + 1 : ℕ) : ℚ) := by
    rw [div_lt_iff₀ hden']
    exact_mod_cast Nat.lt_mul_of_div_lt (Nat.lt_succ_self _) hden
  generalize num / den = whole at hfloor hlt
  have hupper : whole + 1 ≤ 2 ^ (53 + (Nat.log2 whole - 52)) := by
    have hlog : whole < 2 ^ (Nat.log2 whole + 1) := Nat.lt_log2_self
    exact hlog.trans_le (Nat.pow_le_pow_right (by decide) (by omega))
  constructor
  · refine hlt.trans_le ?_
    exact_mod_cast hupper
  -- Numbers of 53 bits are not shifted; a longer one is at least the power of two that its length
  -- gives.
  · by_cases hlog : Nat.log2 whole ≤ 52
    · exact .inl (Nat.sub_eq_zero_of_le hlog)
    · refine .inr (le_trans ?_ hfloor)
      have hne : whole ≠ 0 := by
        rintro rfl
        exact hlog (by decide)
      have hlower : 2 ^ (52 + (Nat.log2 whole - 52)) ≤ whole := by
        rw [show 52 + (Nat.log2 whole - 52) = Nat.log2 whole by omega]
        exact Nat.log2_self_le hne
      exact_mod_cast hlower

/-! ## Codes -/

namespace Binary64

/-- The code of a value of 53 bits.  The carry into a 54th bit needs no case of its own. -/
theorem units_mul {shift m : ℕ} (hlow : shift = 0 ∨ 2 ^ 52 ≤ m) (hm : m ≤ 2 ^ 53) :
    units (shift * 2 ^ 52 + m) = m * 2 ^ shift := by
  rw [units_eq]
  rcases Nat.lt_or_ge m (2 ^ 52) with hsmall | hlarge
  · obtain rfl : shift = 0 := hlow.resolve_right (Nat.not_le_of_lt hsmall)
    rw [Nat.zero_mul, Nat.zero_add, if_pos hsmall, Nat.pow_zero, Nat.mul_one]
  · rw [if_neg (by omega)]
    rcases Nat.lt_or_eq_of_le hm with hlt | rfl
    · have hmod : (shift * 2 ^ 52 + m) % 2 ^ 52 = m - 2 ^ 52 := by omega
      have hdiv : (shift * 2 ^ 52 + m) / 2 ^ 52 - 1 = shift := by omega
      rw [hmod, hdiv, Nat.add_sub_cancel' hlarge]
    · have hmod : (shift * 2 ^ 52 + 2 ^ 53) % 2 ^ 52 = 0 := by omega
      have hdiv : (shift * 2 ^ 52 + 2 ^ 53) / 2 ^ 52 - 1 = shift + 1 := by omega
      rw [hmod, hdiv, Nat.pow_succ]
      omega

/-- The values are multiples of `2 ^ shift`, up to those that are too small for it to matter. -/
theorem exists_units_eq_mul_or_lt (shift code : ℕ) :
    (∃ k, units code = k * 2 ^ shift) ∨ shift ≠ 0 ∧ units code < 2 ^ (52 + shift) := by
  by_cases hexponent : shift ≤ code / 2 ^ 52 - 1
  · left
    rw [units_eq]
    split
    · next hsmall =>
      obtain rfl : shift = 0 := by omega
      exact ⟨code, by rw [Nat.pow_zero, Nat.mul_one]⟩
    · refine ⟨(2 ^ 52 + code % 2 ^ 52) * 2 ^ (code / 2 ^ 52 - 1 - shift), ?_⟩
      rw [Nat.mul_assoc, ← Nat.pow_add, Nat.sub_add_cancel hexponent]
  · refine .inr ⟨by omega, (units_lt (n := shift - 1) (by omega)).trans_le ?_⟩
    exact Nat.pow_le_pow_right (by decide) (by omega)

/-! ## The nearest code -/

/-- The magnitude code nearest to `a` units: the code of the infinities from halfway between the
greatest double and the power of two above it; up to there no value is nearer, and if another one is
as near, the code is even. -/
structure NearestCode (a : ℚ) (code : ℕ) : Prop where
  le_infinityCode : code ≤ infinityCode
  eq_infinityCode_iff : code = infinityCode ↔ 2 ^ 2098 - 2 ^ 2044 ≤ a
  near : code ≠ infinityCode → ∀ other, |a - units code| ≤ |a - units other|
  even_of_eq : code ≠ infinityCode → ∀ other, |a - units code| = |a - units other| →
    units other ≠ units code → Even code

section

variable {a : ℚ} {shift m : ℕ} (hs : Shifted a shift) (hm : RoundsTo (a / 2 ^ shift) m)

include hs hm

theorem le_of_roundsTo : m ≤ 2 ^ 53 := by
  apply hm.le_of_lt
  rw [div_lt_iff₀ (by positivity)]
  have hlt := hs.lt
  rw [pow_add] at hlt
  exact_mod_cast hlt

theorem eq_zero_or_le_of_roundsTo : shift = 0 ∨ 2 ^ 52 ≤ m := by
  refine hs.eq_zero_or_le.imp_right fun hle => ?_
  apply hm.le_of_le
  rw [le_div_iff₀ (by positivity)]
  rw [pow_add] at hle
  exact_mod_cast hle

theorem units_of_roundsTo : units (shift * 2 ^ 52 + m) = m * 2 ^ shift :=
  units_mul (eq_zero_or_le_of_roundsTo hs hm) (le_of_roundsTo hs hm)

omit hs hm in
theorem abs_sub_mul_two_pow (a : ℚ) (k shift : ℕ) :
    |a - (k * 2 ^ shift : ℕ)| = |a / 2 ^ shift - k| * 2 ^ shift := by
  have hpow : (0 : ℚ) < 2 ^ shift := by positivity
  have hscaled : a - (k * 2 ^ shift : ℕ) = (a / 2 ^ shift - k) * 2 ^ shift := by
    rw [sub_mul, div_mul_cancel₀ _ hpow.ne']
    push_cast
    rfl
  rw [hscaled, abs_mul, abs_of_pos hpow]

/-- No value is nearer than the rounded one. -/
theorem abs_sub_units_le (other : ℕ) :
    |a - units (shift * 2 ^ 52 + m)| ≤ |a - units other| ∧
      (|a - units (shift * 2 ^ 52 + m)| = |a - units other| →
        units other ≠ units (shift * 2 ^ 52 + m) → Even m) := by
  have hpow : (0 : ℚ) < 2 ^ shift := by positivity
  rw [units_of_roundsTo hs hm]
  rcases exists_units_eq_mul_or_lt shift other with ⟨k, hk⟩ | ⟨hshift, hlt⟩
  · rw [hk, abs_sub_mul_two_pow, abs_sub_mul_two_pow]
    refine ⟨mul_le_mul_of_nonneg_right (hm.abs_sub_le_abs_sub k) hpow.le, ?_⟩
    intro heq hne
    apply hm.even_of_abs_sub_eq (k := k)
    · rintro rfl
      exact hne rfl
    · exact mul_right_cancel₀ hpow.ne' heq
  · -- The values too small for the grid are beyond a point of the grid.
    have hpoint : ((2 ^ 52 * 2 ^ shift : ℕ) : ℚ) ≤ a := by
      have hle := hs.eq_zero_or_le.resolve_left hshift
      rw [pow_add] at hle
      exact_mod_cast hle
    have hother : (units other : ℚ) < (2 ^ 52 * 2 ^ shift : ℕ) := by
      rw [Nat.pow_add] at hlt
      exact_mod_cast hlt
    have hstrict : |a - (m * 2 ^ shift : ℕ)| < |a - units other| := by
      calc |a - (m * 2 ^ shift : ℕ)|
          ≤ |a - (2 ^ 52 * 2 ^ shift : ℕ)| := by
            rw [abs_sub_mul_two_pow, abs_sub_mul_two_pow]
            exact mul_le_mul_of_nonneg_right (hm.abs_sub_le_abs_sub _) hpow.le
        _ = a - (2 ^ 52 * 2 ^ shift : ℕ) := abs_of_nonneg (by linarith)
        _ < a - units other := by linarith
        _ ≤ |a - units other| := le_abs_self _
    exact ⟨hstrict.le, fun heq => absurd heq hstrict.ne⟩

/-- Where the range ends. -/
theorem lt_infinityCode_iff :
    shift * 2 ^ 52 + m < infinityCode ↔ a < 2 ^ 2098 - 2 ^ 2044 := by
  have hcode : infinityCode = 2047 * 2 ^ 52 := rfl
  have hm53 := le_of_roundsTo hs hm
  have hpow : (0 : ℚ) < 2 ^ 2044 := by positivity
  have htop : (2 : ℚ) ^ 2098 = 2 ^ 54 * 2 ^ 2044 := by rw [← pow_add]
  -- Only at this one shift do the codes below and above the end of the range meet, and the middle
  -- between the two is the threshold.
  rcases Nat.lt_trichotomy shift 2045 with hless | rfl | hgreater
  · refine iff_of_true (by omega) (hs.lt.trans_le ?_)
    calc (2 : ℚ) ^ (53 + shift)
        ≤ 2 ^ (53 + 2044) := pow_le_pow_right₀ (by norm_num) (by omega)
      _ = 2 ^ 53 * 2 ^ 2044 := by rw [pow_add]
      _ ≤ 2 ^ 2098 - 2 ^ 2044 := by
        rw [htop]
        generalize (2 : ℚ) ^ 2044 = half at hpow
        linarith
  · have hhalfway : ((2 ^ 53 : ℕ) - 1 / 2 : ℚ) * 2 ^ 2045 = 2 ^ 2098 - 2 ^ 2044 := by
      rw [htop, pow_succ 2 2044]
      generalize (2 : ℚ) ^ 2044 = half
      push_cast
      ring
    rw [← hhalfway, ← div_lt_iff₀ (by positivity), ← hm.lt_iff_of_even (by decide)]
    omega
  · have hm52 := (eq_zero_or_le_of_roundsTo hs hm).resolve_left (by omega)
    have hle := hs.eq_zero_or_le.resolve_left (by omega)
    refine iff_of_false (by omega) (not_lt.2 ?_)
    calc (2 : ℚ) ^ 2098 - 2 ^ 2044
        ≤ 2 ^ 2098 := sub_le_self _ hpow.le
      _ ≤ 2 ^ (52 + shift) := pow_le_pow_right₀ (by norm_num) (by omega)
      _ ≤ a := hle

/-- Rounding finds the nearest code. -/
theorem nearestCode_of_roundsTo : NearestCode a (min infinityCode (shift * 2 ^ 52 + m)) := by
  have hrange := lt_infinityCode_iff hs hm
  rcases Nat.lt_or_ge (shift * 2 ^ 52 + m) infinityCode with hlt | hge
  · rw [min_eq_right hlt.le]
    refine ⟨hlt.le, iff_of_false hlt.ne (not_le.2 (hrange.1 hlt)), ?_, ?_⟩
    · exact fun _ other => (abs_sub_units_le hs hm other).1
    · intro _ other heq hne
      have heven := (abs_sub_units_le hs hm other).2 heq hne
      rw [Nat.even_iff] at heven ⊢
      omega
  · rw [min_eq_left hge]
    have hinfinite := not_lt.1 (mt hrange.2 (Nat.not_lt_of_le hge))
    exact ⟨le_rfl, iff_of_true rfl hinfinite, fun h => absurd rfl h, fun h => absurd rfl h⟩

end

/-- `nearestMagnitude` is the code nearest to a quotient. -/
theorem nearestCode_nearestMagnitude (num : ℕ) {den : ℕ} (hden : 0 < den) :
    NearestCode (num / den * 2 ^ 1074) (nearestMagnitude num den) := by
  have hscaled : (num : ℚ) / den * 2 ^ 1074 = (num * 2 ^ 1074 : ℕ) / den := by
    rw [Nat.cast_mul, Nat.cast_pow, Nat.cast_ofNat, div_mul_eq_mul_div]
  rw [nearestMagnitude_eq, hscaled]
  have hs := shifted_log2 (num * 2 ^ 1074) hden
  generalize Nat.log2 (num * 2 ^ 1074 / den) - 52 = shift at hs ⊢
  refine nearestCode_of_roundsTo hs ?_
  have hround := roundsTo_roundQuotient (num * 2 ^ 1074)
    (Nat.mul_pos hden (Nat.two_pow_pos shift))
  rwa [Nat.cast_mul den, ← div_div, Nat.cast_pow, Nat.cast_ofNat] at hround

theorem nearestCode_infinityCode {a : ℚ} (h : 2 ^ 2098 - 2 ^ 2044 ≤ a) :
    NearestCode a infinityCode :=
  ⟨le_rfl, iff_of_true rfl h, fun h => absurd rfl h, fun h => absurd rfl h⟩

theorem nearestCode_zero {a : ℚ} (hnonneg : 0 ≤ a) (h : a < 1 / 2) : NearestCode a 0 := by
  have hs : Shifted a 0 := ⟨h.trans (by norm_num), .inl rfl⟩
  have hm : RoundsTo (a / 2 ^ 0) 0 := by
    apply roundsTo_of_lt
    rwa [pow_zero, div_one, Nat.cast_zero, sub_zero, abs_of_nonneg hnonneg]
  exact nearestCode_of_roundsTo hs hm

end Binary64

/-! ## Decimals -/

namespace Decimal

/-- The value of a decimal. -/
def value (d : Decimal) : ℚ := d.coefficient * 10 ^ d.exponent

theorem value_nonneg (d : Decimal) : 0 ≤ d.value :=
  mul_nonneg (Nat.cast_nonneg _) (by positivity)

theorem value_eq_div (d : Decimal) :
    d.value = (d.coefficient * 10 ^ d.exponent.toNat : ℕ) / (10 ^ (-d.exponent).toNat : ℕ) := by
  have hexponent : d.exponent = (d.exponent.toNat : ℤ) - ((-d.exponent).toNat : ℤ) := by omega
  have hpow : (10 : ℚ) ^ d.exponent = 10 ^ d.exponent.toNat / 10 ^ (-d.exponent).toNat := by
    conv_lhs => rw [hexponent]
    rw [zpow_sub₀ (by norm_num), zpow_natCast, zpow_natCast]
  rw [value, hpow, mul_div_assoc']
  push_cast
  rfl

theorem lt_pow_length_toDigits (n : ℕ) : n < 10 ^ (Nat.toDigits 10 n).length :=
  (Nat.length_toDigits_le_iff (by decide) (List.length_pos_iff.2 Nat.toDigits_ne_nil)).1 le_rfl

theorem pow_length_toDigits_le {n : ℕ} (hn : n ≠ 0) :
    10 ^ ((Nat.toDigits 10 n).length - 1) ≤ n := by
  rcases Nat.eq_zero_or_pos ((Nat.toDigits 10 n).length - 1) with hone | hmore
  · rw [hone]
    exact Nat.pos_of_ne_zero hn
  · rw [← Nat.not_lt, ← Nat.length_toDigits_le_iff (by decide) hmore]
    omega

/-- The place of the first digit bounds the value. -/
theorem value_lt (d : Decimal) : d.value < 10 ^ d.lead := by
  have hcoefficient : (d.coefficient : ℚ) < 10 ^ (Nat.toDigits 10 d.coefficient).length := by
    exact_mod_cast lt_pow_length_toDigits d.coefficient
  rw [value, lead, zpow_add₀ (by norm_num), zpow_natCast]
  exact mul_lt_mul_of_pos_right hcoefficient (by positivity)

theorem le_value {d : Decimal} (hne : d.coefficient ≠ 0) : 10 ^ (d.lead - 1) ≤ d.value := by
  have hcoefficient : (10 : ℚ) ^ ((Nat.toDigits 10 d.coefficient).length - 1) ≤ d.coefficient := by
    exact_mod_cast pow_length_toDigits_le hne
  have hlead : d.lead - 1 =
      (((Nat.toDigits 10 d.coefficient).length - 1 : ℕ) : ℤ) + d.exponent := by
    have hpos : 0 < (Nat.toDigits 10 d.coefficient).length :=
      List.length_pos_iff.2 Nat.toDigits_ne_nil
    rw [lead]
    omega
  rw [value, hlead, zpow_add₀ (by norm_num), zpow_natCast]
  exact mul_le_mul_of_nonneg_right hcoefficient (by positivity)

/-- A decimal of more than 310 digits before the point is beyond the greatest double. -/
theorem le_value_of_lt_lead {d : Decimal} (hne : d.coefficient ≠ 0) (h : 310 < d.lead) :
    2 ^ 2098 ≤ d.value * 2 ^ 1074 := by
  have hpow : (2 : ℚ) ^ 1024 ≤ 10 ^ 310 := by
    have hnat : 2 ^ 1024 ≤ 10 ^ 310 := by decide +kernel
    exact_mod_cast hnat
  have hvalue : (10 : ℚ) ^ 310 ≤ d.value := by
    calc (10 : ℚ) ^ 310 = 10 ^ (310 : ℤ) := rfl
      _ ≤ 10 ^ (d.lead - 1) := zpow_le_zpow_right₀ (by norm_num) (by omega)
      _ ≤ d.value := le_value hne
  calc (2 : ℚ) ^ 2098 = 2 ^ 1024 * 2 ^ 1074 := by rw [← pow_add]
    _ ≤ d.value * 2 ^ 1074 := mul_le_mul_of_nonneg_right (hpow.trans hvalue) (by positivity)

/-- A decimal that starts more than 330 places behind the point is below half the smallest
double. -/
theorem value_lt_of_lead_lt {d : Decimal} (h : d.lead < -330) : d.value * 2 ^ 1074 < 1 / 2 := by
  have hpow : (2 : ℚ) ^ 1074 * 2 ≤ 10 ^ 331 := by
    have hnat : 2 ^ 1074 * 2 ≤ 10 ^ 331 := by decide +kernel
    exact_mod_cast hnat
  have hvalue : d.value < 1 / 10 ^ 331 := by
    calc d.value < 10 ^ d.lead := d.value_lt
      _ ≤ 10 ^ (-331 : ℤ) := zpow_le_zpow_right₀ (by norm_num) (by omega)
      _ = 1 / 10 ^ 331 := by rw [zpow_neg, one_div]; rfl
  calc d.value * 2 ^ 1074
      < 1 / 10 ^ 331 * 2 ^ 1074 := mul_lt_mul_of_pos_right hvalue (by positivity)
    _ ≤ 1 / 2 := by
      rw [div_mul_eq_mul_div, one_mul, div_le_div_iff₀ (by positivity) two_pos, one_mul]
      exact hpow

/-- The nearest code to a decimal. -/
theorem nearestCode_nearestMagnitude (d : Decimal) :
    Binary64.NearestCode (d.value * 2 ^ 1074) d.nearestMagnitude := by
  by_cases hzero : d.coefficient = 0
  · have hcode : d.nearestMagnitude = 0 := if_pos hzero
    have hvalue : d.value = 0 := by rw [value, hzero, Nat.cast_zero, zero_mul]
    rw [hcode, hvalue, zero_mul]
    exact Binary64.nearestCode_zero le_rfl (by norm_num)
  -- Beyond these powers of ten the value is decided without rounding, since the range ends long
  -- before.
  by_cases hhigh : d.lead ≤ 310
  · by_cases hlow : -330 ≤ d.lead
    · rw [nearestMagnitude_eq hzero hhigh hlow, value_eq_div]
      exact Binary64.nearestCode_nearestMagnitude _ (Nat.pow_pos (by decide))
    · have hcode : d.nearestMagnitude = 0 := by
        rw [nearestMagnitude, if_neg hzero, if_neg (by omega), if_pos (by omega)]
      rw [hcode]
      exact Binary64.nearestCode_zero (mul_nonneg d.value_nonneg (by positivity))
        (value_lt_of_lead_lt (by omega))
  · have hcode : d.nearestMagnitude = Binary64.infinityCode := by
      rw [nearestMagnitude, if_neg hzero, if_pos (by omega)]
    rw [hcode]
    exact Binary64.nearestCode_infinityCode
      ((sub_le_self _ (by positivity)).trans (le_value_of_lt_lead hzero (by omega)))

end Decimal
/-! ## Signs -/

/-- A number with a sign in front. -/
def signed (negative : Bool) (a : ℚ) : ℚ := if negative then -a else a

theorem abs_signed (negative : Bool) (a : ℚ) : |signed negative a| = |a| := by
  cases negative with
  | false => rfl
  | true => exact abs_neg a

theorem abs_signed_sub_signed (negative : Bool) (a b : ℚ) :
    |signed negative a - signed negative b| = |a - b| := by
  cases negative with
  | false => rfl
  | true =>
    change |-a - -b| = |a - b|
    rw [neg_sub_neg, abs_sub_comm]

theorem abs_signed_sub_signed_of_ne {negative other : Bool} (hne : negative ≠ other) {a b : ℚ}
    (ha : 0 ≤ a) (hb : 0 ≤ b) : |signed negative a - signed other b| = a + b := by
  cases negative with
  | false =>
    obtain rfl : other = true := by simpa using hne.symm
    change |a - -b| = a + b
    rw [sub_neg_eq_add, abs_of_nonneg (add_nonneg ha hb)]
  | true =>
    obtain rfl : other = false := by simpa using hne.symm
    change |-a - b| = a + b
    rw [← neg_add', abs_neg, abs_of_nonneg (add_nonneg ha hb)]

namespace Binary64

/-- The value of a magnitude code. -/
def codeValue (code : ℕ) : ℚ := units code / 2 ^ 1074

/-- The value of a finite double. -/
def value (x : Binary64) : ℚ := signed x.negative (codeValue x.magnitude)

/-- **The double nearest to `v`.**  It is infinite from halfway between the greatest finite double
and the power of two above it; up to there no finite double is nearer, and if another value is as
near, the last bit is zero. -/
structure IsNearest (x : Binary64) (v : ℚ) : Prop where
  isNaN_eq_false : x.isNaN = false
  isInfinite_iff : x.isInfinite = true ↔ 2 ^ 1024 - 2 ^ 970 ≤ |v|
  near : x.isFinite = true → ∀ y : Binary64, y.isFinite = true → |v - x.value| ≤ |v - y.value|
  even_of_eq : x.isFinite = true → ∀ y : Binary64, y.isFinite = true →
    |v - x.value| = |v - y.value| → y.value ≠ x.value → Even x.magnitude

theorem codeValue_nonneg (code : ℕ) : 0 ≤ codeValue code :=
  div_nonneg (Nat.cast_nonneg _) (pow_nonneg zero_le_two _)

@[simp] theorem codeValue_zero : codeValue 0 = 0 := by
  rw [codeValue, show units 0 = 0 from rfl, Nat.cast_zero, zero_div]

theorem abs_mul_sub_units (a : ℚ) (code : ℕ) :
    |a * 2 ^ 1074 - units code| = |a - codeValue code| * 2 ^ 1074 := by
  have hpow : (0 : ℚ) < 2 ^ 1074 := pow_pos two_pos _
  rw [← abs_of_pos hpow, ← abs_mul, sub_mul, abs_of_pos hpow, codeValue,
    div_mul_cancel₀ _ hpow.ne']

section

variable {a : ℚ} {code : ℕ} (h : NearestCode (a * 2 ^ 1074) code) (hcode : code ≠ infinityCode)

include h hcode

theorem NearestCode.abs_sub_codeValue_le (other : ℕ) :
    |a - codeValue code| ≤ |a - codeValue other| := by
  have hle := h.near hcode other
  rw [abs_mul_sub_units, abs_mul_sub_units] at hle
  exact le_of_mul_le_mul_right hle (pow_pos two_pos _)

theorem NearestCode.even_of_abs_sub_codeValue_eq (other : ℕ)
    (heq : |a - codeValue code| = |a - codeValue other|)
    (hne : codeValue other ≠ codeValue code) : Even code := by
  apply h.even_of_eq hcode other
  · rw [abs_mul_sub_units, abs_mul_sub_units, heq]
  · intro hunits
    exact hne (by rw [codeValue, codeValue, hunits])

end

/-- Where the range ends, in units and in the numbers themselves. -/
theorem threshold_le_iff (a : ℚ) :
    (2 ^ 2098 - 2 ^ 2044 ≤ a * 2 ^ 1074) ↔ 2 ^ 1024 - 2 ^ 970 ≤ a := by
  have hunits : (2 : ℚ) ^ 2098 - 2 ^ 2044 = (2 ^ 1024 - 2 ^ 970) * 2 ^ 1074 := by
    rw [sub_mul, ← pow_add, ← pow_add]
  rw [hunits, mul_le_mul_iff_left₀ (pow_pos two_pos _)]

/-- The nearest code with a sign is the nearest double.  A double of the other sign is as far as
zero at least. -/
theorem isNearest_of_nearestCode {x : Binary64} {a : ℚ} (ha : 0 ≤ a)
    (h : NearestCode (a * 2 ^ 1074) x.magnitude) : x.IsNearest (signed x.negative a) := by
  have hfinite : x.isFinite = true → x.magnitude ≠ infinityCode :=
    fun hx => Nat.ne_of_lt (of_decide_eq_true hx)
  have hsame : |signed x.negative a - x.value| = |a - codeValue x.magnitude| :=
    abs_signed_sub_signed _ _ _
  refine ⟨decide_eq_false (Nat.not_lt_of_le h.le_infinityCode), ?_, ?_, ?_⟩
  · rw [abs_signed, abs_of_nonneg ha, isInfinite, beq_iff_eq, h.eq_infinityCode_iff,
      threshold_le_iff]
  · intro hx y _
    have hle := h.abs_sub_codeValue_le (hfinite hx)
    rw [hsame]
    by_cases hsign : x.negative = y.negative
    · rw [value, ← hsign, abs_signed_sub_signed]
      exact hle y.magnitude
    -- A double of the other sign is on the far side of zero, and zero is no nearer than the code.
    · have hzero := hle 0
      rw [codeValue_zero, sub_zero, abs_of_nonneg ha] at hzero
      rw [value, abs_signed_sub_signed_of_ne hsign ha (codeValue_nonneg _)]
      linarith [codeValue_nonneg y.magnitude]
  · intro hx y _ heq hne
    rw [hsame] at heq
    by_cases hsign : x.negative = y.negative
    · rw [value, ← hsign, abs_signed_sub_signed] at heq
      apply h.even_of_abs_sub_codeValue_eq (hfinite hx) y.magnitude heq
      intro hcodes
      exact hne (by rw [value, value, hsign, hcodes])
    · have hzero := h.abs_sub_codeValue_le (hfinite hx) 0
      rw [value, abs_signed_sub_signed_of_ne hsign ha (codeValue_nonneg _)] at heq
      rw [codeValue_zero, sub_zero, abs_of_nonneg ha] at hzero
      have hy : codeValue y.magnitude = 0 := by linarith [codeValue_nonneg y.magnitude]
      rw [hy, add_zero] at heq
      apply h.even_of_abs_sub_codeValue_eq (hfinite hx) 0
      · rw [heq, codeValue_zero, sub_zero, abs_of_nonneg ha]
      · intro hcodes
        apply hne
        rw [value, value, hy, ← hcodes, codeValue_zero]
        simp [signed]

end Binary64

/-- **The double read for a decimal is the nearest one.** -/
theorem Decimal.isNearest_toBinary64 (negative : Bool) (d : Decimal) :
    (d.toBinary64 negative).IsNearest (signed negative d.value) :=
  Binary64.isNearest_of_nearestCode d.value_nonneg d.nearestCode_nearestMagnitude

end SmallLisp
