import Mathlib.Algebra.Group.Nat.Defs
import SmallLisp.Number.Shortest

/-!
# Rounding to the nearest double

The nearest double depends on a quotient and not on how it is written, and a quotient that is the
value of a double is rounded to that double.  These two facts carry everything that reading and
writing reals rests on: a decimal may be given more digits without being read differently, and
the shortest decimal of a double reads back as the double.

The digits come in where a decimal is so large or so small that it is told from its digits alone.
Their number changes by one for each power of ten, which is what keeps the place of the first
digit where it is.
-/

namespace SmallLisp

/-- The definitions take powers with `Nat.pow`, which does not depend on the algebra around it. -/
theorem natPow_eq (m n : Nat) : Nat.pow m n = m ^ n := rfl

/-! ## Rounding a quotient -/

theorem roundQuotient_mul_right (num den : Nat) {k : Nat} (hk : 0 < k) :
    roundQuotient (num * k) (den * k) = roundQuotient num den := by
  have hless : 2 * (num % den * k) < den * k ↔ 2 * (num % den) < den := by
    rw [← Nat.mul_assoc, Nat.mul_lt_mul_right hk]
  have hgreater : den * k < 2 * (num % den * k) ↔ den < 2 * (num % den) := by
    rw [← Nat.mul_assoc, Nat.mul_lt_mul_right hk]
  simp only [roundQuotient, Nat.mul_div_mul_right _ _ hk, Nat.mul_mod_mul_right, hless, hgreater]

/-- A whole number is not changed. -/
theorem roundQuotient_mul_self (n : Nat) {den : Nat} (hden : 0 < den) :
    roundQuotient (n * den) den = n := by
  simp [roundQuotient, Nat.mul_div_cancel n hden, hden]

namespace Binary64

theorem units_eq (code : Nat) :
    units code =
      if code < 2 ^ 52 then code else (2 ^ 52 + code % 2 ^ 52) * 2 ^ (code / 2 ^ 52 - 1) := by
  simp only [units, natPow_eq]

theorem nearestMagnitude_eq (num den : Nat) :
    nearestMagnitude num den =
      min infinityCode ((Nat.log2 (num * 2 ^ 1074 / den) - 52) * 2 ^ 52 +
        roundQuotient (num * 2 ^ 1074) (den * 2 ^ (Nat.log2 (num * 2 ^ 1074 / den) - 52))) := by
  simp only [nearestMagnitude, natPow_eq]

theorem nearestMagnitude_mul_right (num den : Nat) {k : Nat} (hk : 0 < k) :
    nearestMagnitude (num * k) (den * k) = nearestMagnitude num den := by
  have hscaled : num * k * 2 ^ 1074 = num * 2 ^ 1074 * k := Nat.mul_right_comm _ _ _
  simp only [nearestMagnitude_eq, hscaled, Nat.mul_div_mul_right _ _ hk]
  rw [Nat.mul_right_comm den k, roundQuotient_mul_right _ _ hk]

/-- Equal quotients have the same nearest double. -/
theorem nearestMagnitude_congr {num den num' den' : Nat} (hden : 0 < den) (hden' : 0 < den')
    (h : num * den' = num' * den) : nearestMagnitude num den = nearestMagnitude num' den' := by
  calc nearestMagnitude num den
      = nearestMagnitude (num * den') (den * den') := (nearestMagnitude_mul_right _ _ hden').symm
    _ = nearestMagnitude (num' * den) (den' * den) := by rw [h, Nat.mul_comm den]
    _ = nearestMagnitude num' den' := nearestMagnitude_mul_right _ _ hden

/-- The exponent of a value of 53 bits. -/
theorem log2_units {fraction : Nat} (hfraction : fraction < 2 ^ 52) (shift : Nat) :
    Nat.log2 ((2 ^ 52 + fraction) * 2 ^ shift) = 52 + shift := by
  have hpos : 0 < 2 ^ shift := Nat.two_pow_pos shift
  have hne : (2 ^ 52 + fraction) * 2 ^ shift ≠ 0 := by
    have := Nat.mul_pos (show 0 < 2 ^ 52 + fraction by omega) hpos
    omega
  rw [Nat.log2_eq_iff hne]
  constructor
  · rw [Nat.pow_add]
    exact Nat.mul_le_mul_right _ (Nat.le_add_right _ _)
  · rw [show 52 + shift + 1 = 53 + shift by omega, Nat.pow_add]
    exact Nat.mul_lt_mul_of_pos_right (by omega) hpos

/-- The value of a finite double is rounded to that double. -/
theorem nearestMagnitude_eq_of_units {num den code : Nat} (hden : 0 < den)
    (hcode : code < infinityCode) (h : num * 2 ^ 1074 = units code * den) :
    nearestMagnitude num den = code := by
  rw [nearestMagnitude_eq]
  generalize num * 2 ^ 1074 = scaled at h
  have hvalue : scaled / den = units code := by rw [h, Nat.mul_div_cancel _ hden]
  rw [hvalue, h]
  by_cases hsmall : code < 2 ^ 52
  · have hunits : units code = code := if_pos hsmall
    have hshift : Nat.log2 code - 52 = 0 := by
      by_cases hzero : code = 0
      · rw [hzero]
        rfl
      · have hlog := (Nat.log2_lt hzero).2 hsmall
        omega
    rw [hunits, hshift, Nat.pow_zero, Nat.mul_one, roundQuotient_mul_self _ hden, Nat.zero_mul,
      Nat.zero_add]
    exact Nat.min_eq_right (Nat.le_of_lt hcode)
  · have hunits : units code = (2 ^ 52 + code % 2 ^ 52) * 2 ^ (code / 2 ^ 52 - 1) := if_neg hsmall
    have hfraction : code % 2 ^ 52 < 2 ^ 52 := Nat.mod_lt _ (Nat.two_pow_pos 52)
    have hshift : Nat.log2 (units code) - 52 = code / 2 ^ 52 - 1 := by
      rw [hunits, log2_units hfraction, Nat.add_sub_cancel_left]
    have hround : roundQuotient (units code * den) (den * 2 ^ (code / 2 ^ 52 - 1)) =
        2 ^ 52 + code % 2 ^ 52 := by
      rw [hunits, Nat.mul_assoc, Nat.mul_comm den]
      exact roundQuotient_mul_self _ (Nat.mul_pos (Nat.two_pow_pos _) hden)
    have hcode' : (code / 2 ^ 52 - 1) * 2 ^ 52 + (2 ^ 52 + code % 2 ^ 52) = code := by omega
    rw [hshift, hround, hcode']
    exact Nat.min_eq_right (Nat.le_of_lt hcode)

/-- The exponent of a code bounds its value. -/
theorem units_lt {code n : Nat} (h : code / 2 ^ 52 - 1 ≤ n) : units code < 2 ^ (53 + n) := by
  rw [units_eq]
  split
  · next hsmall =>
    exact Nat.lt_of_lt_of_le hsmall (Nat.pow_le_pow_right (by decide) (by omega))
  · have hfraction : 2 ^ 52 + code % 2 ^ 52 < 2 ^ 53 := by omega
    calc (2 ^ 52 + code % 2 ^ 52) * 2 ^ (code / 2 ^ 52 - 1)
        < 2 ^ 53 * 2 ^ (code / 2 ^ 52 - 1) :=
          Nat.mul_lt_mul_of_pos_right hfraction (Nat.two_pow_pos _)
      _ ≤ 2 ^ 53 * 2 ^ n := Nat.mul_le_mul_left _ (Nat.pow_le_pow_right (by decide) h)
      _ = 2 ^ (53 + n) := by rw [← Nat.pow_add]

theorem units_pos {code : Nat} (hcode : 0 < code) : 0 < units code := by
  rw [units_eq]
  split
  · exact hcode
  · exact Nat.mul_pos (Nat.lt_of_lt_of_le (Nat.two_pow_pos 52) (Nat.le_add_right _ _))
      (Nat.two_pow_pos _)

end Binary64

/-! ## The double nearest to a decimal -/

theorem length_toDigits_mul_pow {n : Nat} (hn : 0 < n) (k : Nat) :
    (Nat.toDigits 10 (n * 10 ^ k)).length = (Nat.toDigits 10 n).length + k := by
  induction k with
  | zero => simp
  | succ k ih =>
    have hpos : 0 < n * 10 ^ k := Nat.mul_pos hn (Nat.pow_pos (by decide))
    have happend := Nat.toDigits_append_toDigits (b := 10) (d := 0) (by decide) hpos (by decide)
    rw [show n * 10 ^ (k + 1) = 10 * (n * 10 ^ k) + 0 by rw [Nat.pow_succ]; ac_rfl, ← happend,
      List.length_append, ih, Nat.toDigits_zero]
    rfl

namespace Decimal

/-- Within the range that is rounded at all, the nearest double is that of a quotient. -/
theorem nearestMagnitude_eq {d : Decimal} (hne : d.coefficient ≠ 0) (hhigh : d.lead ≤ 310)
    (hlow : -330 ≤ d.lead) :
    d.nearestMagnitude =
      Binary64.nearestMagnitude (d.coefficient * 10 ^ d.exponent.toNat)
        (10 ^ (-d.exponent).toNat) := by
  unfold nearestMagnitude
  rw [if_neg hne, if_neg (by omega), if_neg (by omega)]
  split
  · next e he => simp [he]
  · next e he => simp [he]

/-- Zeros behind the digits change nothing, if the exponent makes up for them. -/
theorem nearestMagnitude_mul_pow (coefficient : Nat) (exponent : Int) (k : Nat) :
    (Decimal.mk (coefficient * 10 ^ k) (exponent - k)).nearestMagnitude =
      (Decimal.mk coefficient exponent).nearestMagnitude := by
  by_cases hzero : coefficient = 0
  · simp [nearestMagnitude, hzero]
  · have hpow : 0 < 10 ^ k := Nat.pow_pos (by decide)
    have hpos : 0 < coefficient := Nat.pos_of_ne_zero hzero
    have hne : coefficient * 10 ^ k ≠ 0 := Nat.ne_of_gt (Nat.mul_pos hpos hpow)
    have hlead : (Decimal.mk (coefficient * 10 ^ k) (exponent - k)).lead =
        (Decimal.mk coefficient exponent).lead := by
      simp only [lead, length_toDigits_mul_pow hpos]
      omega
    -- The place of the first digit is the same, so the same case applies to both.
    by_cases hhigh : (Decimal.mk coefficient exponent).lead ≤ 310
    · by_cases hlow : -330 ≤ (Decimal.mk coefficient exponent).lead
      · rw [nearestMagnitude_eq hne (hlead ▸ hhigh) (hlead ▸ hlow),
          nearestMagnitude_eq hzero hhigh hlow]
        refine Binary64.nearestMagnitude_congr (Nat.pow_pos (by decide)) (Nat.pow_pos (by decide)) ?_
        simp only [Nat.mul_assoc, ← Nat.pow_add]
        congr 2
        omega
      · simp only [nearestMagnitude, hne, hzero, hlead, Int.not_lt.2 hhigh, Int.not_le.1 hlow,
          if_true, if_false]
    · simp only [nearestMagnitude, hne, hzero, hlead, Int.not_le.1 hhigh, if_true, if_false]

end Decimal

/-! ## The shortest decimal reads back -/

namespace Shortest

theorem exact_eq (code : Nat) : exact code = ⟨Binary64.units code * 5 ^ 1074, -1074⟩ := by
  simp only [exact, natPow_eq]

theorem nearestMagnitude_exact {code : Nat} (hpos : 0 < code)
    (hcode : code < Binary64.infinityCode) : (exact code).nearestMagnitude = code := by
  have hunits : 0 < Binary64.units code := Binary64.units_pos hpos
  have hpower : ∀ n, 0 < 5 ^ n := fun n => Nat.pow_pos (by decide)
  have hshift : code / 2 ^ 52 - 1 ≤ 2045 := by
    have hcode' : code < 2047 * 2 ^ 52 := hcode
    omega
  -- All digits together are few enough for the exponent to be within the range that is looked at.
  have hhigh : (Nat.toDigits 10 (Binary64.units code * 5 ^ 1074)).length ≤ 1384 := by
    rw [Nat.length_toDigits_le_iff (by decide) (by decide)]
    calc Binary64.units code * 5 ^ 1074
        < 2 ^ (53 + 2045) * 5 ^ 1074 :=
          Nat.mul_lt_mul_of_pos_right (Binary64.units_lt hshift) (hpower _)
      _ ≤ 10 ^ 1384 := by decide +kernel
  have hlow : ¬(Nat.toDigits 10 (Binary64.units code * 5 ^ 1074)).length ≤ 743 := by
    rw [Nat.length_toDigits_le_iff (by decide) (by decide), Nat.not_lt]
    calc 10 ^ 743 ≤ 5 ^ 1074 := by decide +kernel
      _ ≤ Binary64.units code * 5 ^ 1074 := Nat.le_mul_of_pos_left _ hunits
  rw [exact_eq, Decimal.nearestMagnitude_eq]
  · refine Binary64.nearestMagnitude_eq_of_units (Nat.pow_pos (by decide)) hcode ?_
    -- A unit is written with 1074 places, so `5 ^ 1074` units make a power of ten.
    have hten : ∀ n, 5 ^ n * 2 ^ n = 10 ^ n := fun n => (Nat.mul_pow 5 2 n).symm
    have hwhole : (-1074 : Int).toNat = 0 := by decide
    have hplaces : (-(-1074) : Int).toNat = 1074 := by decide
    rw [hwhole, hplaces, Nat.pow_zero, Nat.mul_one, Nat.mul_assoc, hten]
  · exact Nat.ne_of_gt (Nat.mul_pos hunits (hpower _))
  · simp only [Decimal.lead]
    omega
  · simp only [Decimal.lead]
    omega

theorem nearestMagnitude_of_onGrid? {code digits : Nat} {d : Decimal}
    (h : onGrid? code digits = some d) : d.nearestMagnitude = code := by
  unfold onGrid? at h
  have hreads := List.find?_some h
  exact eq_of_beq hreads

/-- **The shortest decimal of a finite double reads back as the double.** -/
theorem nearestMagnitude_decimal {code : Nat} (hcode : code < Binary64.infinityCode) :
    (decimal code).nearestMagnitude = code := by
  unfold decimal
  by_cases hzero : code = 0
  · rw [if_pos hzero, hzero]
    rfl
  · rw [if_neg hzero]
    cases hfind : (List.range 18).findSome? (onGrid? code) with
    | none => exact nearestMagnitude_exact (Nat.pos_of_ne_zero hzero) hcode
    | some d =>
      obtain ⟨digits, -, hd⟩ := List.exists_of_findSome?_eq_some hfind
      exact nearestMagnitude_of_onGrid? hd

end Shortest
end SmallLisp
