import SmallLisp.Number.Binary64

/-!
# Decimal fractions

A decimal fraction is a coefficient and a power of ten.  It is what a real literal spells and
what the shortest text of a double is chosen from, so both directions meet here: the double
nearest to a decimal, and the decimal's positional form.
-/

namespace SmallLisp

/-- The number `coefficient * 10 ^ exponent`. -/
structure Decimal where
  coefficient : Nat
  exponent : Int
  deriving DecidableEq, Repr

namespace Decimal

/-- The number of digits before the point if the decimal is written positionally; zero or
negative if the first digit other than zero stands behind the point. -/
def lead (d : Decimal) : Int := (Nat.toDigits 10 d.coefficient).length + d.exponent

/-- **The magnitude code of the nearest double.**

The two early cases are no rounding rule of their own.  A number of more than 310 digits before
the point is beyond the greatest double, and one that starts more than 330 places behind it is
below half the smallest; both are told from the digits alone, so that an exponent of any size
is read without forming the power of ten. -/
def nearestMagnitude (d : Decimal) : Nat :=
  if d.coefficient = 0 then 0
  else if 310 < d.lead then Binary64.infinityCode
  else if d.lead < -330 then 0
  else match d.exponent with
    | .ofNat e => Binary64.nearestMagnitude (d.coefficient * Nat.pow 10 e) 1
    | .negSucc e => Binary64.nearestMagnitude d.coefficient (Nat.pow 10 (e + 1))

theorem nearestMagnitude_le (d : Decimal) : d.nearestMagnitude ≤ Binary64.infinityCode := by
  unfold nearestMagnitude
  split
  · exact Nat.zero_le _
  · split
    · exact Nat.le_refl _
    · split
      · exact Nat.zero_le _
      · split
        · exact Binary64.nearestMagnitude_le _ _
        · exact Binary64.nearestMagnitude_le _ _

theorem nearestMagnitude_lt (d : Decimal) : d.nearestMagnitude < Nat.pow 2 63 :=
  Nat.lt_of_le_of_lt d.nearestMagnitude_le (by decide)

/-- The double nearest to the decimal with a sign in front.  A number too small for the format
becomes a zero that keeps the sign. -/
def toBinary64 (negative : Bool) (d : Decimal) : Binary64 :=
  ⟨negative, d.nearestMagnitude, d.nearestMagnitude_lt⟩

/-- The decimal written out: digits, a point, digits, with at least one digit on each side and
never a power of ten. -/
def positional (d : Decimal) : List Char :=
  match d.exponent with
  | .ofNat e => Nat.toDigits 10 (d.coefficient * Nat.pow 10 e) ++ ['.', '0']
  | .negSucc e =>
    Nat.toDigits 10 (d.coefficient / Nat.pow 10 (e + 1)) ++
      '.' :: List.leftpad (e + 1) '0' (Nat.toDigits 10 (d.coefficient % Nat.pow 10 (e + 1)))

example : (Decimal.mk 25 1).positional = "250.0".toList := by decide

example : (Decimal.mk 25 (-3)).positional = "0.025".toList := by decide

end Decimal
end SmallLisp
