/-!
# Double precision numbers

A real of the language is an IEEE 754 double.  It is kept as the standard lays it out — a sign
and a 63-bit magnitude code — because that code has two properties that exact statements about
reading and writing rest on.

* Codes are ordered like the values they stand for, and neighbouring codes are neighbouring
  values.
* Every finite value is a whole number of *units*, one unit being the smallest positive double,
  `2 ^ (-1074)`.  Nothing about a finite double needs fractions.

## Main definitions

* `Binary64.units`: the value of a magnitude code, counted in units.
* `Binary64.nearestMagnitude`: the magnitude code of the double nearest to a quotient of natural
  numbers, a tie going to the even code.
* `Binary64.same`: the comparison of values, by which the two zeros are equal and a NaN equals
  nothing.

Powers are taken with `Nat.pow`, which means the same with or without a theory of powers around.
-/

namespace SmallLisp

/-- The whole number nearest to `num / den`; halfway between two of them, the even one. -/
def roundQuotient (num den : Nat) : Nat :=
  let whole := num / den
  let rest := num % den
  if 2 * rest < den then whole
  else if den < 2 * rest then whole + 1
  else whole + whole % 2

/-- **A double.**  The magnitude code holds the biased exponent above the 52 bits of the
fraction; with the sign it makes up the 64 bits. -/
structure Binary64 where
  negative : Bool
  magnitude : Nat
  magnitude_lt : magnitude < Nat.pow 2 63
  deriving DecidableEq, Repr

namespace Binary64

/-- The magnitude code of the infinities.  Smaller codes are finite values, greater ones are
NaNs. -/
def infinityCode : Nat := 2047 * Nat.pow 2 52

def isFinite (x : Binary64) : Bool := x.magnitude < infinityCode

def isInfinite (x : Binary64) : Bool := x.magnitude == infinityCode

def isNaN (x : Binary64) : Bool := infinityCode < x.magnitude

/-- The double with the given 64 bits. -/
def ofBits (bits : UInt64) : Binary64 where
  negative := Nat.pow 2 63 ≤ bits.toNat
  magnitude := bits.toNat % Nat.pow 2 63
  magnitude_lt := Nat.mod_lt _ (by decide)

/-- The 64 bits of a double. -/
def toBits (x : Binary64) : UInt64 :=
  UInt64.ofNat (x.magnitude + if x.negative then Nat.pow 2 63 else 0)

/-- The NaN that stands for all of them where only being a NaN matters. -/
def nan : Binary64 := ⟨false, infinityCode + Nat.pow 2 51, by decide⟩

/-! ## Values in units -/

/-- The value of a finite magnitude code, counted in units of `2 ^ (-1074)`.  Below `2 ^ 52` the
code is the fraction itself; above, the fraction has a hidden leading bit and is shifted by the
exponent less one. -/
def units (code : Nat) : Nat :=
  if code < Nat.pow 2 52 then code
  else (Nat.pow 2 52 + code % Nat.pow 2 52) * Nat.pow 2 (code / Nat.pow 2 52 - 1)

/-- **The magnitude code of the double nearest to `num / den`**, a tie going to the even code and
everything beyond the range to infinity.

Counted in units the quotient is `num * 2 ^ 1074 / den`.  If that has more than 53 bits, the
excess is shifted away, and the 53 bits that remain are rounded.  A round-up that carries into
a 54th bit needs no case of its own: the code of the next binade is one greater. -/
def nearestMagnitude (num den : Nat) : Nat :=
  let scaled := num * Nat.pow 2 1074
  let shift := Nat.log2 (scaled / den) - 52
  min infinityCode (shift * Nat.pow 2 52 + roundQuotient scaled (den * Nat.pow 2 shift))

theorem nearestMagnitude_le (num den : Nat) : nearestMagnitude num den ≤ infinityCode :=
  Nat.min_le_left _ _

/-! ## Comparison -/

/-- Equality of values: the two zeros are equal, and a NaN is equal to nothing, itself
included. -/
def same (x y : Binary64) : Bool :=
  !x.isNaN && !y.isNaN && (x == y || (x.magnitude == 0 && y.magnitude == 0))

theorem same_self {x : Binary64} (h : x.isNaN = false) : x.same x = true := by
  simp [same, h]

end Binary64
end SmallLisp
