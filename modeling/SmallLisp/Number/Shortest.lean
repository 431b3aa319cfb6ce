import SmallLisp.Number.Decimal

/-!
# The shortest text of a double

A double is written with the fewest digits that read back as the same double, and with the
digits nearest to its value among those.  For each count of digits there is a grid of decimals
of that many digits around the value; the value lies between two neighbours on it, and if any
point of the grid reads back, one of those two does.  So it is enough to ask, for one digit, two
digits, and so on, whether one of the neighbours reads back, and to take the nearer if both do.
The search begins one step earlier, with the grid whose neighbours are zero and the next power
of ten: that power has one digit as well, but in a place to the left of the value's first.
Seventeen digits always suffice; the exact value stands behind the search so that its result
reads back whatever the search finds.
-/

namespace SmallLisp
namespace Shortest

/-- The value of a magnitude code in steps of `10 ^ exponent`, as a quotient. -/
def inSteps (code : Nat) (exponent : Int) : Nat × Nat :=
  match exponent with
  | .ofNat e => (Binary64.units code, Nat.pow 2 1074 * Nat.pow 10 e)
  | .negSucc e => (Binary64.units code * Nat.pow 10 (e + 1), Nat.pow 2 1074)

/-- The number of digits before the point of the value, or minus the number of zeros directly
behind it.  The smallest double is above `10 ^ (-324)`, so 344 places are more than enough to
see the first digit. -/
def lead (code : Nat) : Int :=
  (Nat.toDigits 10 (Binary64.units code * Nat.pow 10 344 / Nat.pow 2 1074)).length - 344

/-- The two neighbours of the value among the decimals of `digits` digits, the nearer one first;
the greater one if both are equally near. -/
def neighbours (code digits : Nat) : List Decimal :=
  let exponent := lead code - digits
  let (num, den) := inSteps code exponent
  let below : Decimal := ⟨num / den, exponent⟩
  let above : Decimal := ⟨num / den + 1, exponent⟩
  if 2 * (num % den) < den then [below, above] else [above, below]

/-- The nearest neighbour among the decimals of `digits` digits that reads back as the same
magnitude code. -/
def onGrid? (code digits : Nat) : Option Decimal :=
  (neighbours code digits).find? fun d => d.nearestMagnitude == code

/-- The exact value: a unit is `5 ^ 1074 / 10 ^ 1074`. -/
def exact (code : Nat) : Decimal := ⟨Binary64.units code * Nat.pow 5 1074, -1074⟩

/-- **The shortest decimal that reads back as a finite magnitude code.** -/
def decimal (code : Nat) : Decimal :=
  if code = 0 then ⟨0, 0⟩
  else ((List.range 18).findSome? (onGrid? code)).getD (exact code)

end Shortest

namespace Binary64

/-- A double as text: the shortest digits in positional form, a minus sign for every negative
value (minus zero included), and words for what has no digits. -/
def text (x : Binary64) : List Char :=
  if x.isNaN then ['N', 'a', 'N']
  else
    (if x.negative then ['-'] else []) ++
      if x.isInfinite then ['i', 'n', 'f'] else (Shortest.decimal x.magnitude).positional

example : (ofBits 0x3FB999999999999A).text = "0.1".toList := by decide +kernel

example : (ofBits 0x8000000000000000).text = "-0.0".toList := by decide +kernel

/-- Of two texts equally short and equally near, the greater magnitude. -/
example : (ofBits 0x4310000000000001).text = "1125899906842624.3".toList := by decide +kernel

end Binary64
end SmallLisp
