import SmallLisp.Number.Decimal

/-!
# Numerals

The two forms in which a number is spelt.  A text with a point is a real numeral and any other
is an integer numeral, so the forms never compete; each is wider than what the scanner
delimits, because the same reader also serves text that comes from elsewhere.

* Integer numeral: one sign at most, then digits, among which (but not in front) underscores
  may stand.
* Real numeral: one sign at most, digits around a point with at least one digit in all, and a
  power of ten after `e` or `E`.
-/

namespace SmallLisp
namespace Numeral

/-- The number spelt by a run of decimal digits. -/
def natOfDigits (digits : List Char) : Nat := Nat.ofDigitChars 10 digits 0

/-- A sign in front of a numeral: whether it is a minus, and the text behind it. -/
def splitSign : List Char → Bool × List Char
  | '-' :: rest => (true, rest)
  | '+' :: rest => (false, rest)
  | text => (false, text)

/-- Digits with underscores among them, the first character being a digit. -/
def magnitude? (text : List Char) : Option Nat :=
  if text.head?.any Char.isDigit && text.all (fun c => c.isDigit || c == '_') then
    some (natOfDigits (text.filter Char.isDigit))
  else none

/-- The integer that an integer numeral spells. -/
def integer? (text : List Char) : Option Int :=
  let (negative, rest) := splitSign text
  (magnitude? rest).map fun n => if negative then -(n : Int) else n

/-- The power of ten behind the digits of a real numeral; absent means zero. -/
def exponent? : List Char → Option Int
  | [] => some 0
  | c :: rest =>
    if c == 'e' || c == 'E' then
      let (negative, digits) := splitSign rest
      if digits != [] && digits.all Char.isDigit then
        some (if negative then -(natOfDigits digits : Int) else natOfDigits digits)
      else none
    else none

/-- The decimal that an unsigned real numeral spells: the digits on both sides of the point are
one coefficient, and each digit behind the point takes one from the exponent. -/
def decimal? (text : List Char) : Option Decimal :=
  let whole := text.takeWhile Char.isDigit
  match text.dropWhile Char.isDigit with
  | '.' :: rest =>
    let fraction := rest.takeWhile Char.isDigit
    if whole ++ fraction = [] then none
    else (exponent? (rest.dropWhile Char.isDigit)).map fun e =>
      ⟨natOfDigits (whole ++ fraction), e - fraction.length⟩
  | _ => none

/-- The double nearest to what a real numeral spells. -/
def real? (text : List Char) : Option Binary64 :=
  let (negative, rest) := splitSign text
  (decimal? rest).map (Decimal.toBinary64 negative)

/-- An integer written out: a minus sign if it is negative, and its digits. -/
def ofInteger : Int → List Char
  | .ofNat n => Nat.toDigits 10 n
  | .negSucc n => '-' :: Nat.toDigits 10 (n + 1)

end Numeral
end SmallLisp
