import SmallLisp.Number.Numeral
import SmallLisp.Number.Shortest

/-!
# Numbers

A number is an integer of any size or a double.  The two never mix: a text with a point is a
real even if its value is whole, and a real is always written with a point so that it stays
one.
-/

namespace SmallLisp

/-- **A number**: an integer of any size, or a double. -/
inductive Number where
  | integer (n : Int)
  | real (x : Binary64)
  deriving DecidableEq, Repr

namespace Number

/-- The number that a text spells, if it spells one.  A point decides between the two forms. -/
def read? (text : List Char) : Option Number :=
  if text.contains '.' then (Numeral.real? text).map .real
  else (Numeral.integer? text).map .integer

/-- The number that a lexeme spells, if it spells one. -/
def ofLexeme? (lexeme : String) : Option Number := read? lexeme.toList

/-- A number written out.  A finite number reads back as itself; infinity and NaN have no
spelling in the language and are written as words. -/
def chars : Number → List Char
  | integer n => Numeral.ofInteger n
  | real x => x.text

/-- A number written out, as a string. -/
def text (n : Number) : String := String.ofList n.chars

/-- Equality of values: integers as integers, doubles as `Binary64.same` has it. -/
def same : Number → Number → Bool
  | integer m, integer n => m == n
  | real x, real y => x.same y
  | _, _ => false

end Number
end SmallLisp
