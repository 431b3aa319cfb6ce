import SmallLisp.Text.CodeRanges

/-!
# Blanks

Two things separate tokens, and they are kept apart.  A line break is a token of its own, so the
two characters that can begin one are not blanks; every other character with the property
White_Space is.
-/

namespace SmallLisp

/-- The code points with the property White_Space, in ascending ranges. -/
def whiteSpaceRanges : CodeRanges :=
  [(0x9, 0xD), (0x20, 0x20), (0x85, 0x85), (0xA0, 0xA0), (0x1680, 0x1680), (0x2000, 0x200A),
  (0x2028, 0x2029), (0x202F, 0x202F), (0x205F, 0x205F), (0x3000, 0x3000)]

/-- Whether a character has the Unicode property White_Space. -/
def isWhiteSpace (c : Char) : Bool := whiteSpaceRanges.contains c.toNat

/-- White space that is not part of a line break. -/
def isBlank (c : Char) : Bool := c != '\n' && c != '\r' && isWhiteSpace c

theorem isBlank_return : isBlank '\r' = false := by decide

end SmallLisp
