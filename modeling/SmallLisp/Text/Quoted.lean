import SmallLisp.Text.Printable

/-!
# Quoted text

A string is quoted so that its ends and all its characters can be seen: between double quotes,
with a backslash in front of what would be mistaken, short names for the common controls, and
the code point in hexadecimal for whatever cannot be shown as it is.
-/

namespace SmallLisp

/-- A character within quoted text.  The single quote needs no backslash between double
quotes. -/
def quotedChar (c : Char) : List Char :=
  if c = '\x00' then ['\\', '0']
  else if c = '\t' then ['\\', 't']
  else if c = '\n' then ['\\', 'n']
  else if c = '\r' then ['\\', 'r']
  else if c = '"' ∨ c = '\\' then ['\\', c]
  else if isShownAsIs c then [c]
  else ['\\', 'u', '\x7b'] ++ Nat.toDigits 16 c.toNat ++ ['\x7d']

/-- A text between double quotes. -/
def quoted (text : List Char) : List Char := '"' :: text.flatMap quotedChar ++ ['"']

/-- A string between double quotes. -/
def quotedString (s : String) : String := String.ofList (quoted s.toList)

example : quotedString "it's \"\t\u00ad\x00" = "\"it's \\\"\\t\\u\x7bad\x7d\\0\"" := by decide +kernel

end SmallLisp
