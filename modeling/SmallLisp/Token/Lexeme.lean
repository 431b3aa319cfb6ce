import SmallLisp.Error
import SmallLisp.Text.Alphabetic
import SmallLisp.Text.Blank

/-!
# Lexemes

A source text is cut into lexemes, and each lexeme is a token.  The two steps are independent.
`splitLexeme` decides how far the lexeme at the head of a text reaches, which depends on the
characters alone; `Token.ofLexeme` says what the lexeme means, which depends on nothing behind
it.

## The lexemes

* a line break: a newline, a carriage return, or both in this order;
* a tick, or a parenthesis;
* a word: a letter, and all letters and digits that follow it;
* a number: a digit, or a minus or a point directly followed by a digit, and all digits and
  points that follow.

Blanks separate lexemes and are otherwise skipped.  Where a word or a number ends, the next
lexeme may begin without a blank: `3-2` is two numbers.
-/

namespace SmallLisp

/-- A character that continues a word. -/
def isWordChar (c : Char) : Bool := isAlphabetic c || c.isDigit

/-- A character that continues a number. -/
def isNumberChar (c : Char) : Bool := c.isDigit || c == '.'

/-- Whether a number starts with `c` if `rest` follows it. -/
def startsNumber (c : Char) (rest : List Char) : Bool :=
  c.isDigit || ((c == '-' || c == '.') && rest.head?.any Char.isDigit)

/-- A lexeme that is one character by itself. -/
def isPunctuation (c : Char) : Bool := c == '\n' || c == '\'' || c == '(' || c == ')'

/-- **The lexeme at the head of a text**, and what is behind it.  There is none if the text is
empty or starts with a character that no token starts with. -/
def splitLexeme : List Char → Option (List Char × List Char)
  | [] => none
  | '\r' :: '\n' :: rest => some (['\r', '\n'], rest)
  | '\r' :: rest => some (['\r'], rest)
  | c :: rest =>
    if isPunctuation c then some ([c], rest)
    else if isAlphabetic c then
      some (c :: rest.takeWhile isWordChar, rest.dropWhile isWordChar)
    else if startsNumber c rest then
      some (c :: rest.takeWhile isNumberChar, rest.dropWhile isNumberChar)
    else none

/-- A lexeme is never empty, so what is behind it is shorter than the text. -/
theorem length_lt_of_splitLexeme {text lexeme rest : List Char}
    (h : splitLexeme text = some (lexeme, rest)) : rest.length < text.length := by
  have hdrop : ∀ (p : Char → Bool) (l : List Char), (l.dropWhile p).length ≤ l.length :=
    fun p l => (List.dropWhile_sublist p).length_le
  unfold splitLexeme at h
  split at h
  · simp at h
  · simp only [Option.some.injEq, Prod.mk.injEq] at h
    rw [← h.2, List.length_cons, List.length_cons]
    omega
  · simp only [Option.some.injEq, Prod.mk.injEq] at h
    rw [← h.2, List.length_cons]
    omega
  · rename_i c tail _ _
    have hword := hdrop isWordChar tail
    have hnumber := hdrop isNumberChar tail
    split at h
    · simp only [Option.some.injEq, Prod.mk.injEq] at h
      rw [← h.2, List.length_cons]
      omega
    · split at h
      · simp only [Option.some.injEq, Prod.mk.injEq] at h
        rw [← h.2, List.length_cons]
        omega
      · split at h
        · simp only [Option.some.injEq, Prod.mk.injEq] at h
          rw [← h.2, List.length_cons]
          omega
        · simp at h

/-! ## What a lexeme means -/

/-- A word is a truth value or a keyword if the table of reserved words has it in any case, and
an identifier otherwise.  Which of the two truth values it is, is a comparison of its own. -/
def Token.ofWord (lexeme : List Char) : Token :=
  match TokenKind.ofWord? lexeme with
  | some .boolean => .boolean (lexeme.map Char.toLower == "true".toList)
  | some kind => .word kind (String.ofList lexeme)
  | none => .identifier (String.ofList lexeme)

/-- A lexeme that starts like a number has one point at most, and then spells a number. -/
def Token.ofNumber (lexeme : List Char) : Except LexError Token :=
  if 1 < lexeme.count '.' then .error (.severalPoints (String.ofList lexeme))
  else match Number.read? lexeme with
    | some n => .ok (.number n)
    | none => .error (.invalidNumber (String.ofList lexeme))

/-- **The token that a lexeme is**, its first character telling which rule applies. -/
def Token.ofLexeme : List Char → Except LexError Token
  | [] => .ok (.plain .eof)
  | c :: rest =>
    if c = '\n' ∨ c = '\r' then .ok (.plain .endLine)
    else if c = '\'' then .ok (.plain (.keyword .quote))
    else if c = '(' then .ok (.plain .openParen)
    else if c = ')' then .ok (.plain .closeParen)
    else if isAlphabetic c then .ok (.ofWord (c :: rest))
    else Token.ofNumber (c :: rest)

end SmallLisp
