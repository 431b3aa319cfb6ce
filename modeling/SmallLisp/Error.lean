import SmallLisp.Text.Position
import SmallLisp.Token.Basic

/-!
# What can be wrong with a source text

Errors are causes, and each kind of cause has its wording in one place.  A text can fail in two
ways: its characters do not make up tokens, or its tokens do not make up expressions.
-/

namespace SmallLisp

/-- Why no token could be read. -/
inductive LexError where
  /-- A number with more than one point. -/
  | severalPoints (lexeme : String)
  /-- A lexeme that starts like a number and spells none. -/
  | invalidNumber (lexeme : String)
  /-- A character that no token starts with. -/
  | unexpectedChar (c : Char)
  deriving DecidableEq, Repr

/-- The wording of a lexical error. -/
def LexError.message : LexError → String
  | severalPoints lexeme => "more than one '.' in number '" ++ lexeme ++ "'"
  | invalidNumber lexeme => "invalid number '" ++ lexeme ++ "'"
  | unexpectedChar c => "unexpected character '" ++ c.toString ++ "'"

/-- Why a token does not fit where it stands. -/
inductive GrammarError where
  /-- One particular kind is the only one that fits. -/
  | mismatch (expected got : TokenKind)
  /-- An expression has to start here and this token starts none. -/
  | unexpectedToken (t : Token)
  /-- A name has to stand here. -/
  | expectedName (got : TokenKind)
  /-- One more list or quotation would be nested too deep. -/
  | nestingTooDeep
  deriving DecidableEq, Repr

/-- The wording of a grammatical error. -/
def GrammarError.message : GrammarError → String
  | mismatch expected got => "expected " ++ expected.description ++ ", got " ++ got.description
  | unexpectedToken t => "unexpected token '" ++ t.text ++ "' (" ++ t.kind.label ++ ")"
  | expectedName got => "expected a name, got " ++ got.description
  | nestingTooDeep => "nesting too deep"

/-- **Why a source text is no program.** -/
inductive SourceError where
  | lexical (error : LexError)
  | grammatical (error : GrammarError)
  deriving DecidableEq, Repr

def SourceError.message : SourceError → String
  | lexical error => error.message
  | grammatical error => error.message

end SmallLisp
