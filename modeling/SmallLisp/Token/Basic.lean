import SmallLisp.Number.Basic
import SmallLisp.Token.Kind

/-!
# Tokens

A token is a kind and, for some kinds, a literal: the value of a number or a truth value, the
text of an identifier, or a keyword as it was written.  Parentheses, the tick, ends of lines and
the end of the input have none.

The tick and the word `quote` have the same kind and are told apart by the literal, which only
the word has.
-/

namespace SmallLisp

/-- What a token carries besides its kind. -/
inductive Literal where
  | number (n : Number)
  | boolean (b : Bool)
  | text (s : String)
  deriving DecidableEq, Repr

/-- The names of the truth values. -/
def booleanWord (b : Bool) : String := if b then "true" else "false"

/-- Equality of literals, numbers being compared by value. -/
def Literal.same : Literal → Literal → Bool
  | number m, number n => m.same n
  | boolean a, boolean b => a == b
  | text s, text t => s == t
  | _, _ => false

/-- **A token**: its kind and what it carries. -/
structure Token where
  kind : TokenKind
  literal : Option Literal := none
  deriving DecidableEq, Repr

namespace Token

/-- A token that is nothing but its kind. -/
def plain (kind : TokenKind) : Token := { kind }

/-- A number, whose kind says whether it is an integer or a real. -/
def number : Number → Token
  | n@(.integer _) => ⟨.integer, some (.number n)⟩
  | n@(.real _) => ⟨.real, some (.number n)⟩

def boolean (b : Bool) : Token := ⟨.boolean, some (.boolean b)⟩

def identifier (name : String) : Token := ⟨.identifier, some (.text name)⟩

/-- A word of a given kind, as it was written. -/
def word (kind : TokenKind) (lexeme : String) : Token := ⟨kind, some (.text lexeme)⟩

/-- The word `quote`, in any case, as opposed to the tick. -/
def isQuoteKeyword (t : Token) : Bool := t.kind == .keyword .quote && t.literal.isSome

/-- The name that a token is where a name is expected: the text of an identifier, the canonical
name of a keyword however it is written, and the word for a truth value.  The tick is no
name. -/
def name? (t : Token) : Option String :=
  match t.kind, t.literal with
  | .identifier, some (.text s) => some s
  | .boolean, some (.boolean b) => some (booleanWord b)
  | .keyword .quote, none => none
  | .keyword k, _ => some k.word
  | _, _ => none

/-- Equality of tokens, numbers being compared by value. -/
def same (s t : Token) : Bool :=
  s.kind == t.kind &&
    match s.literal, t.literal with
    | some a, some b => a.same b
    | none, none => true
    | _, _ => false

/-- How a token without a literal is shown. -/
def plainText : TokenKind → String
  | .openParen => "("
  | .closeParen => ")"
  | .keyword .quote => "'"
  | .endLine => "\\n"
  | .eof => "<EOF>"
  | kind => kind.description

/-- How a token is shown.  The end of a line is shown as a backslash and an `n`, so that no text
of a token breaks a line. -/
def text (t : Token) : String :=
  match t.literal with
  | some (.number n) => n.text
  | some (.boolean b) => booleanWord b
  | some (.text s) => s
  | none => plainText t.kind

end Token
end SmallLisp
