import SmallLisp.Text.Lowercase
import SmallLisp.Token.Keyword

/-!
# Kinds of tokens

The kinds are closed: layout and punctuation, four kinds of atoms, and one kind for every
keyword.  The two truth values are words like the keywords, and are recognised by the same
table, but they are literals and have no keyword of their own.
-/

namespace SmallLisp

/-- **The kind of a token.**  The kind of the keyword `quote` is also the kind of the tick that
abbreviates it. -/
inductive TokenKind where
  | endLine | eof | openParen | closeParen
  | integer | real | boolean | identifier
  | keyword (k : Keyword)
  deriving DecidableEq, Repr

namespace TokenKind

/-- The words that are not free to be names, with the kinds they have.  The two truth values
stand behind the arithmetic keywords. -/
def reservedWords : List (String × TokenKind) :=
  let entry (k : Keyword) : String × TokenKind := (k.word, .keyword k)
  (Keyword.all.take 4).map entry ++ [("true", .boolean), ("false", .boolean)] ++
    (Keyword.all.drop 4).map entry

/-- The kind of a word that is reserved, whatever its case. -/
def ofWord? (word : List Char) : Option TokenKind :=
  (reservedWords.find? fun entry => entry.1.toList == lowercase word).map Prod.snd

/-- The canonical name of a keyword's kind; the other kinds have none. -/
def canonicalName? : TokenKind → Option String
  | keyword k => some k.word
  | _ => none

/-- How messages describe a kind. -/
def description : TokenKind → String
  | endLine => "end of line"
  | eof => "end of input"
  | openParen => "'('"
  | closeParen => "')'"
  | integer => "integer"
  | real => "real"
  | boolean => "boolean"
  | identifier => "identifier"
  | keyword k => k.word

/-- The name under which a listing of tokens shows a kind. -/
def label : TokenKind → String
  | endLine => "EndLine"
  | eof => "Eof"
  | openParen => "Open"
  | closeParen => "Close"
  | integer => "Integer"
  | real => "Real"
  | boolean => "Boolean"
  | identifier => "Identifier"
  | keyword k => k.label

/-- Every kind: layout, punctuation and atoms first, then the keywords. -/
def all : List TokenKind :=
  [endLine, eof, openParen, closeParen, integer, real, boolean, identifier] ++
    Keyword.all.map keyword

end TokenKind
end SmallLisp
