import SmallLisp.Expr.Basic
import SmallLisp.Text.Quoted
import SmallLisp.Token.Basic

/-!
# Writing expressions

An expression is written as a sequence of *pieces* — parentheses, ticks and words — and the
pieces are laid out by one rule: a space stands between two neighbouring pieces, except behind
an opening parenthesis or a tick and before a closing parenthesis.  So what is written is
decided in one place and where the spaces go in another, and neither depends on the kind of
expression.

A program is written with every expression at its top level on a line of its own.

The text is produced as a sequence of *strokes*, the strings that are handed to the output one
after the other.  Where the output can fail, the strokes are what is written before it does.
-/

namespace SmallLisp

/-- What an expression is written with. -/
inductive Piece where
  | opening
  | closing
  | tick
  | word (letters : List Char)
  deriving DecidableEq, Repr

namespace Piece

/-- The text of a piece. -/
def chars : Piece → List Char
  | opening => ['(']
  | closing => [')']
  | tick => ['\'']
  | word letters => letters

/-- The word that a string is. -/
def ofString (s : String) : Piece := word s.toList

/-- Whether a space stands between two neighbouring pieces. -/
def needsSpace : Piece → Piece → Bool
  | opening, _ => false
  | tick, _ => false
  | _, closing => false
  | _, _ => true

/-- The strings written for a sequence of pieces: the pieces, with a space between those that
need one. -/
def strokes : List Piece → List (List Char)
  | [] => []
  | [p] => [p.chars]
  | p :: q :: rest =>
    if p.needsSpace q then p.chars :: [' '] :: strokes (q :: rest)
    else p.chars :: strokes (q :: rest)

/-- A list of names in parentheses. -/
def ofNames (names : List String) : List Piece :=
  opening :: names.map ofString ++ [closing]

end Piece

namespace Expr

open Piece

mutual

/-- **The pieces of an expression.**  A form is written as a list headed by its keyword, and a
quotation with the tick whichever way it was read. -/
def pieces : Expr → List Piece
  | .integer n => [.word (Numeral.ofInteger n)]
  | .real x => [.word x.text]
  | .boolean b => [ofString (booleanWord b)]
  | .identifier name => [ofString name]
  | .string s => [.word (quoted s.toList)]
  | .list items => .opening :: piecesAll items ++ [.closing]
  | .call function arguments =>
    .opening :: ofString function :: piecesAll arguments ++ [.closing]
  | .quote e => .tick :: e.pieces
  | .setq name value =>
    .opening :: ofString Keyword.setq.word :: ofString name :: value.pieces ++ [.closing]
  | .cond test yes none =>
    .opening :: ofString Keyword.cond.word :: test.pieces ++ yes.pieces ++ [.closing]
  | .cond test yes (some no) =>
    .opening :: ofString Keyword.cond.word :: test.pieces ++ yes.pieces ++ no.pieces ++
      [.closing]
  | .func name parameters body =>
    .opening :: ofString Keyword.func.word :: ofString name :: ofNames parameters ++
      piecesAll body ++ [.closing]
  | .lambda parameters body =>
    .opening :: ofString Keyword.lambda.word :: ofNames parameters ++ body.pieces ++ [.closing]
  | .lambdaCall parameters body arguments =>
    .opening ::
      (.opening :: ofString Keyword.lambda.word :: ofNames parameters ++ body.pieces ++
        [.closing]) ++
      piecesAll arguments ++ [.closing]
  | .prog parameters body =>
    .opening :: ofString Keyword.prog.word :: ofNames parameters ++ piecesAll body ++ [.closing]
  | .whileLoop condition body =>
    .opening :: ofString Keyword.whileLoop.word :: condition.pieces ++ piecesAll body ++
      [.closing]

/-- The pieces of a sequence of expressions, one after the other. -/
def piecesAll : List Expr → List Piece
  | [] => []
  | e :: es => e.pieces ++ piecesAll es

end

/-- The strings written for an expression, in order. -/
def strokes (e : Expr) : List (List Char) := Piece.strokes e.pieces

/-- **The text of an expression.** -/
def chars (e : Expr) : List Char := e.strokes.flatten

/-- The text of an expression, as a string. -/
def text (e : Expr) : String := String.ofList e.chars

end Expr

example : (Expr.func "f" ["x", "y"] [.quote (.list [.integer (-1)])]).text =
    "(func f (x y) '(-1))" := by decide

example : (Expr.cond (.boolean true) (.list []) none).text = "(cond true ())" := by decide

namespace Program

/-- The strings written for a program: each expression, and the end of its line. -/
def strokes (p : Program) : List (List Char) :=
  p.expressions.flatMap fun e => e.strokes ++ [['\n']]

/-- **The text of a program**: its expressions, each on a line of its own. -/
def chars (p : Program) : List Char := p.strokes.flatten

/-- The text of a program, as a string. -/
def text (p : Program) : String := String.ofList p.chars

theorem chars_eq_flatMap (p : Program) :
    p.chars = p.expressions.flatMap fun e => e.chars ++ ['\n'] := by
  obtain ⟨es⟩ := p
  simp only [chars, strokes]
  induction es with
  | nil => rfl
  | cons e es ih => simp [Expr.chars, ih]

end Program
end SmallLisp
