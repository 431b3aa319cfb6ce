import SmallLisp.Error
import SmallLisp.Reader.Unfinished

/-!
# The grammar, one token at a time

Given what has been read so far, a token is either refused, or it is used up and something else
has been read so far.  `Unfinished.move` makes that decision from the one token alone: whatever
comes behind it plays no part.  Two rules fix the nesting limit: a list or quotation begins with
an opening parenthesis, or with a tick or the word `quote`, where an expression is to start; and
it is refused if as many as the limit allows are begun and unfinished around it.  The parameters
of a form and the word `quote` at the head of a list begin nothing.
-/

namespace SmallLisp

/-- The rules by which expressions are read. -/
structure Rules where
  readsForms : Bool
  /-- How many lists and quotations may be nested; without a number, any. -/
  nestingLimit : Option Nat
  deriving DecidableEq, Repr

/-- How deep lists and quotations may be nested in the language. -/
def nestingLimit : Nat := 256

/-- The rules of a dialect. -/
def Dialect.rules (d : Dialect) : Rules := ⟨d.readsForms, some nestingLimit⟩

/-- Whether one more list or quotation may begin inside `depth` others. -/
def Rules.allows (rules : Rules) (depth : Nat) : Bool :=
  match rules.nestingLimit with
  | none => true
  | some limit => depth < limit

/-- The expression that a token is by itself.  A keyword stands for its canonical name, except
`quote`, which always begins a quotation. -/
def Token.atom? (t : Token) : Option Expr :=
  match t.kind, t.literal with
  | .integer, some (.number (.integer n)) => some (.integer n)
  | .real, some (.number (.real x)) => some (.real x)
  | .boolean, some (.boolean b) => some (.boolean b)
  | .identifier, some (.text name) => some (.identifier name)
  | .keyword k, _ => if k = .quote then none else some (.identifier k.word)
  | _, _ => none

namespace Unfinished

/-- A token where an expression is to start inside `around`. -/
def start (rules : Rules) (doneRev : List Expr) (around : List Waiting) (t : Token) :
    Except GrammarError Unfinished :=
  let enter (w : Waiting) : Except GrammarError Unfinished :=
    if rules.allows around.length then .ok (within (.expecting w) around doneRev)
    else .error .nestingTooDeep
  match t.kind with
  | .openParen => enter .head
  | .keyword .quote => enter .tick
  | _ =>
    match t.atom? with
    | some e => .ok (finish rules.readsForms doneRev around e)
    | none => .error (.unexpectedToken t)

/-- Whether a token ends a sequence: its closing parenthesis, or the end of the input, which is
then refused because it is not the parenthesis. -/
def endsSequence (t : Token) : Bool := t.kind == .closeParen || t.kind == .eof

/-- **The move on a token**: the kind of token that the grammar takes here, and what has been
read once it is used up; or why no token like this one can stand here.  Whether the token is of
that kind is for the caller to check. -/
def move (rules : Rules) (u : Unfinished) (t : Token) :
    Except GrammarError (TokenKind × Unfinished) :=
  let started (around : List Waiting) (doneRev : List Expr) :=
    (start rules doneRev around t).map fun u => (t.kind, u)
  let finished (around : List Waiting) (doneRev : List Expr) (e : Expr) :=
    .ok (.closeParen, finish rules.readsForms doneRev around e)
  match u with
  | topLevel doneRev => started [] doneRev
  | within (.expecting w) around doneRev =>
    match w with
    | .head =>
      if t.kind = .closeParen then finished around doneRev (.list [])
      else if rules.readsForms && t.isQuoteKeyword then
        .ok (.keyword .quote, within (.expecting .quoted) around doneRev)
      else started (w :: around) doneRev
    | .condNo test yes =>
      if t.kind = .closeParen then finished around doneRev (.cond test yes none)
      else started (w :: around) doneRev
    | .items sequence itemsRev =>
      if endsSequence t then finished around doneRev (sequence.close itemsRev.reverse)
      else started (w :: around) doneRev
    | _ => started (w :: around) doneRev
  | within .setqName around doneRev =>
    match t.name? with
    | some name => .ok (t.kind, within (.expecting (.setqValue name)) around doneRev)
    | none => .error (.expectedName t.kind)
  | within .funcName around doneRev =>
    match t.name? with
    | some name => .ok (t.kind, within (.parametersOpen (.func name)) around doneRev)
    | none => .error (.expectedName t.kind)
  | within (.parametersOpen form) around doneRev =>
    .ok (.openParen, within (.parameters form []) around doneRev)
  | within (.parameters form namesRev) around doneRev =>
    if endsSequence t then
      .ok (.closeParen, within (form.afterParameters namesRev.reverse) around doneRev)
    else
      match t.name? with
      | some name => .ok (t.kind, within (.parameters form (name :: namesRev)) around doneRev)
      | none => .error (.expectedName t.kind)
  | within (.closing e) around doneRev => finished around doneRev e

end Unfinished
end SmallLisp
