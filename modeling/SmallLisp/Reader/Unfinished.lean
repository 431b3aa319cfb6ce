import SmallLisp.Dialect
import SmallLisp.Expr.Basic
import SmallLisp.Token.Kind

/-!
# Expressions being read

Between two tokens, a reader of expressions has some expressions finished and some begun.  Those
begun are nested, each inside the one before; the innermost is where the next token goes, and
all the others wait for one thing, an expression to be finished inside them.

* `Waiting`: a list, form or quotation that waits for an expression.
* `Innermost`: the innermost one, which may also wait for a name, for a list of parameters, or
  for its closing parenthesis.
* `Unfinished`: everything together.  Its depth is the number of lists and quotations begun and
  not finished, and that is all the nesting limit has to look at.

When an expression is finished, the one around it takes it in and is either still unfinished or
finished itself, which only a tick can be without another token.
-/

namespace SmallLisp

/-- The kinds of list that take any number of expressions up to the closing parenthesis, with
what has been read before those. -/
inductive OpenEnded where
  | plain
  | call (function : String)
  | lambdaCall (parameters : List String) (body : Expr)
  | func (name : String) (parameters : List String)
  | prog (parameters : List String)
  | whileLoop (condition : Expr)
  deriving Repr

/-- The finished list. -/
def OpenEnded.close : OpenEnded → List Expr → Expr
  | plain, items => .list items
  | call function, items => .call function items
  | lambdaCall parameters body, items => .lambdaCall parameters body items
  | func name parameters, items => .func name parameters items
  | prog parameters, items => .prog parameters items
  | whileLoop condition, items => .whileLoop condition items

/-- Something begun that waits for an expression.  Items read so far are kept last first. -/
inductive Waiting where
  /-- Behind a tick. -/
  | tick
  /-- Behind an opening parenthesis. -/
  | head
  /-- Behind the word `quote` at the head of a list. -/
  | quoted
  | setqValue (name : String)
  | condTest
  | condYes (test : Expr)
  /-- The one place where an expression is optional. -/
  | condNo (test yes : Expr)
  | lambdaBody (parameters : List String)
  | whileCondition
  | items (sequence : OpenEnded) (itemsRev : List Expr)
  deriving Repr

/-- The forms that have a list of parameters. -/
inductive Parametric where
  | func (name : String)
  | lambda
  | prog
  deriving Repr

/-- The innermost list, form or quotation begun. -/
inductive Innermost where
  | expecting (w : Waiting)
  | setqName
  | funcName
  /-- Before the parenthesis that opens the parameters. -/
  | parametersOpen (form : Parametric)
  | parameters (form : Parametric) (namesRev : List String)
  /-- All parts are there and only the closing parenthesis is missing. -/
  | closing (e : Expr)
  deriving Repr

/-- What a form goes on with behind its parameters. -/
def Parametric.afterParameters : Parametric → List String → Innermost
  | func name, parameters => .expecting (.items (.func name parameters) [])
  | lambda, parameters => .expecting (.lambdaBody parameters)
  | prog, parameters => .expecting (.items (.prog parameters) [])

/-- How a list goes on behind its head.  In a dialect with forms the name of a form or of a
built-in function, or a lambda expression, decides; in every other case it is a plain list. -/
def Innermost.ofHead (readsForms : Bool) (head : Expr) : Innermost :=
  let plain := .expecting (.items .plain [head])
  if readsForms then
    match head with
    | .identifier name =>
      match Keyword.ofName? name with
      | some .setq => .setqName
      | some .cond => .expecting .condTest
      | some .func => .funcName
      | some .lambda => .parametersOpen .lambda
      | some .prog => .parametersOpen .prog
      | some .whileLoop => .expecting .whileCondition
      | some k =>
        if k ∈ Keyword.builtInFunctions then .expecting (.items (.call name) []) else plain
      | none => plain
    | .lambda names body => .expecting (.items (.lambdaCall names body) [])
    | _ => plain
  else plain

/-- What becomes of something that waits for an expression and gets one: it is finished, or it
waits for something else. -/
def Waiting.take (readsForms : Bool) : Waiting → Expr → Expr ⊕ Innermost
  | tick, e => .inl (.quote e)
  | head, e => .inr (.ofHead readsForms e)
  | quoted, e => .inr (.closing (.quote e))
  | setqValue name, e => .inr (.closing (.setq name e))
  | condTest, e => .inr (.expecting (.condYes e))
  | condYes test, e => .inr (.expecting (.condNo test e))
  | condNo test yes, e => .inr (.closing (.cond test yes (some e)))
  | lambdaBody parameters, e => .inr (.closing (.lambda parameters e))
  | whileCondition, e => .inr (.expecting (.items (.whileLoop e) []))
  | items sequence itemsRev, e => .inr (.expecting (.items sequence (e :: itemsRev)))

/-- **What has been read so far**: at the top level, the finished expressions; otherwise also
the innermost of those begun, and the others from the inside out.  Finished expressions are kept
last first. -/
inductive Unfinished where
  | topLevel (doneRev : List Expr)
  | within (innermost : Innermost) (around : List Waiting) (doneRev : List Expr)
  deriving Repr

namespace Unfinished

/-- Nothing read yet. -/
def empty : Unfinished := topLevel []

/-- The number of lists and quotations begun and not finished. -/
def depth : Unfinished → Nat
  | topLevel _ => 0
  | within _ around _ => around.length + 1

/-- An expression has been finished inside `around`. -/
def finish (readsForms : Bool) (doneRev : List Expr) : List Waiting → Expr → Unfinished
  | [], e => topLevel (e :: doneRev)
  | w :: around, e =>
    match w.take readsForms e with
    | .inl finished => finish readsForms doneRev around finished
    | .inr innermost => within innermost around doneRev

end Unfinished
end SmallLisp
