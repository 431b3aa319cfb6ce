import SmallLisp.Number.Basic

/-!
# Expressions

The syntax trees of the language.  A special form, a call of a built-in function and a call of
a lambda expression each have a constructor that holds exactly their parts; a list is any other
sequence in parentheses.  A lambda that is called is part of the call, so that the call cannot
hold anything else in its place.

Strings have no spelling in the source language.  They exist as expressions so that a tree built
by other means can be shown.

Nothing here says that a tree can be the result of reading a text.  A name may be any string,
and a list may be headed by the name of a form.
-/

namespace SmallLisp

/-- **An expression.** -/
inductive Expr where
  | integer (n : Int)
  | real (x : Binary64)
  | boolean (b : Bool)
  | identifier (name : String)
  | string (s : String)
  /-- A sequence in parentheses that is no form. -/
  | list (items : List Expr)
  /-- A call of a built-in function. -/
  | call (function : String) (arguments : List Expr)
  | quote (e : Expr)
  | setq (name : String) (value : Expr)
  | cond (test yes : Expr) (no : Option Expr)
  | func (name : String) (parameters : List String) (body : List Expr)
  | lambda (parameters : List String) (body : Expr)
  | lambdaCall (parameters : List String) (body : Expr) (arguments : List Expr)
  | prog (parameters : List String) (body : List Expr)
  | whileLoop (condition : Expr) (body : List Expr)
  deriving Repr, Inhabited

/-- **A program**: the expressions at its top level. -/
structure Program where
  expressions : List Expr
  deriving Repr, Inhabited

end SmallLisp
