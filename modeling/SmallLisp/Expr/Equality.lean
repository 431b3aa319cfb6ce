import SmallLisp.Expr.Basic

/-!
# Equality of expressions

Two expressions are equal if they have the same shape, the same names, and numbers of the same
value.  Reals are compared as numbers and not as bit patterns, so this is not equality of trees
in either direction of strictness: zero and minus zero make equal trees of different values,
and a tree that contains a NaN is not even equal to itself.
-/

namespace SmallLisp

mutual

/-- **Equality of expressions**, reals being compared by value. -/
def Expr.same : Expr → Expr → Bool
  | .integer m, .integer n => m == n
  | .real x, .real y => x.same y
  | .boolean a, .boolean b => a == b
  | .identifier a, .identifier b => a == b
  | .string a, .string b => a == b
  | .list xs, .list ys => sameAll xs ys
  | .call f xs, .call g ys => f == g && sameAll xs ys
  | .quote d, .quote e => d.same e
  | .setq m d, .setq n e => m == n && d.same e
  | .cond c y none, .cond c' y' none => c.same c' && y.same y'
  | .cond c y (some n), .cond c' y' (some n') => c.same c' && y.same y' && n.same n'
  | .func f ps b, .func g qs c => f == g && ps == qs && sameAll b c
  | .lambda ps b, .lambda qs c => ps == qs && b.same c
  | .lambdaCall ps b xs, .lambdaCall qs c ys => ps == qs && b.same c && sameAll xs ys
  | .prog ps b, .prog qs c => ps == qs && sameAll b c
  | .whileLoop c b, .whileLoop c' b' => c.same c' && sameAll b b'
  | _, _ => false

/-- Equality of sequences of expressions, one by one. -/
def Expr.sameAll : List Expr → List Expr → Bool
  | [], [] => true
  | d :: ds, e :: es => d.same e && sameAll ds es
  | _, _ => false

end

/-- Equality of programs: as many expressions, and equal ones in the same places. -/
def Program.same (p q : Program) : Bool := Expr.sameAll p.expressions q.expressions

end SmallLisp
