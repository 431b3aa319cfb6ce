import SmallLisp.Proofs.Recognition

/-!
# A program is no larger than its text

Every expression in a program has a token of its own: an atom is a token, a quotation has its tick,
and a list or form its parentheses.  So there are no more expressions in a program, at the top level
and inside each other, than there are tokens that matter in the text.  The lambda expression of a
call is an expression here, although it is no part of the call.
-/

namespace SmallLisp

mutual

/-- How many expressions an expression consists of, itself among them. -/
def Expr.nodes : Expr → Nat
  | .integer _ => 1
  | .real _ => 1
  | .boolean _ => 1
  | .identifier _ => 1
  | .string _ => 1
  | .list items => nodesAll items + 1
  | .call _ arguments => nodesAll arguments + 1
  | .quote e => e.nodes + 1
  | .setq _ value => value.nodes + 1
  | .cond test yes none => test.nodes + yes.nodes + 1
  | .cond test yes (some no) => test.nodes + yes.nodes + no.nodes + 1
  | .func _ _ body => nodesAll body + 1
  | .lambda _ body => body.nodes + 1
  | .lambdaCall _ body arguments => (body.nodes + 1) + nodesAll arguments + 1
  | .prog _ body => nodesAll body + 1
  | .whileLoop condition body => condition.nodes + nodesAll body + 1

/-- How many expressions a sequence of expressions consists of. -/
def Expr.nodesAll : List Expr → Nat
  | [] => 0
  | e :: es => e.nodes + nodesAll es

end

/-- How many expressions a program consists of. -/
def Program.nodes (p : Program) : Nat := Expr.nodesAll p.expressions

theorem Token.length_parenthesized (ts : List Token) :
    (parenthesized ts).length = ts.length + 2 := by
  simp [parenthesized]

variable {readsForms : Bool}

mutual

/-- An expression has no more nodes than tokens. -/
theorem Derives.nodes_le {ts : List Token} {e : Expr} (h : Derives readsForms ts e) :
    e.nodes ≤ ts.length := by
  cases h with
  | quotation hq he =>
    have hle := he.nodes_le
    simpa [Expr.nodes] using hle
  | emptyList => exact Nat.le_succ 1
  | list hplain hhead hitems =>
    have hfirst := hhead.nodes_le
    have hrest := hitems.nodesAll_le
    simp only [Expr.nodes, Expr.nodesAll, Token.length_parenthesized, List.length_append]
    omega
  | quoteForm lexeme hforms he =>
    have hle := he.nodes_le
    simp only [Expr.nodes, Token.length_parenthesized, List.length_cons]
    omega
  | setq lexeme hforms hname hvalue =>
    have hle := hvalue.nodes_le
    simp only [Expr.nodes, Token.length_parenthesized, List.length_cons]
    omega
  | condTwo lexeme hforms htest hyes =>
    have hfirst := htest.nodes_le
    have hsecond := hyes.nodes_le
    simp only [Expr.nodes, Token.length_parenthesized, List.length_cons, List.length_append]
    omega
  | condThree lexeme hforms htest hyes hno =>
    have hfirst := htest.nodes_le
    have hsecond := hyes.nodes_le
    have hthird := hno.nodes_le
    simp only [Expr.nodes, Token.length_parenthesized, List.length_cons, List.length_append]
    omega
  | func lexeme hforms hname hparameters hbody =>
    have hle := hbody.nodesAll_le
    simp only [Expr.nodes, Token.length_parenthesized, List.length_cons, List.length_append]
    omega
  | lambda lexeme hforms hparameters hbody =>
    have hle := hbody.nodes_le
    simp only [Expr.nodes, Token.length_parenthesized, List.length_cons, List.length_append]
    omega
  | prog lexeme hforms hparameters hbody =>
    have hle := hbody.nodesAll_le
    simp only [Expr.nodes, Token.length_parenthesized, List.length_cons, List.length_append]
    omega
  | whileLoop lexeme hforms hcondition hbody =>
    have hfirst := hcondition.nodes_le
    have hrest := hbody.nodesAll_le
    simp only [Expr.nodes, Token.length_parenthesized, List.length_cons, List.length_append]
    omega
  | call lexeme hforms hk harguments =>
    have hle := harguments.nodesAll_le
    simp only [Expr.nodes, Token.length_parenthesized, List.length_cons]
    omega
  | lambdaCall hforms hhead harguments =>
    cases hhead with
    | lambda lexeme _ hparameters hbody =>
      have hfirst := hbody.nodes_le
      have hrest := harguments.nodesAll_le
      simp only [Expr.nodes, Token.length_parenthesized, List.length_cons, List.length_append]
      omega
  | _ => exact Nat.le_refl 1
termination_by sizeOf e

theorem DerivesAll.nodesAll_le {ts : List Token} {es : List Expr}
    (h : DerivesAll readsForms ts es) : Expr.nodesAll es ≤ ts.length := by
  cases h with
  | nil => exact Nat.le_refl 0
  | cons he hes =>
    have hfirst := he.nodes_le
    have hrest := hes.nodesAll_le
    rw [Expr.nodesAll, List.length_append]
    omega
termination_by sizeOf es

end

/-- **A program that was read has no more expressions in it than its text has tokens.** -/
theorem nodes_le_of_readProgram {d : Dialect} {source : String} {p : Program}
    (h : readProgram d source = .ok p) :
    p.nodes ≤ (TokenStream.ofSource d source).significant.length := by
  obtain ⟨-, hderives, -⟩ := (readProgram_eq_ok_iff d source p).1 h
  have hle := hderives.nodesAll_le
  rwa [List.length_map] at hle

/-- Atoms and ticks have no other tokens. -/
example : (readProgram .standard "'''x 1").toOption.map Program.nodes = some 5 := by decide +kernel

end SmallLisp
