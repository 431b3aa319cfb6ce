import Mathlib.Data.List.Forall2
import SmallLisp.Reader.Move

/-!
# The grammar of the language

The grammar says which sequences of tokens are expressions, and which expressions they are,
without saying how any of this is found out.  It knows nothing of a nesting limit: how deep an
expression is nested is a property of the expression.

* `Token.Names`: the tokens that can stand where a name is expected.
* `ParameterList`: names in parentheses.
* `Derives`, `DerivesAll`: tokens that are an expression, or a sequence of expressions.
* `Expr.depth`: how many lists, forms and quotations are nested in an expression.

Ends of lines are not among the tokens, and neither is the end of the input.
-/

namespace SmallLisp

namespace Token

/-- An opening parenthesis. -/
def opening : Token := .plain .openParen

/-- A closing parenthesis. -/
def closing : Token := .plain .closeParen

/-- Tokens between parentheses. -/
def parenthesized (ts : List Token) : List Token := opening :: (ts ++ [closing])

/-- The name that a token is where a name is expected: an identifier, or any reserved word
under its canonical name.  The tick is no name, although the word `quote` is one. -/
inductive Names : Token → String → Prop
  | identifier (name : String) : Names (.identifier name) name
  | boolean (b : Bool) : Names (.boolean b) (booleanWord b)
  | keyword (k : Keyword) (lexeme : String) : Names (.word (.keyword k) lexeme) k.word

end Token

/-- A list of parameters: any number of names in parentheses. -/
def ParameterList (ts : List Token) (names : List String) : Prop :=
  ∃ us, ts = Token.parenthesized us ∧ List.Forall₂ Token.Names us names

/-- Whether an expression at the head of a list makes the list something other than a plain list:
the name of a special form or of a built-in function, or a lambda expression. -/
def Expr.headsForm : Expr → Bool
  | .identifier name =>
    (Keyword.specialForms ++ Keyword.builtInFunctions).any fun k => k.word == name
  | .lambda _ _ => true
  | _ => false

/-- Whether tokens begin with the word `quote`, as opposed to the tick. -/
def beginsWithQuoteWord (ts : List Token) : Bool := ts.head?.any Token.isQuoteKeyword

/-! ## What the head of a list decides -/

/-- The names that make a form are the names of the keywords. -/
theorem Expr.headsForm_identifier (name : String) :
    (Expr.identifier name).headsForm = (Keyword.ofName? name).isSome := by
  rw [Bool.eq_iff_iff, Expr.headsForm, List.any_eq_true, Option.isSome_iff_exists]
  constructor
  · rintro ⟨k, -, hk⟩
    exact ⟨k, by rw [← eq_of_beq hk, Keyword.ofName?_word]⟩
  · rintro ⟨k, hk⟩
    have hmem := Keyword.mem_specialForms_or_mem_builtInFunctions k
    exact ⟨k, List.mem_append.2 hmem, by simp [Keyword.word_of_ofName? hk]⟩

namespace Innermost

theorem ofHead_plain {readsForms : Bool} {e : Expr}
    (h : readsForms = true → e.headsForm = false) :
    ofHead readsForms e = .expecting (.items .plain [e]) := by
  cases readsForms with
  | false => rfl
  | true =>
    have he := h rfl
    cases e with
    | identifier name =>
      have hname : Keyword.ofName? name = none := by
        simpa [Expr.headsForm_identifier] using he
      simp [ofHead, hname]
    | lambda parameters body => simp [Expr.headsForm] at he
    | _ => rfl

theorem ofHead_setq : ofHead true (.identifier Keyword.setq.word) = .setqName := by
  simp [ofHead, Keyword.ofName?_word]

theorem ofHead_cond : ofHead true (.identifier Keyword.cond.word) = .expecting .condTest := by
  simp [ofHead, Keyword.ofName?_word]

theorem ofHead_func : ofHead true (.identifier Keyword.func.word) = .funcName := by
  simp [ofHead, Keyword.ofName?_word]

theorem ofHead_lambda :
    ofHead true (.identifier Keyword.lambda.word) = .parametersOpen .lambda := by
  simp [ofHead, Keyword.ofName?_word]

theorem ofHead_prog : ofHead true (.identifier Keyword.prog.word) = .parametersOpen .prog := by
  simp [ofHead, Keyword.ofName?_word]

theorem ofHead_whileLoop :
    ofHead true (.identifier Keyword.whileLoop.word) = .expecting .whileCondition := by
  simp [ofHead, Keyword.ofName?_word]

theorem ofHead_builtIn {k : Keyword} (hk : k ∈ Keyword.builtInFunctions) :
    ofHead true (.identifier k.word) = .expecting (.items (.call k.word) []) := by
  simp only [ofHead, Keyword.ofName?_word, if_true]
  cases k <;> simp [Keyword.builtInFunctions] at hk ⊢

end Innermost

/-! ## Derivations -/

mutual

/-- **The tokens of an expression.**  In a dialect with forms, the head of a list decides which
production the list belongs to; otherwise a list is any sequence of at least one expression, or
an empty pair of parentheses. -/
inductive Derives (readsForms : Bool) : List Token → Expr → Prop
  | integer (n : Int) : Derives readsForms [.number (.integer n)] (.integer n)
  | real (x : Binary64) : Derives readsForms [.number (.real x)] (.real x)
  | boolean (b : Bool) : Derives readsForms [.boolean b] (.boolean b)
  /-- An identifier of a text is never called like a keyword, since that word would be one. -/
  | identifier {name : String} (hname : Keyword.ofName? name = none) :
      Derives readsForms [.identifier name] (.identifier name)
  /-- Any keyword but `quote` stands for its canonical name. -/
  | keyword {k : Keyword} (lexeme : String) (hk : k ≠ .quote) :
      Derives readsForms [.word (.keyword k) lexeme] (.identifier k.word)
  /-- Behind the tick or the word `quote`. -/
  | quotation {q : Token} {ts : List Token} {e : Expr} (hq : q.kind = .keyword .quote)
      (he : Derives readsForms ts e) : Derives readsForms (q :: ts) (.quote e)
  | emptyList : Derives readsForms (Token.parenthesized []) (.list [])
  | list {ts us : List Token} {head : Expr} {items : List Expr}
      (hplain : readsForms = true → beginsWithQuoteWord ts = false ∧ head.headsForm = false)
      (hhead : Derives readsForms ts head) (hitems : DerivesAll readsForms us items) :
      Derives readsForms (Token.parenthesized (ts ++ us)) (.list (head :: items))
  | quoteForm {ts : List Token} {e : Expr} (lexeme : String) (hforms : readsForms = true)
      (he : Derives readsForms ts e) :
      Derives readsForms (Token.parenthesized (.word (.keyword .quote) lexeme :: ts)) (.quote e)
  | setq {t : Token} {ts : List Token} {name : String} {value : Expr} (lexeme : String)
      (hforms : readsForms = true) (hname : t.Names name) (hvalue : Derives readsForms ts value) :
      Derives readsForms (Token.parenthesized (.word (.keyword .setq) lexeme :: t :: ts))
        (.setq name value)
  | condTwo {ts us : List Token} {test yes : Expr} (lexeme : String)
      (hforms : readsForms = true) (htest : Derives readsForms ts test)
      (hyes : Derives readsForms us yes) :
      Derives readsForms (Token.parenthesized (.word (.keyword .cond) lexeme :: (ts ++ us)))
        (.cond test yes none)
  | condThree {ts us vs : List Token} {test yes no : Expr} (lexeme : String)
      (hforms : readsForms = true) (htest : Derives readsForms ts test)
      (hyes : Derives readsForms us yes) (hno : Derives readsForms vs no) :
      Derives readsForms
        (Token.parenthesized (.word (.keyword .cond) lexeme :: (ts ++ us ++ vs)))
        (.cond test yes (some no))
  | func {t : Token} {ps ts : List Token} {name : String} {parameters : List String}
      {body : List Expr} (lexeme : String) (hforms : readsForms = true) (hname : t.Names name)
      (hparameters : ParameterList ps parameters) (hbody : DerivesAll readsForms ts body) :
      Derives readsForms
        (Token.parenthesized (.word (.keyword .func) lexeme :: t :: (ps ++ ts)))
        (.func name parameters body)
  | lambda {ps ts : List Token} {parameters : List String} {body : Expr} (lexeme : String)
      (hforms : readsForms = true) (hparameters : ParameterList ps parameters)
      (hbody : Derives readsForms ts body) :
      Derives readsForms (Token.parenthesized (.word (.keyword .lambda) lexeme :: (ps ++ ts)))
        (.lambda parameters body)
  | prog {ps ts : List Token} {parameters : List String} {body : List Expr} (lexeme : String)
      (hforms : readsForms = true) (hparameters : ParameterList ps parameters)
      (hbody : DerivesAll readsForms ts body) :
      Derives readsForms (Token.parenthesized (.word (.keyword .prog) lexeme :: (ps ++ ts)))
        (.prog parameters body)
  | whileLoop {ts us : List Token} {condition : Expr} {body : List Expr} (lexeme : String)
      (hforms : readsForms = true) (hcondition : Derives readsForms ts condition)
      (hbody : DerivesAll readsForms us body) :
      Derives readsForms (Token.parenthesized (.word (.keyword .whileLoop) lexeme :: (ts ++ us)))
        (.whileLoop condition body)
  | call {k : Keyword} {ts : List Token} {arguments : List Expr} (lexeme : String)
      (hforms : readsForms = true) (hk : k ∈ Keyword.builtInFunctions)
      (harguments : DerivesAll readsForms ts arguments) :
      Derives readsForms (Token.parenthesized (.word (.keyword k) lexeme :: ts))
        (.call k.word arguments)
  /-- The head is itself a lambda form, the only production of a lambda expression. -/
  | lambdaCall {ts us : List Token} {parameters : List String} {body : Expr}
      {arguments : List Expr} (hforms : readsForms = true)
      (hhead : Derives readsForms ts (.lambda parameters body))
      (harguments : DerivesAll readsForms us arguments) :
      Derives readsForms (Token.parenthesized (ts ++ us))
        (.lambdaCall parameters body arguments)

/-- The tokens of a sequence of expressions, one after the other. -/
inductive DerivesAll (readsForms : Bool) : List Token → List Expr → Prop
  | nil : DerivesAll readsForms [] []
  | cons {ts us : List Token} {e : Expr} {es : List Expr} (he : Derives readsForms ts e)
      (hes : DerivesAll readsForms us es) : DerivesAll readsForms (ts ++ us) (e :: es)

end

namespace DerivesAll

variable {readsForms : Bool} {ts us : List Token} {es fs : List Expr} {e : Expr}

theorem append (hes : DerivesAll readsForms ts es) (hfs : DerivesAll readsForms us fs) :
    DerivesAll readsForms (ts ++ us) (es ++ fs) := by
  induction es generalizing ts with
  | nil =>
    cases hes
    exact hfs
  | cons e es ih =>
    cases hes with
    | cons he hes =>
      rw [List.append_assoc]
      exact .cons he (ih hes)

theorem singleton (he : Derives readsForms ts e) : DerivesAll readsForms ts [e] := by
  rw [← List.append_nil ts]
  exact .cons he .nil

/-- One more expression at the end. -/
theorem snoc (hes : DerivesAll readsForms ts es) (he : Derives readsForms us e) :
    DerivesAll readsForms (ts ++ us) (es ++ [e]) := hes.append (.singleton he)

end DerivesAll

/-- The lambda expression in a call is smaller than the call, although it is no part of it.
Inductions along derivations need this where a production has a lambda form as its head. -/
theorem Expr.sizeOf_lambda_lt (parameters : List String) (body : Expr) (arguments : List Expr) :
    sizeOf (Expr.lambda parameters body) < sizeOf (Expr.lambdaCall parameters body arguments) := by
  have hpos : 0 < sizeOf arguments := by
    cases arguments <;> simp only [List.nil.sizeOf_spec, List.cons.sizeOf_spec] <;> omega
  simp only [Expr.lambda.sizeOf_spec, Expr.lambdaCall.sizeOf_spec]
  omega

/-! ## Nesting -/

mutual

/-- How deep an expression is nested.  Every list, form and quotation counts one, the
quotation in either spelling.  The lambda expression of a call is a form inside the call. -/
def Expr.depth : Expr → Nat
  | .integer _ => 0
  | .real _ => 0
  | .boolean _ => 0
  | .identifier _ => 0
  | .string _ => 0
  | .list items => depthAll items + 1
  | .call _ arguments => depthAll arguments + 1
  | .quote e => e.depth + 1
  | .setq _ value => value.depth + 1
  | .cond test yes none => max test.depth yes.depth + 1
  | .cond test yes (some no) => max test.depth (max yes.depth no.depth) + 1
  | .func _ _ body => depthAll body + 1
  | .lambda _ body => body.depth + 1
  | .lambdaCall _ body arguments => max (body.depth + 1) (depthAll arguments) + 1
  | .prog _ body => depthAll body + 1
  | .whileLoop condition body => max condition.depth (depthAll body) + 1

/-- How deep the most deeply nested of some expressions is. -/
def Expr.depthAll : List Expr → Nat
  | [] => 0
  | e :: es => max e.depth (depthAll es)

end

/-- How deep a program is nested; its top level does not count. -/
def Program.depth (p : Program) : Nat := Expr.depthAll p.expressions

theorem Expr.depthAll_append (es fs : List Expr) :
    depthAll (es ++ fs) = max (depthAll es) (depthAll fs) := by
  induction es with
  | nil => simp [depthAll]
  | cons e es ih => simp [depthAll, ih, Nat.max_assoc]

end SmallLisp
