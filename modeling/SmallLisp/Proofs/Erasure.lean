import SmallLisp.Proofs.Vocabulary

/-!
# Forms as plain lists

A form is a list with a meaning, and without the meaning it is still a list: its keyword, its
names, its parameters as a list of their own, and its expressions.  `Expr.erase` turns every form
in a tree back into that list.

What the grammar with forms derives from some tokens, the grammar of plain lists derives in erased
shape from the same tokens (`Derives.erase`).  The word `quote` is left out of account: at the
head of a list it makes a quotation in one dialect and is a quotation by itself in the other.

Erasing a form does not change how deep it is nested, with one exception.  The parameters of a
form are no list while they belong to the form, and become one when it is erased, so what counts
is also where the forms with parameters stand (`Expr.parametricLevels`).
-/

namespace SmallLisp

/-! ## Erasing -/

namespace Expr

/-- The expression that a name is where no name is expected. -/
def ofName (name : String) : Expr :=
  if name = booleanWord true then .boolean true
  else if name = booleanWord false then .boolean false
  else .identifier name

/-- A list of parameters as an expression. -/
def ofParameters (parameters : List String) : Expr := .list (parameters.map ofName)

mutual

/-- **The tree with every form in it as the plain list of its parts.** -/
def erase : Expr → Expr
  | .integer n => .integer n
  | .real x => .real x
  | .boolean b => .boolean b
  | .identifier name => .identifier name
  | .string s => .string s
  | .list items => .list (eraseAll items)
  | .call function arguments => .list (.identifier function :: eraseAll arguments)
  | .quote e => .quote e.erase
  | .setq name value => .list [.identifier Keyword.setq.word, ofName name, value.erase]
  | .cond test yes none => .list [.identifier Keyword.cond.word, test.erase, yes.erase]
  | .cond test yes (some no) =>
    .list [.identifier Keyword.cond.word, test.erase, yes.erase, no.erase]
  | .func name parameters body =>
    .list (.identifier Keyword.func.word :: ofName name :: ofParameters parameters ::
      eraseAll body)
  | .lambda parameters body =>
    .list [.identifier Keyword.lambda.word, ofParameters parameters, body.erase]
  | .lambdaCall parameters body arguments =>
    .list (.list [.identifier Keyword.lambda.word, ofParameters parameters, body.erase] ::
      eraseAll arguments)
  | .prog parameters body =>
    .list (.identifier Keyword.prog.word :: ofParameters parameters :: eraseAll body)
  | .whileLoop condition body =>
    .list (.identifier Keyword.whileLoop.word :: condition.erase :: eraseAll body)

/-- The trees of a sequence, each erased. -/
def eraseAll : List Expr → List Expr
  | [] => []
  | e :: es => e.erase :: eraseAll es

end

/-- A lambda expression that is called is erased like any other. -/
theorem erase_lambdaCall (parameters : List String) (body : Expr) (arguments : List Expr) :
    (lambdaCall parameters body arguments).erase =
      .list ((lambda parameters body).erase :: eraseAll arguments) := by
  simp [erase]

end Expr

/-- The program with every form in it as a plain list. -/
def Program.erase (p : Program) : Program := ⟨Expr.eraseAll p.expressions⟩

/-! ## The tokens of a form are those of a plain list -/

/-- Expressions in parentheses are a plain list, whatever the first of them is. -/
theorem DerivesAll.list {ts : List Token} {es : List Expr} (h : DerivesAll false ts es) :
    Derives false (Token.parenthesized ts) (.list es) := by
  cases h with
  | nil => exact .emptyList
  | cons he hes => exact .list (by simp) he hes

/-- The keyword of a form is an expression. -/
theorem DerivesAll.keyword_cons {k : Keyword} {ts : List Token} {es : List Expr} (hk : k ≠ .quote)
    (lexeme : String) (h : DerivesAll false ts es) :
    DerivesAll false (.word (.keyword k) lexeme :: ts) (.identifier k.word :: es) :=
  .cons (.keyword lexeme hk) h

/-- A token that stands for a name is an expression where no name is expected. -/
theorem Token.Names.derives {t : Token} {name : String} (h : t.Names name) (ht : t.Scanned)
    (hquote : t.isQuoteKeyword = false) : Derives false [t] (.ofName name) := by
  cases h with
  | boolean b =>
    have hname : Expr.ofName (booleanWord b) = .boolean b := by cases b <;> rfl
    rw [hname]
    exact .boolean b
  | keyword k lexeme =>
    have hk : k ≠ .quote := by
      rintro rfl
      simp [isQuoteKeyword, word] at hquote
    have hname : Expr.ofName k.word = .identifier k.word := by cases k <;> rfl
    rw [hname]
    exact .keyword lexeme hk
  | identifier =>
    cases ht with
    | @identifier letters hword hfree =>
      -- An identifier of a text is no keyword, and so it is not one of the words for truth
      -- values.
      have hbooleans : ∀ b, TokenKind.ofWord? (booleanWord b).toList = some .boolean := by
        decide +kernel
      have hne : ∀ b, String.ofList letters ≠ booleanWord b := by
        intro b heq
        have hletters : letters = (booleanWord b).toList := by rw [← heq, String.toList_ofList]
        rw [hletters, hbooleans] at hfree
        simp at hfree
      have hname : Expr.ofName (String.ofList letters) = .identifier (String.ofList letters) := by
        rw [Expr.ofName, if_neg (hne true), if_neg (hne false)]
      rw [hname]
      exact .identifier (TokenKind.ofName?_eq_none_of_ofWord? hfree)

theorem ParameterList.derives {ts : List Token} {names : List String} (h : ParameterList ts names)
    (hts : ∀ t ∈ ts, t.Scanned ∧ t.isQuoteKeyword = false) :
    Derives false ts (.ofParameters names) := by
  obtain ⟨us, rfl, hnames⟩ := h
  replace hts : ∀ t ∈ us, t.Scanned ∧ t.isQuoteKeyword = false :=
    fun t ht => hts t (by simp [Token.parenthesized, ht])
  refine DerivesAll.list ?_
  induction hnames with
  | nil => exact .nil
  | cons hname _ ih =>
    rw [List.forall_mem_cons] at hts
    exact .cons (hname.derives hts.1.1 hts.1.2) (ih hts.2)

mutual

/-- What is a form in one grammar is a plain list in the other, of the same tokens. -/
theorem Derives.erase {ts : List Token} {e : Expr} (h : Derives true ts e)
    (hts : ∀ t ∈ ts, t.Scanned ∧ t.isQuoteKeyword = false) : Derives false ts e.erase := by
  cases h with
  | integer n => exact .integer n
  | real x => exact .real x
  | boolean b => exact .boolean b
  | identifier hname => exact .identifier hname
  | keyword lexeme hk => exact .keyword lexeme hk
  | quotation hq he =>
    exact .quotation hq (he.erase fun t ht => hts t (List.mem_cons_of_mem _ ht))
  | emptyList => exact .emptyList
  | list hplain hhead hitems =>
    have hhead := hhead.erase fun t ht => hts t (by simp [Token.parenthesized, ht])
    have hitems := hitems.erase fun t ht => hts t (by simp [Token.parenthesized, ht])
    exact .list (by simp) hhead hitems
  | quoteForm lexeme hforms he =>
    have hword := (hts (.word (.keyword .quote) lexeme) (by simp [Token.parenthesized])).2
    simp [Token.isQuoteKeyword, Token.word] at hword
  | @setq t ts name value lexeme hforms hname hvalue =>
    have ht := hts t (by simp [Token.parenthesized])
    have hvalue := hvalue.erase fun t ht => hts t (by simp [Token.parenthesized, ht])
    exact DerivesAll.list (.keyword_cons (by decide) lexeme
      (.cons (hname.derives ht.1 ht.2) (.singleton hvalue)))
  | condTwo lexeme hforms htest hyes =>
    have htest := htest.erase fun t ht => hts t (by simp [Token.parenthesized, ht])
    have hyes := hyes.erase fun t ht => hts t (by simp [Token.parenthesized, ht])
    exact DerivesAll.list (.keyword_cons (by decide) lexeme (.cons htest (.singleton hyes)))
  | condThree lexeme hforms htest hyes hno =>
    have htest := htest.erase fun t ht => hts t (by simp [Token.parenthesized, ht])
    have hyes := hyes.erase fun t ht => hts t (by simp [Token.parenthesized, ht])
    have hno := hno.erase fun t ht => hts t (by simp [Token.parenthesized, ht])
    rw [List.append_assoc]
    exact DerivesAll.list
      (.keyword_cons (by decide) lexeme (.cons htest (.cons hyes (.singleton hno))))
  | @func t ps ts name parameters body lexeme hforms hname hparameters hbody =>
    have ht := hts t (by simp [Token.parenthesized])
    have hparameters := hparameters.derives fun t ht => hts t (by simp [Token.parenthesized, ht])
    have hbody := hbody.erase fun t ht => hts t (by simp [Token.parenthesized, ht])
    exact DerivesAll.list (.keyword_cons (by decide) lexeme
      (.cons (hname.derives ht.1 ht.2) (.cons hparameters hbody)))
  | lambda lexeme hforms hparameters hbody =>
    have hparameters := hparameters.derives fun t ht => hts t (by simp [Token.parenthesized, ht])
    have hbody := hbody.erase fun t ht => hts t (by simp [Token.parenthesized, ht])
    exact DerivesAll.list
      (.keyword_cons (by decide) lexeme (.cons hparameters (.singleton hbody)))
  | prog lexeme hforms hparameters hbody =>
    have hparameters := hparameters.derives fun t ht => hts t (by simp [Token.parenthesized, ht])
    have hbody := hbody.erase fun t ht => hts t (by simp [Token.parenthesized, ht])
    exact DerivesAll.list (.keyword_cons (by decide) lexeme (.cons hparameters hbody))
  | whileLoop lexeme hforms hcondition hbody =>
    have hcondition := hcondition.erase fun t ht => hts t (by simp [Token.parenthesized, ht])
    have hbody := hbody.erase fun t ht => hts t (by simp [Token.parenthesized, ht])
    exact DerivesAll.list (.keyword_cons (by decide) lexeme (.cons hcondition hbody))
  | @call k ts arguments lexeme hforms hk harguments =>
    have hquote : k ≠ .quote := by
      rintro rfl
      exact absurd hk (by decide)
    have harguments := harguments.erase fun t ht => hts t (by simp [Token.parenthesized, ht])
    exact DerivesAll.list (.keyword_cons hquote lexeme harguments)
  | @lambdaCall ts us parameters body arguments hforms hhead harguments =>
    have hsmaller := Expr.sizeOf_lambda_lt parameters body arguments
    have hhead := hhead.erase fun t ht => hts t (by simp [Token.parenthesized, ht])
    have harguments := harguments.erase fun t ht => hts t (by simp [Token.parenthesized, ht])
    rw [Expr.erase_lambdaCall]
    exact .list (by simp) hhead harguments
termination_by sizeOf e

theorem DerivesAll.erase {ts : List Token} {es : List Expr} (h : DerivesAll true ts es)
    (hts : ∀ t ∈ ts, t.Scanned ∧ t.isQuoteKeyword = false) :
    DerivesAll false ts (Expr.eraseAll es) := by
  cases h with
  | nil => exact .nil
  | cons he hes =>
    have he := he.erase fun t ht => hts t (List.mem_append_left _ ht)
    have hes := hes.erase fun t ht => hts t (List.mem_append_right _ ht)
    exact .cons he hes
termination_by sizeOf es

end

/-! ## How deep a tree is nested once it is erased -/

namespace Expr

mutual

/-- The levels at which the forms with parameters stand in a tree: how many lists, forms and
quotations each is inside of, itself included.  A lambda expression that is called is a form inside
the call. -/
def parametricLevels : Expr → List Nat
  | .integer _ => []
  | .real _ => []
  | .boolean _ => []
  | .identifier _ => []
  | .string _ => []
  | .list items => (parametricLevelsAll items).map (· + 1)
  | .call _ arguments => (parametricLevelsAll arguments).map (· + 1)
  | .quote e => e.parametricLevels.map (· + 1)
  | .setq _ value => value.parametricLevels.map (· + 1)
  | .cond test yes none => (test.parametricLevels ++ yes.parametricLevels).map (· + 1)
  | .cond test yes (some no) =>
    (test.parametricLevels ++ yes.parametricLevels ++ no.parametricLevels).map (· + 1)
  | .func _ _ body => 1 :: (parametricLevelsAll body).map (· + 1)
  | .lambda _ body => 1 :: body.parametricLevels.map (· + 1)
  | .lambdaCall _ body arguments =>
    (1 :: body.parametricLevels.map (· + 1) ++ parametricLevelsAll arguments).map (· + 1)
  | .prog _ body => 1 :: (parametricLevelsAll body).map (· + 1)
  | .whileLoop condition body =>
    (condition.parametricLevels ++ parametricLevelsAll body).map (· + 1)

/-- The levels of the forms with parameters in a sequence of trees. -/
def parametricLevelsAll : List Expr → List Nat
  | [] => []
  | e :: es => e.parametricLevels ++ parametricLevelsAll es

end

/-- A form that is called and one that is an argument are both inside the call. -/
example : (lambdaCall [] (.integer 1) [.prog [] []]).parametricLevels = [2, 2] := by decide

@[simp] theorem depth_ofName (name : String) : (ofName name).depth = 0 := by
  unfold ofName
  split
  · rfl
  · split <;> rfl

theorem depthAll_map_ofName (names : List String) : depthAll (names.map ofName) = 0 := by
  induction names with
  | nil => rfl
  | cons name names ih => rw [List.map_cons, depthAll, depth_ofName, ih, Nat.max_self]

@[simp] theorem depth_ofParameters (parameters : List String) :
    (ofParameters parameters).depth = 1 := by
  rw [ofParameters, depth, depthAll_map_ofName]

/-- One level further in, the limit is one less. -/
theorem forall_mem_map_succ_lt_succ {ns : List Nat} {limit : Nat} :
    (∀ n ∈ ns.map (· + 1), n < limit + 1) ↔ ∀ n ∈ ns, n < limit := by
  simp only [List.forall_mem_map, Nat.add_lt_add_iff_right]

/-- A lambda expression, given its body.  It is needed by itself and as the head of a call. -/
theorem depth_erase_lambda_le_iff {body : Expr}
    (hbody : ∀ limit, body.erase.depth ≤ limit ↔
      body.depth ≤ limit ∧ ∀ n ∈ body.parametricLevels, n < limit)
    (parameters : List String) (limit : Nat) :
    (lambda parameters body).erase.depth ≤ limit ↔ (lambda parameters body).depth ≤ limit ∧
      ∀ n ∈ (lambda parameters body).parametricLevels, n < limit := by
  cases limit with
  | zero => simp [erase, depth]
  | succ limit =>
    simp only [erase, depth, depthAll, depth_ofParameters, parametricLevels,
      Nat.add_le_add_iff_right, Nat.zero_max, Nat.max_zero, Nat.max_le, hbody,
      List.forall_mem_cons, forall_mem_map_succ_lt_succ]
    grind

mutual

/-- An erased tree is nested as deep as the tree itself, or one deeper than a form with
parameters that stands in it. -/
theorem depth_erase_le_iff (e : Expr) (limit : Nat) :
    e.erase.depth ≤ limit ↔ e.depth ≤ limit ∧ ∀ n ∈ e.parametricLevels, n < limit := by
  cases limit with
  | zero =>
    -- Only atoms are nested within no limit, and there is nothing in them to erase.
    cases e with
    | cond test yes no => cases no <;> simp [erase, depth]
    | _ => simp [erase, depth, parametricLevels]
  | succ limit =>
    cases e with
    | integer n => simp [erase, depth, parametricLevels]
    | real x => simp [erase, depth, parametricLevels]
    | boolean b => simp [erase, depth, parametricLevels]
    | identifier name => simp [erase, depth, parametricLevels]
    | string s => simp [erase, depth, parametricLevels]
    | list items =>
      have hitems := depthAll_eraseAll_le_iff items limit
      simp only [erase, depth, parametricLevels, Nat.add_le_add_iff_right, hitems,
        forall_mem_map_succ_lt_succ]
    | call function arguments =>
      have harguments := depthAll_eraseAll_le_iff arguments limit
      simp only [erase, depth, depthAll, parametricLevels, Nat.add_le_add_iff_right, Nat.zero_max,
        harguments, forall_mem_map_succ_lt_succ]
    | quote e =>
      have he := depth_erase_le_iff e limit
      simp only [erase, depth, parametricLevels, Nat.add_le_add_iff_right, he,
        forall_mem_map_succ_lt_succ]
    | setq name value =>
      have hvalue := depth_erase_le_iff value limit
      simp only [erase, depth, depthAll, depth_ofName, parametricLevels, Nat.add_le_add_iff_right,
        Nat.zero_max, Nat.max_zero, hvalue, forall_mem_map_succ_lt_succ]
    | cond test yes no =>
      have htest := depth_erase_le_iff test limit
      have hyes := depth_erase_le_iff yes limit
      cases no with
      | none =>
        simp only [erase, depth, depthAll, parametricLevels, Nat.add_le_add_iff_right, Nat.zero_max,
          Nat.max_zero, Nat.max_le, htest, hyes, forall_mem_map_succ_lt_succ,
          List.forall_mem_append]
        exact and_and_and_comm
      | some no =>
        have hno := depth_erase_le_iff no limit
        simp only [erase, depth, depthAll, parametricLevels, Nat.add_le_add_iff_right, Nat.zero_max,
          Nat.max_zero, Nat.max_le, htest, hyes, hno, forall_mem_map_succ_lt_succ,
          List.forall_mem_append]
        grind
    | func name parameters body =>
      have hbody := depthAll_eraseAll_le_iff body limit
      simp only [erase, depth, depthAll, depth_ofName, depth_ofParameters, parametricLevels,
        Nat.add_le_add_iff_right, Nat.zero_max, Nat.max_le, hbody, List.forall_mem_cons,
        forall_mem_map_succ_lt_succ]
      grind
    | lambda parameters body =>
      exact depth_erase_lambda_le_iff (depth_erase_le_iff body) parameters (limit + 1)
    | lambdaCall parameters body arguments =>
      have hhead := depth_erase_lambda_le_iff (depth_erase_le_iff body) parameters limit
      have harguments := depthAll_eraseAll_le_iff arguments limit
      rw [erase_lambdaCall]
      simp only [depth, depthAll, parametricLevels, Nat.add_le_add_iff_right, Nat.max_le, hhead,
        harguments, forall_mem_map_succ_lt_succ, List.forall_mem_append]
      exact and_and_and_comm
    | prog parameters body =>
      have hbody := depthAll_eraseAll_le_iff body limit
      simp only [erase, depth, depthAll, depth_ofParameters, parametricLevels,
        Nat.add_le_add_iff_right, Nat.zero_max, Nat.max_le, hbody, List.forall_mem_cons,
        forall_mem_map_succ_lt_succ]
      grind
    | whileLoop condition body =>
      have hcondition := depth_erase_le_iff condition limit
      have hbody := depthAll_eraseAll_le_iff body limit
      simp only [erase, depth, depthAll, parametricLevels, Nat.add_le_add_iff_right, Nat.zero_max,
        Nat.max_le, hcondition, hbody, forall_mem_map_succ_lt_succ, List.forall_mem_append]
      exact and_and_and_comm

theorem depthAll_eraseAll_le_iff (es : List Expr) (limit : Nat) :
    depthAll (eraseAll es) ≤ limit ↔
      depthAll es ≤ limit ∧ ∀ n ∈ parametricLevelsAll es, n < limit := by
  cases es with
  | nil => simp [eraseAll, depthAll, parametricLevelsAll]
  | cons e es =>
    have he := depth_erase_le_iff e limit
    have hes := depthAll_eraseAll_le_iff es limit
    simp only [eraseAll, depthAll, parametricLevelsAll, Nat.max_le, List.forall_mem_append, he,
      hes]
    exact and_and_and_comm

end

mutual

/-- A form stands no deeper than the tree is nested. -/
theorem le_depth_of_mem_parametricLevels (e : Expr) : ∀ n ∈ e.parametricLevels, n ≤ e.depth := by
  cases e with
  | list items =>
    have hitems := le_depthAll_of_mem_parametricLevelsAll items
    simpa [parametricLevels, depth] using hitems
  | call function arguments =>
    have harguments := le_depthAll_of_mem_parametricLevelsAll arguments
    simpa [parametricLevels, depth] using harguments
  | quote e =>
    have he := le_depth_of_mem_parametricLevels e
    simpa [parametricLevels, depth] using he
  | setq name value =>
    have hvalue := le_depth_of_mem_parametricLevels value
    simpa [parametricLevels, depth] using hvalue
  | cond test yes no =>
    have htest := le_depth_of_mem_parametricLevels test
    have hyes := le_depth_of_mem_parametricLevels yes
    cases no with
    | none =>
      simp only [parametricLevels, depth, List.forall_mem_map, Nat.add_le_add_iff_right]
      grind
    | some no =>
      have hno := le_depth_of_mem_parametricLevels no
      simp only [parametricLevels, depth, List.forall_mem_map, Nat.add_le_add_iff_right]
      grind
  | func name parameters body =>
    have hbody := le_depthAll_of_mem_parametricLevelsAll body
    simpa [parametricLevels, depth] using hbody
  | lambda parameters body =>
    have hbody := le_depth_of_mem_parametricLevels body
    simpa [parametricLevels, depth] using hbody
  | lambdaCall parameters body arguments =>
    have hbody := le_depth_of_mem_parametricLevels body
    have harguments := le_depthAll_of_mem_parametricLevelsAll arguments
    simp only [parametricLevels, depth, List.forall_mem_map, Nat.add_le_add_iff_right]
    grind
  | prog parameters body =>
    have hbody := le_depthAll_of_mem_parametricLevelsAll body
    simpa [parametricLevels, depth] using hbody
  | whileLoop condition body =>
    have hcondition := le_depth_of_mem_parametricLevels condition
    have hbody := le_depthAll_of_mem_parametricLevelsAll body
    simp only [parametricLevels, depth, List.forall_mem_map, Nat.add_le_add_iff_right]
    grind
  | _ => simp [parametricLevels]

theorem le_depthAll_of_mem_parametricLevelsAll (es : List Expr) :
    ∀ n ∈ parametricLevelsAll es, n ≤ depthAll es := by
  cases es with
  | nil => simp [parametricLevelsAll]
  | cons e es =>
    have he := le_depth_of_mem_parametricLevels e
    have hes := le_depthAll_of_mem_parametricLevelsAll es
    simp only [parametricLevelsAll, depthAll]
    grind

end

end Expr

/-- The levels of the forms with parameters in a program. -/
def Program.parametricLevels (p : Program) : List Nat :=
  Expr.parametricLevelsAll p.expressions

/-- **A program that is nested within the limit is within it once it is erased**, unless a form with
parameters stands at the limit itself. -/
theorem Program.depth_erase_le_iff_not_mem {p : Program} {limit : Nat} (h : p.depth ≤ limit) :
    p.erase.depth ≤ limit ↔ limit ∉ p.parametricLevels := by
  have hlevels := Expr.le_depthAll_of_mem_parametricLevelsAll p.expressions
  rw [depth, erase, Expr.depthAll_eraseAll_le_iff]
  constructor
  · rintro ⟨-, hlt⟩ hmem
    exact Nat.lt_irrefl limit (hlt limit hmem)
  · intro hnot
    refine ⟨h, fun n hn => Nat.lt_of_le_of_ne (Nat.le_trans (hlevels n hn) h) ?_⟩
    rintro rfl
    exact hnot hn

end SmallLisp
