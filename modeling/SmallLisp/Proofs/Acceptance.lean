import SmallLisp.Proofs.Grammar
import SmallLisp.Proofs.TokenList

/-!
# Everything in the grammar is read

A derivation is followed token by token: where an expression is to start, its tokens lead to
that expression being finished, provided that there is room for its nesting.  The proof goes
along the derivation, and each production is one path through the states of the reader, for
which the lemmas of the first two sections have one equation a step.
-/

namespace SmallLisp

/-- Whether the rules allow `n` lists and quotations inside each other. -/
def Rules.HasRoom (rules : Rules) (n : Nat) : Prop :=
  ∀ limit, rules.nestingLimit = some limit → n ≤ limit

theorem Rules.HasRoom.mono {rules : Rules} {m n : Nat} (h : rules.HasRoom n) (hmn : m ≤ n) :
    rules.HasRoom m := fun limit hlimit => Nat.le_trans hmn (h limit hlimit)

theorem Rules.HasRoom.allows {rules : Rules} {m n : Nat} (h : rules.HasRoom (m + (n + 1))) :
    rules.allows m = true := by
  unfold Rules.allows
  split
  · rfl
  · next limit hlimit =>
    have hle := h limit hlimit
    exact decide_eq_true (by omega)

/-! ## One token in each place -/

namespace Unfinished

variable {rules : Rules} {doneRev : List Expr} {around : List Waiting}

theorem advance_opening (h : rules.allows around.length = true) :
    (awaiting doneRev around).advance rules .opening = .ok (awaiting doneRev (.head :: around)) := by
  rw [advance_awaiting (by decide) (by decide) (by simp [Token.isQuoteKeyword, Token.opening,
    Token.plain])]
  simp [start, Token.opening, Token.plain, h, awaiting]

theorem advance_quotation {q : Token} (hq : q.kind = .keyword .quote)
    (h : rules.allows around.length = true)
    (hhead : around.head? = some .head → (rules.readsForms && q.isQuoteKeyword) = false) :
    (awaiting doneRev around).advance rules q = .ok (awaiting doneRev (.tick :: around)) := by
  rw [advance_awaiting (by simp [hq]) (by simp [hq]) hhead]
  simp [start, hq, h, awaiting]

theorem start_of_atom? {t : Token} {e : Expr} (h : t.atom? = some e) :
    start rules doneRev around t = .ok (finish rules.readsForms doneRev around e) := by
  obtain ⟨kind, literal⟩ := t
  cases kind with
  | openParen => simp [Token.atom?] at h
  | keyword k => cases k <;> simp_all [start, Token.atom?]
  | _ => simp [start, h]

theorem advance_atom {t : Token} {e : Expr} (h : t.atom? = some e) :
    (awaiting doneRev around).advance rules t =
      .ok (finish rules.readsForms doneRev around e) := by
  have hclose : t.kind ≠ .closeParen := fun hkind => by simp [Token.atom?, hkind] at h
  have heof : t.kind ≠ .eof := fun hkind => by simp [Token.atom?, hkind] at h
  have hquote : t.kind ≠ .keyword .quote := fun hkind => by simp [Token.atom?, hkind] at h
  rw [advance_awaiting hclose heof (by simp [Token.isQuoteKeyword, hquote]), start_of_atom? h]

/-- A keyword at the head of a list decides how the list goes on. -/
theorem advance_headKeyword {k : Keyword} {innermost : Innermost} (hk : k ≠ .quote)
    (hforms : rules.readsForms = true)
    (h : Innermost.ofHead true (.identifier k.word) = innermost) (lexeme : String) :
    (awaiting doneRev (.head :: around)).advance rules (.word (.keyword k) lexeme) =
      .ok (within innermost around doneRev) := by
  rw [advance_atom (e := .identifier k.word) (by simp [Token.atom?, Token.word, hk])]
  simp [finish, Waiting.take, hforms, h]

theorem advance_headQuote (hforms : rules.readsForms = true) (lexeme : String) :
    (awaiting doneRev (.head :: around)).advance rules (.word (.keyword .quote) lexeme) =
      .ok (awaiting doneRev (.quoted :: around)) := by
  simp [awaiting, advance, move, hforms, Token.word, Token.isQuoteKeyword]

theorem advance_head_closing :
    (awaiting doneRev (.head :: around)).advance rules .closing =
      .ok (finish rules.readsForms doneRev around (.list [])) := by
  simp [awaiting, advance, move, Token.closing, Token.plain]

theorem advance_items_closing (sequence : OpenEnded) (itemsRev : List Expr) :
    (awaiting doneRev (.items sequence itemsRev :: around)).advance rules .closing =
      .ok (finish rules.readsForms doneRev around (sequence.close itemsRev.reverse)) := by
  simp [awaiting, advance, move, endsSequence, Token.closing, Token.plain]

theorem advance_condNo_closing (test yes : Expr) :
    (awaiting doneRev (.condNo test yes :: around)).advance rules .closing =
      .ok (finish rules.readsForms doneRev around (.cond test yes none)) := by
  simp [awaiting, advance, move, Token.closing, Token.plain]

theorem advance_closing_closing (e : Expr) :
    (within (.closing e) around doneRev).advance rules .closing =
      .ok (finish rules.readsForms doneRev around e) := by
  simp [advance, move, Token.closing, Token.plain]

/-! ### Names and parameters -/

theorem name?_of_names {t : Token} {name : String} (h : t.Names name) : t.name? = some name := by
  cases h with
  | identifier => rfl
  | boolean b => rfl
  | keyword k lexeme => cases k <;> rfl

theorem advance_setqName {t : Token} {name : String} (h : t.Names name) :
    (within .setqName around doneRev).advance rules t =
      .ok (awaiting doneRev (.setqValue name :: around)) := by
  simp [advance, move, name?_of_names h, awaiting]

theorem advance_funcName {t : Token} {name : String} (h : t.Names name) :
    (within .funcName around doneRev).advance rules t =
      .ok (within (.parametersOpen (.func name)) around doneRev) := by
  simp [advance, move, name?_of_names h]

theorem advanceAll_names {us : List Token} {names : List String}
    (h : List.Forall₂ Token.Names us names) (form : Parametric) (namesRev : List String) :
    (within (.parameters form namesRev) around doneRev).advanceAll rules us =
      .ok (within (.parameters form (names.reverse ++ namesRev)) around doneRev) := by
  induction h generalizing namesRev with
  | nil => rfl
  | @cons t name us names hname hnames ih =>
    have hends : endsSequence t = false := by
      cases hname <;> rfl
    have hstep : (within (.parameters form namesRev) around doneRev).advance rules t =
        .ok (within (.parameters form (name :: namesRev)) around doneRev) := by
      simp [advance, move, hends, name?_of_names hname]
    rw [advanceAll_cons_of_ok hstep, ih]
    simp

/-- A list of parameters is read to its end; it takes no room. -/
theorem advanceAll_parameterList {ps : List Token} {names : List String}
    (h : ParameterList ps names) (form : Parametric) (ts : List Token) :
    (within (.parametersOpen form) around doneRev).advanceAll rules (ps ++ ts) =
      (within (form.afterParameters names) around doneRev).advanceAll rules ts := by
  obtain ⟨us, rfl, hus⟩ := h
  have hopen : (within (.parametersOpen form) around doneRev).advance rules .opening =
      .ok (within (.parameters form []) around doneRev) := by
    simp [advance, move, Token.opening, Token.plain]
  have hclose : (within (.parameters form (names.reverse ++ [])) around doneRev).advance rules
      .closing = .ok (within (form.afterParameters names) around doneRev) := by
    simp [advance, move, endsSequence, Token.closing, Token.plain]
  rw [Token.parenthesized, List.cons_append, List.append_assoc, advanceAll_cons_of_ok hopen,
    advanceAll_append_of_ok (advanceAll_names hus form []), List.singleton_append,
    advanceAll_cons_of_ok hclose]

/-! ## Whole expressions -/

theorem advanceAll_singleton {u v : Unfinished} {t : Token} (h : u.advance rules t = .ok v) :
    u.advanceAll rules [t] = .ok v := by
  rw [advanceAll_cons_of_ok h, advanceAll_nil]

/-- Tokens between parentheses are read one level further in. -/
theorem advanceAll_parenthesized {ts : List Token} {n : Nat} {u v : Unfinished}
    (hroom : rules.HasRoom (around.length + (n + 1)))
    (hinside : (awaiting doneRev (.head :: around)).advanceAll rules ts = .ok u)
    (hclose : u.advance rules .closing = .ok v) :
    (awaiting doneRev around).advanceAll rules (Token.parenthesized ts) = .ok v := by
  rw [Token.parenthesized, advanceAll_cons_of_ok (advance_opening hroom.allows),
    advanceAll_append_of_ok hinside, advanceAll_singleton hclose]

/-- The same where any number of expressions goes up to the closing parenthesis. -/
theorem advanceAll_parenthesized_items {ts : List Token} {n : Nat} {items : List Expr}
    (sequence : OpenEnded) (itemsRev : List Expr) (hroom : rules.HasRoom (around.length + (n + 1)))
    (hinside : (awaiting doneRev (.head :: around)).advanceAll rules ts =
      .ok (awaiting doneRev (.items sequence (items.reverse ++ itemsRev) :: around))) :
    (awaiting doneRev around).advanceAll rules (Token.parenthesized ts) =
      .ok (finish rules.readsForms doneRev around
        (sequence.close (itemsRev.reverse ++ items))) := by
  have hitems : itemsRev.reverse ++ items = (items.reverse ++ itemsRev).reverse := by simp
  rw [hitems]
  exact advanceAll_parenthesized hroom hinside (advance_items_closing sequence _)

mutual

/-- **What the grammar derives is read.**  Where an expression is to start and there is room for
it, its tokens lead to the state in which it is finished. -/
theorem advanceAll_of_derives {ts : List Token} {e : Expr}
    (h : Derives rules.readsForms ts e) (around : List Waiting)
    (hroom : rules.HasRoom (around.length + e.depth))
    (hhead : around.head? = some .head → rules.readsForms = true →
      beginsWithQuoteWord ts = false) :
    (awaiting doneRev around).advanceAll rules ts =
      .ok (finish rules.readsForms doneRev around e) := by
  -- One case for each production: its first tokens bring the reader into the state of that form,
  -- and each part is read inside one more unfinished form, for which there is room.
  cases h with
  | integer n => exact advanceAll_singleton (advance_atom rfl)
  | real x => exact advanceAll_singleton (advance_atom rfl)
  | boolean b => exact advanceAll_singleton (advance_atom rfl)
  | identifier hname => exact advanceAll_singleton (advance_atom rfl)
  | keyword lexeme hk =>
    exact advanceAll_singleton (advance_atom (by simp [Token.atom?, Token.word, hk]))
  | @quotation q ts e hq he =>
    -- Only the word `quote` begins a form in the place of a head; the tick never does.
    have hq' : around.head? = some .head → (rules.readsForms && q.isQuoteKeyword) = false := by
      intro haround
      cases hforms : rules.readsForms with
      | false => rfl
      | true => simpa [beginsWithQuoteWord] using hhead haround hforms
    have hinner := advanceAll_of_derives he (.tick :: around)
      (hroom.mono (by simp only [Expr.depth, List.length_cons]; omega)) (by simp)
    rw [advanceAll_cons_of_ok (advance_quotation hq (Rules.HasRoom.allows hroom) hq'), hinner]
    rfl
  | emptyList =>
    exact advanceAll_parenthesized hroom (advanceAll_nil _ _) advance_head_closing
  | @list ts us head items hplain hhead' hitems =>
    have hfirst := advanceAll_of_derives hhead' (.head :: around)
      (hroom.mono (by simp only [Expr.depth, Expr.depthAll, List.length_cons]; omega))
      (fun _ hforms => (hplain hforms).1)
    have hrest := advanceAll_items_of_derivesAll hitems around .plain [head]
      (hroom.mono (by simp only [Expr.depth, Expr.depthAll]; omega))
    have hplain' := Innermost.ofHead_plain fun hforms => (hplain hforms).2
    refine advanceAll_parenthesized_items .plain [head] hroom ?_
    rw [advanceAll_append_of_ok hfirst]
    simp only [finish, Waiting.take, hplain']
    exact hrest
  | @quoteForm ts e lexeme hforms he =>
    have hinner := advanceAll_of_derives he (.quoted :: around)
      (hroom.mono (by simp only [Expr.depth, List.length_cons]; omega)) (by simp)
    refine advanceAll_parenthesized hroom ?_ (advance_closing_closing _)
    rw [advanceAll_cons_of_ok (advance_headQuote hforms lexeme), hinner]
    rfl
  | @setq t ts name value lexeme hforms hname hvalue =>
    have hinner := advanceAll_of_derives hvalue (.setqValue name :: around)
      (hroom.mono (by simp only [Expr.depth, List.length_cons]; omega)) (by simp)
    refine advanceAll_parenthesized hroom ?_ (advance_closing_closing _)
    rw [advanceAll_cons_of_ok
        (advance_headKeyword (by decide) hforms Innermost.ofHead_setq lexeme),
      advanceAll_cons_of_ok (advance_setqName hname), hinner]
    rfl
  | @condTwo ts us test yes lexeme hforms htest hyes =>
    have hfirst := advanceAll_of_derives htest (.condTest :: around)
      (hroom.mono (by simp only [Expr.depth, List.length_cons]; omega)) (by simp)
    have hsecond := advanceAll_of_derives hyes (.condYes test :: around)
      (hroom.mono (by simp only [Expr.depth, List.length_cons]; omega)) (by simp)
    refine advanceAll_parenthesized hroom ?_ (advance_condNo_closing test yes)
    rw [advanceAll_cons_of_ok
        (advance_headKeyword (by decide) hforms Innermost.ofHead_cond lexeme)]
    exact (advanceAll_append_of_ok hfirst us).trans hsecond
  | @condThree ts us vs test yes no lexeme hforms htest hyes hno =>
    have hfirst := advanceAll_of_derives htest (.condTest :: around)
      (hroom.mono (by simp only [Expr.depth, List.length_cons]; omega)) (by simp)
    have hsecond := advanceAll_of_derives hyes (.condYes test :: around)
      (hroom.mono (by simp only [Expr.depth, List.length_cons]; omega)) (by simp)
    have hthird := advanceAll_of_derives hno (.condNo test yes :: around)
      (hroom.mono (by simp only [Expr.depth, List.length_cons]; omega)) (by simp)
    refine advanceAll_parenthesized hroom ?_ (advance_closing_closing _)
    rw [advanceAll_cons_of_ok
        (advance_headKeyword (by decide) hforms Innermost.ofHead_cond lexeme), List.append_assoc]
    have hlast := (advanceAll_append_of_ok hsecond vs).trans hthird
    exact (advanceAll_append_of_ok hfirst (us ++ vs)).trans hlast
  | @func t ps ts name parameters body lexeme hforms hname hparameters hbody =>
    have hrest := advanceAll_items_of_derivesAll hbody around (.func name parameters) []
      (hroom.mono (by simp only [Expr.depth]; omega))
    refine advanceAll_parenthesized_items (.func name parameters) [] hroom ?_
    rw [advanceAll_cons_of_ok
        (advance_headKeyword (by decide) hforms Innermost.ofHead_func lexeme),
      advanceAll_cons_of_ok (advance_funcName hname), advanceAll_parameterList hparameters]
    exact hrest
  | @lambda ps ts parameters body lexeme hforms hparameters hbody =>
    have hinner := advanceAll_of_derives hbody (.lambdaBody parameters :: around)
      (hroom.mono (by simp only [Expr.depth, List.length_cons]; omega)) (by simp)
    refine advanceAll_parenthesized hroom ?_ (advance_closing_closing _)
    rw [advanceAll_cons_of_ok
        (advance_headKeyword (by decide) hforms Innermost.ofHead_lambda lexeme),
      advanceAll_parameterList hparameters]
    exact hinner
  | @prog ps ts parameters body lexeme hforms hparameters hbody =>
    have hrest := advanceAll_items_of_derivesAll hbody around (.prog parameters) []
      (hroom.mono (by simp only [Expr.depth]; omega))
    refine advanceAll_parenthesized_items (.prog parameters) [] hroom ?_
    rw [advanceAll_cons_of_ok
        (advance_headKeyword (by decide) hforms Innermost.ofHead_prog lexeme),
      advanceAll_parameterList hparameters]
    exact hrest
  | @whileLoop ts us condition body lexeme hforms hcondition hbody =>
    have hfirst := advanceAll_of_derives hcondition (.whileCondition :: around)
      (hroom.mono (by simp only [Expr.depth, List.length_cons]; omega)) (by simp)
    have hrest := advanceAll_items_of_derivesAll hbody around (.whileLoop condition) []
      (hroom.mono (by simp only [Expr.depth]; omega))
    refine advanceAll_parenthesized_items (.whileLoop condition) [] hroom ?_
    rw [advanceAll_cons_of_ok
        (advance_headKeyword (by decide) hforms Innermost.ofHead_whileLoop lexeme)]
    exact (advanceAll_append_of_ok hfirst us).trans hrest
  | @call k ts arguments lexeme hforms hk harguments =>
    have hkquote : k ≠ .quote := by
      rintro rfl
      simp [Keyword.builtInFunctions] at hk
    have hrest := advanceAll_items_of_derivesAll harguments around (.call k.word) []
      (hroom.mono (by simp only [Expr.depth]; omega))
    refine advanceAll_parenthesized_items (.call k.word) [] hroom ?_
    rw [advanceAll_cons_of_ok
        (advance_headKeyword hkquote hforms (Innermost.ofHead_builtIn hk) lexeme)]
    exact hrest
  | @lambdaCall ts us parameters body arguments hforms hhead' harguments =>
    -- The lambda expression is no part of the tree, so that it is smaller has to be said.
    have hsmaller := Expr.sizeOf_lambda_lt parameters body arguments
    have hquote : beginsWithQuoteWord ts = false := by
      cases hhead'
      rfl
    have hfirst := advanceAll_of_derives hhead' (.head :: around)
      (hroom.mono (by simp only [Expr.depth, List.length_cons]; omega)) (fun _ _ => hquote)
    have hrest := advanceAll_items_of_derivesAll harguments around
      (.lambdaCall parameters body) []
      (hroom.mono (by simp only [Expr.depth]; omega))
    refine advanceAll_parenthesized_items (.lambdaCall parameters body) [] hroom ?_
    rw [advanceAll_append_of_ok hfirst]
    simp only [finish, Waiting.take, Innermost.ofHead, hforms, if_true]
    exact hrest
termination_by sizeOf e

theorem advanceAll_items_of_derivesAll {ts : List Token} {es : List Expr}
    (h : DerivesAll rules.readsForms ts es) (around : List Waiting) (sequence : OpenEnded)
    (itemsRev : List Expr) (hroom : rules.HasRoom (around.length + 1 + Expr.depthAll es)) :
    (awaiting doneRev (.items sequence itemsRev :: around)).advanceAll rules ts =
      .ok (awaiting doneRev (.items sequence (es.reverse ++ itemsRev) :: around)) := by
  cases h with
  | nil => rfl
  | @cons ts us e es he hes =>
    have hfirst := advanceAll_of_derives he (.items sequence itemsRev :: around)
      (hroom.mono (by simp only [Expr.depthAll, List.length_cons]; omega)) (by simp)
    have hrest := advanceAll_items_of_derivesAll hes around sequence
      (e :: itemsRev) (hroom.mono (by simp only [Expr.depthAll]; omega))
    rw [advanceAll_append_of_ok hfirst]
    simpa [finish, Waiting.take, awaiting] using hrest
termination_by sizeOf es

end

/-- At the top level a sequence of expressions is added to what is finished. -/
theorem advanceAll_topLevel_of_derivesAll {ts : List Token} {es : List Expr}
    (h : DerivesAll rules.readsForms ts es) (doneRev : List Expr)
    (hroom : rules.HasRoom (Expr.depthAll es)) :
    (topLevel doneRev).advanceAll rules ts = .ok (topLevel (es.reverse ++ doneRev)) := by
  induction es generalizing ts doneRev with
  | nil =>
    cases h
    rfl
  | cons e es ih =>
    cases h with
    | @cons ts us _ _ he hes =>
      have hroom' : rules.HasRoom (List.length ([] : List Waiting) + e.depth) :=
        hroom.mono (by simp only [Expr.depthAll, List.length_nil]; omega)
      have hfirst : (topLevel doneRev).advanceAll rules ts = .ok (topLevel (e :: doneRev)) :=
        advanceAll_of_derives he [] hroom' (by simp)
      rw [advanceAll_append_of_ok hfirst,
        ih hes (e :: doneRev) (hroom.mono (by simp only [Expr.depthAll]; omega))]
      simp

end Unfinished
end SmallLisp
