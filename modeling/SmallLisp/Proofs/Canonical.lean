import SmallLisp.Proofs.Recognition

/-!
# Which trees can be read

Not every tree is the result of reading a text: a name may be no name, a list may be headed like
a form, a string has no spelling.  What remains is a condition on the tree alone.

* `Expr.isRegular`: what the grammar asks of the shape of a tree and of its names.
* `Expr.reals`: the reals in a tree.  A literal beyond the range of doubles is read as infinity,
  so the grammar asks nothing of them; but an infinity cannot be written down again.
* `Program.isCanonical`: a regular tree of finite reals, nested no deeper than the limit.

What is read is regular (`Derives.isRegular`), and its reals are those of the tokens, in the
same order (`Derives.reals_eq`).
-/

namespace SmallLisp

/-! ## Names -/

/-- Whether a name is a word that is not reserved in any case. -/
def isFreeWord (name : String) : Bool :=
  isWord name.toList && (TokenKind.ofWord? name.toList).isNone

/-- Whether a name can stand for an expression: a word that is not reserved, or the canonical name
of a keyword other than `quote`. -/
def isIdentifierName (name : String) : Bool :=
  isFreeWord name || (Keyword.ofName? name).any (· != .quote)

/-- Whether a name can be that of a variable, a function or a parameter: a word that is not
reserved, or a reserved word under its canonical name. -/
def isName (name : String) : Bool :=
  isFreeWord name || (Keyword.ofName? name).isSome || name == booleanWord true ||
    name == booleanWord false

theorem isFreeWord_ofList {letters : List Char} (hword : isWord letters = true)
    (hfree : TokenKind.ofWord? letters = none) : isFreeWord (String.ofList letters) = true := by
  simp [isFreeWord, hword, hfree]

theorem isName_word (k : Keyword) : isName k.word = true := by
  simp [isName, Keyword.ofName?_word]

theorem isName_booleanWord (b : Bool) : isName (booleanWord b) = true := by
  cases b <;> simp [isName]

/-- A token of a text that can stand for a name stands for one that can be written. -/
theorem Token.Names.isName {t : Token} {name : String} (h : t.Names name) (ht : t.Scanned) :
    isName name = true := by
  cases h with
  | boolean b => exact isName_booleanWord b
  | keyword k lexeme => exact isName_word k
  | identifier =>
    cases ht with
    | identifier hword hfree => simp [SmallLisp.isName, isFreeWord_ofList hword hfree]

theorem ParameterList.all_isName {ts : List Token} {names : List String}
    (h : ParameterList ts names) (hts : ∀ t ∈ ts, t.Scanned) : names.all isName = true := by
  obtain ⟨us, rfl, hnames⟩ := h
  have hus : ∀ t ∈ us, t.Scanned := fun t ht => hts t (by simp [Token.parenthesized, ht])
  clear hts
  induction hnames with
  | nil => rfl
  | @cons t name us names ht _ ih =>
    have hname := ht.isName (hus t List.mem_cons_self)
    rw [List.all_cons, hname, ih fun t ht => hus t (List.mem_cons_of_mem _ ht)]
    rfl

/-! ## Regular trees -/

mutual

/-- Whether a tree has the shape of something read.  In a dialect without forms there are
only atoms, lists and quotations; in a dialect with forms a plain list must not be headed like
one of them. -/
def Expr.isRegular (readsForms : Bool) : Expr → Bool
  | .integer _ => true
  | .real _ => true
  | .boolean _ => true
  | .identifier name => isIdentifierName name
  | .string _ => false
  | .list items =>
    !(readsForms && items.head?.any Expr.headsForm) && isRegularAll readsForms items
  | .call function arguments =>
    readsForms && Keyword.builtInFunctions.any (fun k => k.word == function) &&
      isRegularAll readsForms arguments
  | .quote e => e.isRegular readsForms
  | .setq name value => readsForms && isName name && value.isRegular readsForms
  | .cond test yes none =>
    readsForms && test.isRegular readsForms && yes.isRegular readsForms
  | .cond test yes (some no) =>
    readsForms && test.isRegular readsForms && yes.isRegular readsForms &&
      no.isRegular readsForms
  | .func name parameters body =>
    readsForms && isName name && parameters.all isName && isRegularAll readsForms body
  | .lambda parameters body =>
    readsForms && parameters.all isName && body.isRegular readsForms
  | .lambdaCall parameters body arguments =>
    readsForms && parameters.all isName && body.isRegular readsForms &&
      isRegularAll readsForms arguments
  | .prog parameters body =>
    readsForms && parameters.all isName && isRegularAll readsForms body
  | .whileLoop condition body =>
    readsForms && condition.isRegular readsForms && isRegularAll readsForms body

/-- Whether all trees of a sequence are regular. -/
def Expr.isRegularAll (readsForms : Bool) : List Expr → Bool
  | [] => true
  | e :: es => e.isRegular readsForms && isRegularAll readsForms es

end

mutual

/-- The reals in a tree, from left to right. -/
def Expr.reals : Expr → List Binary64
  | .integer _ => []
  | .real x => [x]
  | .boolean _ => []
  | .identifier _ => []
  | .string _ => []
  | .list items => realsAll items
  | .call _ arguments => realsAll arguments
  | .quote e => e.reals
  | .setq _ value => value.reals
  | .cond test yes none => test.reals ++ yes.reals
  | .cond test yes (some no) => test.reals ++ yes.reals ++ no.reals
  | .func _ _ body => realsAll body
  | .lambda _ body => body.reals
  | .lambdaCall _ body arguments => body.reals ++ realsAll arguments
  | .prog _ body => realsAll body
  | .whileLoop condition body => condition.reals ++ realsAll body

/-- The reals in a sequence of trees. -/
def Expr.realsAll : List Expr → List Binary64
  | [] => []
  | e :: es => e.reals ++ realsAll es

end

/-- The reals in a program. -/
def Program.reals (p : Program) : List Binary64 := Expr.realsAll p.expressions

/-- **Whether a program can be written and read again** in a dialect: it is regular, its reals are
finite, and it is nested no deeper than the limit. -/
def Program.isCanonical (d : Dialect) (p : Program) : Bool :=
  Expr.isRegularAll d.readsForms p.expressions && p.reals.all Binary64.isFinite &&
    decide (p.depth ≤ nestingLimit)

theorem Program.isCanonical_iff {d : Dialect} {p : Program} :
    p.isCanonical d = true ↔ Expr.isRegularAll d.readsForms p.expressions = true ∧
      (∀ x ∈ p.reals, x.isFinite = true) ∧ p.depth ≤ nestingLimit := by
  simp [isCanonical, and_assoc]

theorem Expr.isRegular_of_mem {readsForms : Bool} {es : List Expr} {e : Expr}
    (h : isRegularAll readsForms es = true) (he : e ∈ es) : e.isRegular readsForms = true := by
  induction es with
  | nil => cases he
  | cons first es ih =>
    rw [isRegularAll, Bool.and_eq_true] at h
    rcases List.mem_cons.1 he with rfl | he
    · exact h.1
    · exact ih h.2 he

theorem Program.isCanonical_cons {d : Dialect} {e : Expr} {es : List Expr} :
    isCanonical d ⟨e :: es⟩ = true ↔ isCanonical d ⟨[e]⟩ = true ∧ isCanonical d ⟨es⟩ = true := by
  simp only [isCanonical_iff, Expr.isRegularAll, reals, Expr.realsAll, depth, Expr.depthAll,
    Bool.and_eq_true, List.append_nil, List.forall_mem_append, Nat.max_le, Nat.zero_le, and_true]
  constructor
  · rintro ⟨⟨he, hes⟩, ⟨hreals, hreals'⟩, hdepth, hdepth'⟩
    exact ⟨⟨he, hreals, hdepth⟩, hes, hreals', hdepth'⟩
  · rintro ⟨⟨he, hreals, hdepth⟩, hes, hreals', hdepth'⟩
    exact ⟨⟨he, hes⟩, ⟨hreals, hreals'⟩, hdepth, hdepth'⟩

/-- The expressions of a canonical program are canonical. -/
theorem Program.isCanonical_of_mem {d : Dialect} {es : List Expr} {e : Expr}
    (h : isCanonical d ⟨es⟩ = true) (he : e ∈ es) : isCanonical d ⟨[e]⟩ = true := by
  induction es with
  | nil => cases he
  | cons first es ih =>
    rw [isCanonical_cons] at h
    rcases List.mem_cons.1 he with rfl | he
    · exact h.1
    · exact ih h.2 he

/-! ## What is read is regular -/

variable {readsForms : Bool}

mutual

/-- What the grammar derives from the tokens of a text is regular. -/
theorem Derives.isRegular {ts : List Token} {e : Expr} (h : Derives readsForms ts e)
    (hts : ∀ t ∈ ts, t.Scanned) : e.isRegular readsForms = true := by
  -- Names are names because their tokens come from a text; all else is regular by its parts.
  cases h with
  | integer n => rfl
  | real x => rfl
  | boolean b => rfl
  | identifier hname =>
    cases hts _ List.mem_cons_self with
    | identifier hword hfree =>
      simp [Expr.isRegular, isIdentifierName, isFreeWord_ofList hword hfree]
  | keyword lexeme hk =>
    simp [Expr.isRegular, isIdentifierName, Keyword.ofName?_word, hk]
  | quotation hq he =>
    exact he.isRegular fun t ht => hts t (List.mem_cons_of_mem _ ht)
  | emptyList => simp [Expr.isRegular, Expr.isRegularAll]
  | @list ts us head items hplain hhead hitems =>
    have hfirst := hhead.isRegular fun t ht => hts t (by simp [Token.parenthesized, ht])
    have hrest := hitems.isRegularAll fun t ht => hts t (by simp [Token.parenthesized, ht])
    have hform : (readsForms && head.headsForm) = false := by
      cases readsForms with
      | false => rfl
      | true => exact (hplain rfl).2
    simp [Expr.isRegular, Expr.isRegularAll, hform, hfirst, hrest]
  | quoteForm lexeme hforms he =>
    exact he.isRegular fun t ht => hts t (by simp [Token.parenthesized, ht])
  | setq lexeme hforms hname hvalue =>
    have hname := hname.isName (hts _ (by simp [Token.parenthesized]))
    have hvalue := hvalue.isRegular fun t ht => hts t (by simp [Token.parenthesized, ht])
    simpa only [Expr.isRegular, hname, hvalue, Bool.and_true] using hforms
  | condTwo lexeme hforms htest hyes =>
    have htest := htest.isRegular fun t ht => hts t (by simp [Token.parenthesized, ht])
    have hyes := hyes.isRegular fun t ht => hts t (by simp [Token.parenthesized, ht])
    simpa only [Expr.isRegular, htest, hyes, Bool.and_true] using hforms
  | condThree lexeme hforms htest hyes hno =>
    have htest := htest.isRegular fun t ht => hts t (by simp [Token.parenthesized, ht])
    have hyes := hyes.isRegular fun t ht => hts t (by simp [Token.parenthesized, ht])
    have hno := hno.isRegular fun t ht => hts t (by simp [Token.parenthesized, ht])
    simpa only [Expr.isRegular, htest, hyes, hno, Bool.and_true] using hforms
  | func lexeme hforms hname hparameters hbody =>
    have hname := hname.isName (hts _ (by simp [Token.parenthesized]))
    have hparameters := hparameters.all_isName fun t ht =>
      hts t (by simp [Token.parenthesized, ht])
    have hbody := hbody.isRegularAll fun t ht => hts t (by simp [Token.parenthesized, ht])
    simpa only [Expr.isRegular, hname, hparameters, hbody, Bool.and_true] using hforms
  | lambda lexeme hforms hparameters hbody =>
    have hparameters := hparameters.all_isName fun t ht =>
      hts t (by simp [Token.parenthesized, ht])
    have hbody := hbody.isRegular fun t ht => hts t (by simp [Token.parenthesized, ht])
    simpa only [Expr.isRegular, hparameters, hbody, Bool.and_true] using hforms
  | prog lexeme hforms hparameters hbody =>
    have hparameters := hparameters.all_isName fun t ht =>
      hts t (by simp [Token.parenthesized, ht])
    have hbody := hbody.isRegularAll fun t ht => hts t (by simp [Token.parenthesized, ht])
    simpa only [Expr.isRegular, hparameters, hbody, Bool.and_true] using hforms
  | whileLoop lexeme hforms hcondition hbody =>
    have hcondition := hcondition.isRegular fun t ht =>
      hts t (by simp [Token.parenthesized, ht])
    have hbody := hbody.isRegularAll fun t ht => hts t (by simp [Token.parenthesized, ht])
    simpa only [Expr.isRegular, hcondition, hbody, Bool.and_true] using hforms
  | @call k ts arguments lexeme hforms hk harguments =>
    have hany : (Keyword.builtInFunctions.any fun j => j.word == k.word) = true :=
      List.any_eq_true.2 ⟨k, hk, beq_self_eq_true _⟩
    have harguments := harguments.isRegularAll fun t ht =>
      hts t (by simp [Token.parenthesized, ht])
    simpa only [Expr.isRegular, hany, harguments, Bool.and_true] using hforms
  | @lambdaCall ts us parameters body arguments hforms hhead harguments =>
    have hsmaller := Expr.sizeOf_lambda_lt parameters body arguments
    have hhead := hhead.isRegular fun t ht => hts t (by simp [Token.parenthesized, ht])
    have harguments := harguments.isRegularAll fun t ht =>
      hts t (by simp [Token.parenthesized, ht])
    simp only [Expr.isRegular] at hhead ⊢
    rw [hhead, harguments, Bool.and_self]
termination_by sizeOf e

theorem DerivesAll.isRegularAll {ts : List Token} {es : List Expr}
    (h : DerivesAll readsForms ts es) (hts : ∀ t ∈ ts, t.Scanned) :
    Expr.isRegularAll readsForms es = true := by
  cases h with
  | nil => rfl
  | cons he hes =>
    have hfirst := he.isRegular fun t ht => hts t (List.mem_append_left _ ht)
    have hrest := hes.isRegularAll fun t ht => hts t (List.mem_append_right _ ht)
    rw [Expr.isRegularAll, hfirst, hrest, Bool.and_self]
termination_by sizeOf es

end

/-! ## The reals of what is read -/

/-- The real that a token carries, if it carries one. -/
def Token.real? (t : Token) : Option Binary64 :=
  match t.literal with
  | some (.number (.real x)) => some x
  | _ => none

namespace Token

@[simp] theorem filterMap_real?_parenthesized (ts : List Token) :
    (parenthesized ts).filterMap real? = ts.filterMap real? := by
  rw [parenthesized, List.filterMap_cons_none rfl, List.filterMap_append]
  exact List.append_nil _

@[simp] theorem filterMap_real?_word (kind : TokenKind) (lexeme : String) (ts : List Token) :
    (word kind lexeme :: ts).filterMap real? = ts.filterMap real? :=
  List.filterMap_cons_none rfl

theorem Names.real?_eq_none {t : Token} {name : String} (h : t.Names name) : t.real? = none := by
  cases h <;> rfl

theorem Scanned.real?_eq_none {t : Token} {k : Keyword} (ht : t.Scanned)
    (hkind : t.kind = .keyword k) : t.real? = none := by
  cases ht with
  | real hx => simp at hkind
  | _ => rfl

end Token

theorem ParameterList.filterMap_real? {ts : List Token} {names : List String}
    (h : ParameterList ts names) : ts.filterMap Token.real? = [] := by
  obtain ⟨us, rfl, hnames⟩ := h
  rw [Token.filterMap_real?_parenthesized]
  induction hnames with
  | nil => rfl
  | cons ht _ ih => rw [List.filterMap_cons_none ht.real?_eq_none, ih]

mutual

/-- The reals that are read are those of the tokens, in the same order. -/
theorem Derives.reals_eq {ts : List Token} {e : Expr} (h : Derives readsForms ts e)
    (hts : ∀ t ∈ ts, t.Scanned) : e.reals = ts.filterMap Token.real? := by
  -- Names, keywords and parentheses carry no reals, so only the parts contribute, in their order.
  cases h with
  | integer n => rfl
  | real x => rfl
  | boolean b => rfl
  | identifier hname => rfl
  | keyword lexeme hk => rfl
  | quotation hq he =>
    have hnone := (hts _ List.mem_cons_self).real?_eq_none hq
    rw [List.filterMap_cons_none hnone]
    exact he.reals_eq fun t ht => hts t (List.mem_cons_of_mem _ ht)
  | emptyList => rfl
  | list hplain hhead hitems =>
    have hfirst := hhead.reals_eq fun t ht => hts t (by simp [Token.parenthesized, ht])
    have hrest := hitems.realsAll_eq fun t ht => hts t (by simp [Token.parenthesized, ht])
    simp [Expr.reals, Expr.realsAll, hfirst, hrest]
  | quoteForm lexeme hforms he =>
    have he := he.reals_eq fun t ht => hts t (by simp [Token.parenthesized, ht])
    simp [Expr.reals, he]
  | setq lexeme hforms hname hvalue =>
    have hvalue := hvalue.reals_eq fun t ht => hts t (by simp [Token.parenthesized, ht])
    simp [Expr.reals, List.filterMap_cons_none hname.real?_eq_none, hvalue]
  | condTwo lexeme hforms htest hyes =>
    have htest := htest.reals_eq fun t ht => hts t (by simp [Token.parenthesized, ht])
    have hyes := hyes.reals_eq fun t ht => hts t (by simp [Token.parenthesized, ht])
    simp [Expr.reals, htest, hyes]
  | condThree lexeme hforms htest hyes hno =>
    have htest := htest.reals_eq fun t ht => hts t (by simp [Token.parenthesized, ht])
    have hyes := hyes.reals_eq fun t ht => hts t (by simp [Token.parenthesized, ht])
    have hno := hno.reals_eq fun t ht => hts t (by simp [Token.parenthesized, ht])
    simp [Expr.reals, htest, hyes, hno]
  | func lexeme hforms hname hparameters hbody =>
    have hbody := hbody.realsAll_eq fun t ht => hts t (by simp [Token.parenthesized, ht])
    simp [Expr.reals, List.filterMap_cons_none hname.real?_eq_none,
      hparameters.filterMap_real?, hbody]
  | lambda lexeme hforms hparameters hbody =>
    have hbody := hbody.reals_eq fun t ht => hts t (by simp [Token.parenthesized, ht])
    simp [Expr.reals, hparameters.filterMap_real?, hbody]
  | prog lexeme hforms hparameters hbody =>
    have hbody := hbody.realsAll_eq fun t ht => hts t (by simp [Token.parenthesized, ht])
    simp [Expr.reals, hparameters.filterMap_real?, hbody]
  | whileLoop lexeme hforms hcondition hbody =>
    have hcondition := hcondition.reals_eq fun t ht =>
      hts t (by simp [Token.parenthesized, ht])
    have hbody := hbody.realsAll_eq fun t ht => hts t (by simp [Token.parenthesized, ht])
    simp [Expr.reals, hcondition, hbody]
  | call lexeme hforms hk harguments =>
    have harguments := harguments.realsAll_eq fun t ht =>
      hts t (by simp [Token.parenthesized, ht])
    simp [Expr.reals, harguments]
  | @lambdaCall ts us parameters body arguments hforms hhead harguments =>
    have hsmaller := Expr.sizeOf_lambda_lt parameters body arguments
    have hhead := hhead.reals_eq fun t ht => hts t (by simp [Token.parenthesized, ht])
    have harguments := harguments.realsAll_eq fun t ht =>
      hts t (by simp [Token.parenthesized, ht])
    simp only [Expr.reals] at hhead
    simp [Expr.reals, hhead, harguments]
termination_by sizeOf e

theorem DerivesAll.realsAll_eq {ts : List Token} {es : List Expr}
    (h : DerivesAll readsForms ts es) (hts : ∀ t ∈ ts, t.Scanned) :
    Expr.realsAll es = ts.filterMap Token.real? := by
  cases h with
  | nil => rfl
  | cons he hes =>
    have hfirst := he.reals_eq fun t ht => hts t (List.mem_append_left _ ht)
    have hrest := hes.realsAll_eq fun t ht => hts t (List.mem_append_right _ ht)
    rw [Expr.realsAll, hfirst, hrest, List.filterMap_append]
termination_by sizeOf es

end

/-- A real that is read is no NaN, since no token is one. -/
theorem DerivesAll.isNaN_eq_false {ts : List Token} {es : List Expr} {x : Binary64}
    (h : DerivesAll readsForms ts es) (hts : ∀ t ∈ ts, t.Scanned)
    (hx : x ∈ Expr.realsAll es) : x.isNaN = false := by
  rw [h.realsAll_eq hts, List.mem_filterMap] at hx
  obtain ⟨t, ht, hreal⟩ := hx
  cases hts t ht with
  | real hx =>
    cases hreal
    exact hx
  | _ => cases hreal

end SmallLisp
