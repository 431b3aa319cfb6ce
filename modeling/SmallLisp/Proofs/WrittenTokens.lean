import SmallLisp.Proofs.RoundTrip

/-!
# The tokens that are written are those that were read

A program that was read and written again could be equal to itself and still have lost something:
reading and writing might leave out the same parts.  Here the text that is written is compared
with the source text, token by token.  The two have the same tokens, but for two differences of
spelling, and each token of the source is accounted for once and in its place:

* a keyword is written under its canonical name (`Token.canonical`);
* a quotation is written with the tick, also where it was read from the word `quote`
  (`Token.withTick`).

In a dialect with forms the list `(quote x)` is a quotation as a whole, so its parentheses are not
written.  The comparison is therefore made for texts without the word `quote`, and in a dialect of
plain lists for every text.
-/

namespace SmallLisp

/-! ## Spellings that are not kept -/

namespace Token

/-- The token with a keyword under its canonical name. -/
def canonical (t : Token) : Token :=
  match t.kind, t.literal with
  | .keyword k, some (.text _) => word (.keyword k) k.word
  | _, _ => t

/-- The token with the tick in place of the word `quote`. -/
def withTick (t : Token) : Token := if t.isQuoteKeyword then plain (.keyword .quote) else t

/-- The token as it is written for what it is read as. -/
def normal (t : Token) : Token := t.withTick.canonical

variable {t : Token}

theorem withTick_of_isQuoteKeyword (h : t.isQuoteKeyword = false) : t.withTick = t := by
  simp [withTick, h]

@[simp] theorem normal_opening : opening.normal = opening := rfl

@[simp] theorem normal_closing : closing.normal = closing := rfl

@[simp] theorem normal_boolean (b : Bool) : (boolean b).normal = boolean b := rfl

@[simp] theorem normal_identifier (name : String) :
    (identifier name).normal = identifier name := rfl

@[simp] theorem normal_number (n : Number) : (number n).normal = number n := by
  cases n <;> rfl

theorem normal_word_keyword {k : Keyword} (hk : k ≠ .quote) (lexeme : String) :
    (word (.keyword k) lexeme).normal = word (.keyword k) k.word := by
  have hquote : (word (.keyword k) lexeme).isQuoteKeyword = false := by
    simp [isQuoteKeyword, word, hk]
  rw [normal, withTick_of_isQuoteKeyword hquote]
  rfl

/-- Both spellings of a quotation are written as the tick. -/
theorem Scanned.normal_of_quote (ht : t.Scanned) (hkind : t.kind = .keyword .quote) :
    t.normal = plain (.keyword .quote) := by
  cases ht with
  | tick => rfl
  | keyword hword hkeyword =>
    simp only [kind_word, TokenKind.keyword.injEq] at hkind
    subst hkind
    rfl
  | _ => simp at hkind

theorem map_normal_parenthesized (ts : List Token) :
    (parenthesized ts).map normal = parenthesized (ts.map normal) := by
  simp [parenthesized]

/-- A token of a text that, in a dialect with forms, does not have the word `quote`. -/
def Unquoted (readsForms : Bool) (t : Token) : Prop :=
  t.Scanned ∧ (readsForms = true → t.isQuoteKeyword = false)

/-- A name is written as its token, in the canonical spelling. -/
theorem Names.token_eq_normal {readsForms : Bool} {name : String} (h : t.Names name)
    (hforms : readsForms = true) (ht : t.Unquoted readsForms) :
    (Piece.ofString name).token = t.normal := by
  obtain ⟨ht, hquote⟩ := ht
  replace hquote := hquote hforms
  cases h with
  | identifier =>
    cases ht with
    | identifier hword hfree =>
      rw [Piece.token_of_isFreeWord (isFreeWord_ofList hword hfree), normal_identifier]
  | boolean b => rw [Piece.token_booleanWord, normal_boolean]
  | keyword k lexeme =>
    have hk : k ≠ .quote := by
      rintro rfl
      simp [isQuoteKeyword, word] at hquote
    rw [Piece.token_keyword, normal_word_keyword hk]

end Token

theorem ParameterList.map_token_ofNames {readsForms : Bool} {ts : List Token}
    {names : List String} (h : ParameterList ts names) (hforms : readsForms = true)
    (hts : ∀ t ∈ ts, t.Unquoted readsForms) :
    (Piece.ofNames names).map Piece.token = ts.map Token.normal := by
  obtain ⟨us, rfl, hnames⟩ := h
  replace hts : ∀ t ∈ us, t.Unquoted readsForms :=
    fun t ht => hts t (by simp [Token.parenthesized, ht])
  rw [Piece.ofNames, Piece.map_token_enclosed, Token.map_normal_parenthesized, List.map_map]
  congr 1
  induction hnames with
  | nil => rfl
  | @cons t name us names hname _ ih =>
    rw [List.forall_mem_cons] at hts
    rw [List.map_cons, List.map_cons, Function.comp_apply, hname.token_eq_normal hforms hts.1,
      ih hts.2]

/-! ## The pieces of what is read -/

variable {readsForms : Bool}

mutual

/-- An expression is written with the tokens it is derived from, in their normal spelling. -/
theorem Derives.map_token_pieces {ts : List Token} {e : Expr} (h : Derives readsForms ts e)
    (hts : ∀ t ∈ ts, t.Unquoted readsForms) (hfinite : ∀ x ∈ e.reals, x.isFinite = true) :
    e.pieces.map Piece.token = ts.map Token.normal := by
  cases h with
  | integer n =>
    have htoken : (Piece.word (Numeral.ofInteger n)).token = .number (.integer n) :=
      Piece.token_number (n := .integer n) rfl
    simp [Expr.pieces, htoken]
  | real x =>
    have htoken : (Piece.word x.text).token = .number (.real x) :=
      Piece.token_number (n := .real x) (hfinite x (by simp [Expr.reals]))
    simp [Expr.pieces, htoken]
  | boolean b => simp [Expr.pieces, Piece.token_booleanWord]
  | identifier hname =>
    cases (hts _ List.mem_cons_self).1 with
    | identifier hword hfree =>
      simp [Expr.pieces, Piece.token_of_isFreeWord (isFreeWord_ofList hword hfree)]
  | keyword lexeme hk => simp [Expr.pieces, Piece.token_keyword, Token.normal_word_keyword hk]
  | quotation hq he =>
    have htick := (hts _ List.mem_cons_self).1.normal_of_quote hq
    have he := he.map_token_pieces (fun t ht => hts t (List.mem_cons_of_mem _ ht)) hfinite
    rw [Expr.pieces, List.map_cons, List.map_cons, he, htick]
    rfl
  | emptyList => rfl
  | list hplain hhead hitems =>
    simp only [Expr.reals, Expr.realsAll, List.forall_mem_append] at hfinite
    have hhead := hhead.map_token_pieces
      (fun t ht => hts t (by simp [Token.parenthesized, ht])) hfinite.1
    have hitems := hitems.map_token_piecesAll
      (fun t ht => hts t (by simp [Token.parenthesized, ht])) hfinite.2
    rw [Expr.pieces, Piece.map_token_enclosed, Token.map_normal_parenthesized, Expr.piecesAll,
      List.map_append, List.map_append, hhead, hitems]
  -- The case that cannot be: the word `quote` is not among the tokens.
  | quoteForm lexeme hforms he =>
    have hword := (hts (.word (.keyword .quote) lexeme) (by simp [Token.parenthesized])).2 hforms
    simp [Token.isQuoteKeyword, Token.word] at hword
  | setq lexeme hforms hname hvalue =>
    have hname := hname.token_eq_normal hforms (hts _ (by simp [Token.parenthesized]))
    have hvalue := hvalue.map_token_pieces
      (fun t ht => hts t (by simp [Token.parenthesized, ht])) hfinite
    rw [Expr.pieces, Piece.map_token_enclosed, Token.map_normal_parenthesized]
    simp [Piece.token_keyword, Token.normal_word_keyword, hname, hvalue]
  | condTwo lexeme hforms htest hyes =>
    simp only [Expr.reals, List.forall_mem_append] at hfinite
    have htest := htest.map_token_pieces
      (fun t ht => hts t (by simp [Token.parenthesized, ht])) hfinite.1
    have hyes := hyes.map_token_pieces
      (fun t ht => hts t (by simp [Token.parenthesized, ht])) hfinite.2
    rw [Expr.pieces, List.cons_append, Piece.map_token_enclosed, Token.map_normal_parenthesized]
    simp [Piece.token_keyword, Token.normal_word_keyword, htest, hyes]
  | condThree lexeme hforms htest hyes hno =>
    simp only [Expr.reals, List.forall_mem_append] at hfinite
    have htest := htest.map_token_pieces
      (fun t ht => hts t (by simp [Token.parenthesized, ht])) hfinite.1.1
    have hyes := hyes.map_token_pieces
      (fun t ht => hts t (by simp [Token.parenthesized, ht])) hfinite.1.2
    have hno := hno.map_token_pieces
      (fun t ht => hts t (by simp [Token.parenthesized, ht])) hfinite.2
    rw [Expr.pieces, List.cons_append, List.cons_append, Piece.map_token_enclosed,
      Token.map_normal_parenthesized]
    simp [Piece.token_keyword, Token.normal_word_keyword, htest, hyes, hno]
  | func lexeme hforms hname hparameters hbody =>
    have hname := hname.token_eq_normal hforms (hts _ (by simp [Token.parenthesized]))
    have hparameters := hparameters.map_token_ofNames hforms
      fun t ht => hts t (by simp [Token.parenthesized, ht])
    have hbody := hbody.map_token_piecesAll
      (fun t ht => hts t (by simp [Token.parenthesized, ht])) hfinite
    rw [Expr.pieces, List.cons_append, Piece.map_token_enclosed, Token.map_normal_parenthesized]
    simp [Piece.token_keyword, Token.normal_word_keyword, hname, hparameters, hbody]
  | lambda lexeme hforms hparameters hbody =>
    have hparameters := hparameters.map_token_ofNames hforms
      fun t ht => hts t (by simp [Token.parenthesized, ht])
    have hbody := hbody.map_token_pieces
      (fun t ht => hts t (by simp [Token.parenthesized, ht])) hfinite
    rw [Expr.pieces, List.cons_append, Piece.map_token_enclosed, Token.map_normal_parenthesized]
    simp [Piece.token_keyword, Token.normal_word_keyword, hparameters, hbody]
  | prog lexeme hforms hparameters hbody =>
    have hparameters := hparameters.map_token_ofNames hforms
      fun t ht => hts t (by simp [Token.parenthesized, ht])
    have hbody := hbody.map_token_piecesAll
      (fun t ht => hts t (by simp [Token.parenthesized, ht])) hfinite
    rw [Expr.pieces, List.cons_append, Piece.map_token_enclosed, Token.map_normal_parenthesized]
    simp [Piece.token_keyword, Token.normal_word_keyword, hparameters, hbody]
  | whileLoop lexeme hforms hcondition hbody =>
    simp only [Expr.reals, List.forall_mem_append] at hfinite
    have hcondition := hcondition.map_token_pieces
      (fun t ht => hts t (by simp [Token.parenthesized, ht])) hfinite.1
    have hbody := hbody.map_token_piecesAll
      (fun t ht => hts t (by simp [Token.parenthesized, ht])) hfinite.2
    rw [Expr.pieces, List.cons_append, Piece.map_token_enclosed, Token.map_normal_parenthesized]
    simp [Piece.token_keyword, Token.normal_word_keyword, hcondition, hbody]
  | @call k ts arguments lexeme hforms hk harguments =>
    have hquote : k ≠ .quote := by
      rintro rfl
      exact absurd hk (by decide)
    have harguments := harguments.map_token_piecesAll
      (fun t ht => hts t (by simp [Token.parenthesized, ht])) hfinite
    rw [Expr.pieces, Piece.map_token_enclosed, Token.map_normal_parenthesized]
    simp [Piece.token_keyword, Token.normal_word_keyword hquote, harguments]
  | @lambdaCall ts us parameters body arguments hforms hhead harguments =>
    have hsmaller := Expr.sizeOf_lambda_lt parameters body arguments
    simp only [Expr.reals, List.forall_mem_append] at hfinite
    have hhead := hhead.map_token_pieces
      (fun t ht => hts t (by simp [Token.parenthesized, ht])) hfinite.1
    have harguments := harguments.map_token_piecesAll
      (fun t ht => hts t (by simp [Token.parenthesized, ht])) hfinite.2
    have hpieces : (Expr.lambdaCall parameters body arguments).pieces =
        .opening :: ((Expr.lambda parameters body).pieces ++ Expr.piecesAll arguments) ++
          [.closing] := rfl
    rw [hpieces, Piece.map_token_enclosed, Token.map_normal_parenthesized, List.map_append,
      List.map_append, hhead, harguments]
termination_by sizeOf e

theorem DerivesAll.map_token_piecesAll {ts : List Token} {es : List Expr}
    (h : DerivesAll readsForms ts es) (hts : ∀ t ∈ ts, t.Unquoted readsForms)
    (hfinite : ∀ x ∈ Expr.realsAll es, x.isFinite = true) :
    (Expr.piecesAll es).map Piece.token = ts.map Token.normal := by
  cases h with
  | nil => rfl
  | cons he hes =>
    simp only [Expr.realsAll, List.forall_mem_append] at hfinite
    have he := he.map_token_pieces (fun t ht => hts t (List.mem_append_left _ ht)) hfinite.1
    have hes := hes.map_token_piecesAll (fun t ht => hts t (List.mem_append_right _ ht)) hfinite.2
    rw [Expr.piecesAll, List.map_append, List.map_append, he, hes]
termination_by sizeOf es

end

/-! ## The tokens of the text -/

/-- The text of a program that was read ends properly in every dialect, and its significant tokens
are those of the source, in their normal spelling. -/
theorem exists_ofSource_text_of_readProgram {d : Dialect} {source : String} {p : Program}
    (h : readProgram d source = .ok p) (hreals : ∀ x ∈ p.reals, x.isInfinite = false)
    (d' : Dialect) :
    (∃ position, (TokenStream.ofSource d' p.text).ending = .endOfInput position) ∧
      ((d.readsForms = true →
          ∀ t ∈ (TokenStream.ofSource d source).significant, t.value.isQuoteKeyword = false) →
        (TokenStream.ofSource d' p.text).significant.map (·.value) =
          (TokenStream.ofSource d source).significant.map (·.value.normal)) := by
  obtain ⟨hregular, hnan, -⟩ := isRegularAll_of_readProgram h
  obtain ⟨-, hderives, -⟩ := (readProgram_eq_ok_iff d source p).1 h
  have hfinite : ∀ x ∈ p.reals, x.isFinite = true := fun x hx =>
    Binary64.isFinite_of_isNaN_of_isInfinite (hnan x hx) (hreals x hx)
  obtain ⟨us, q, hstream, hus⟩ := exists_ofSource_text_eq hregular hfinite
  refine ⟨⟨q, by rw [hstream]⟩, fun hquote => ?_⟩
  have hts : ∀ t ∈ (TokenStream.ofSource d source).significant.map (·.value),
      t.Unquoted d.readsForms := by
    intro t ht
    refine ⟨TokenStream.scanned_of_mem_significant ht, fun hforms => ?_⟩
    obtain ⟨u, hu, rfl⟩ := List.mem_map.1 ht
    exact hquote hforms u hu
  rw [TokenStream.map_value_significant, hstream, hus, hderives.map_token_piecesAll hts hfinite,
    List.map_map]
  rfl

/-- **Between a text and the program read from it nothing is lost, repeated or moved.**  Written
again, the program has the tokens of its source, ends of lines apart: the same ones but for the
spelling of keywords, if the word `quote` is not among them; and in a dialect of plain lists, where
that word stands for the tick, the same ones but for the spelling of keywords and quotations. -/
theorem significant_text_of_readProgram {d : Dialect} {source : String} {p : Program}
    (h : readProgram d source = .ok p) (hreals : ∀ x ∈ p.reals, x.isInfinite = false)
    (d' : Dialect) :
    (∃ position, (TokenStream.ofSource d' p.text).ending = .endOfInput position) ∧
      ((∀ t ∈ (TokenStream.ofSource d source).significant, t.value.isQuoteKeyword = false) →
        (TokenStream.ofSource d' p.text).significant.map (·.value) =
          (TokenStream.ofSource d source).significant.map (·.value.canonical)) ∧
      (d.readsForms = false →
        (TokenStream.ofSource d' p.text).significant.map (·.value) =
          (TokenStream.ofSource d source).significant.map (·.value.withTick.canonical)) := by
  obtain ⟨hending, htokens⟩ := exists_ofSource_text_of_readProgram h hreals d'
  refine ⟨hending, fun hquote => ?_, fun hforms => ?_⟩
  · rw [htokens fun _ => hquote]
    refine List.map_congr_left fun t ht => ?_
    rw [Token.normal, Token.withTick_of_isQuoteKeyword (hquote t ht)]
  · have hnone : ¬ d.readsForms = true := by simp [hforms]
    exact htokens fun hforms' => absurd hforms' hnone

/-- A form whose keyword is in capitals, and a plain list with the word `quote` in it. -/
theorem significant_text_of_readProgram_spellings :
    (TokenStream.ofSource .strict "(setq true 'x)\n").significant.map (·.value) =
        [.opening, .word (.keyword .setq) "setq", .boolean true, .plain (.keyword .quote),
          .identifier "x", .closing] ∧
      (TokenStream.ofSource .standard "('plus)\n").significant.map (·.value) =
        [.opening, .plain (.keyword .quote), .word (.keyword .plus) "plus", .closing] := by
  have hform : TokenStream.ofSource .standard "(SETQ True 'x)" =
      ⟨[⟨.opening, ⟨0, 0⟩⟩, ⟨.word (.keyword .setq) "SETQ", ⟨0, 1⟩⟩, ⟨.boolean true, ⟨0, 6⟩⟩,
        ⟨.plain (.keyword .quote), ⟨0, 11⟩⟩, ⟨.identifier "x", ⟨0, 12⟩⟩, ⟨.closing, ⟨0, 13⟩⟩],
        .endOfInput ⟨0, 14⟩⟩ := by decide +kernel
  have hlist : TokenStream.ofSource .plainLists "(Quote PLUS)" =
      ⟨[⟨.opening, ⟨0, 0⟩⟩, ⟨.word (.keyword .quote) "Quote", ⟨0, 1⟩⟩,
        ⟨.word (.keyword .plus) "PLUS", ⟨0, 7⟩⟩, ⟨.closing, ⟨0, 11⟩⟩],
        .endOfInput ⟨0, 12⟩⟩ := by decide +kernel
  have hreadForm : readProgram .standard "(SETQ True 'x)" =
      .ok ⟨[.setq "true" (.quote (.identifier "x"))]⟩ := by
    rw [readProgram_eq_readFrom, hform]
    rfl
  have hreadList : readProgram .plainLists "(Quote PLUS)" =
      .ok ⟨[.list [.quote (.identifier "plus")]]⟩ := by
    rw [readProgram_eq_readFrom, hlist]
    rfl
  have htextForm : (Program.mk [.setq "true" (.quote (.identifier "x"))]).text =
      "(setq true 'x)\n" := by decide +kernel
  have htextList : (Program.mk [.list [.quote (.identifier "plus")]]).text = "('plus)\n" := by
    decide +kernel
  have hwordless : ∀ t ∈ (TokenStream.ofSource .standard "(SETQ True 'x)").significant,
      t.value.isQuoteKeyword = false := by
    rw [hform]
    decide
  obtain ⟨-, htokensForm, -⟩ :=
    significant_text_of_readProgram hreadForm (by decide) .strict
  obtain ⟨-, -, htokensList⟩ :=
    significant_text_of_readProgram hreadList (by decide) .standard
  rw [← htextForm, htokensForm hwordless, hform, ← htextList, htokensList rfl, hlist]
  exact ⟨rfl, rfl⟩

end SmallLisp
