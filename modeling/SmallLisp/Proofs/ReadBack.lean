import SmallLisp.Expr.Layout
import SmallLisp.Proofs.Canonical
import SmallLisp.Proofs.NumberText
import SmallLisp.Proofs.Scanning

/-!
# What is written is read

An expression is written in two steps, as pieces and then as text, and the two steps are undone
one after the other.  The scanner finds the pieces again, because every piece is a lexeme and the
layout puts a space wherever one would run into the next (`exists_spells_strokes`).  The grammar
derives the expression from the tokens of its pieces (`Expr.derives_pieces`).

Both need something of the tree: its names have to be words, which is part of being regular, and
its reals have to be finite, since the texts of infinity and NaN are words and not numbers.
-/

namespace SmallLisp

/-! ## Pieces as tokens -/

namespace Piece

/-- The token that a piece is scanned as. -/
def token : Piece → Token
  | opening => .opening
  | closing => .closing
  | tick => .plain (.keyword .quote)
  | word letters =>
    match Token.ofLexeme letters with
    | .ok t => t
    | .error _ => .plain .eof

/-- **The pieces that are lexemes**: the punctuation, words, and the texts of finite numbers. -/
inductive Spelled : Piece → Prop
  | opening : Spelled .opening
  | closing : Spelled .closing
  | tick : Spelled .tick
  | word {letters : List Char} (hword : isWord letters = true) : Spelled (.word letters)
  | number {n : Number} (hn : n.isFinite = true) : Spelled (.word n.chars)

theorem token_of_isWord {letters : List Char} (h : isWord letters = true) :
    (word letters).token = .ofWord letters := by
  simp only [token, Token.ofLexeme_of_isWord h]

theorem ofLexeme_number {n : Number} (h : n.isFinite = true) :
    Token.ofLexeme n.chars = .ok (.number n) := by
  rw [Token.ofLexeme_of_isNumberLexeme (Number.isNumberLexeme_chars h), Number.ofNumber_chars h]

theorem token_number {n : Number} (h : n.isFinite = true) :
    (word n.chars).token = .number n := by
  simp only [token, ofLexeme_number h]

variable {p : Piece}

theorem Spelled.ofLexeme (h : p.Spelled) : Token.ofLexeme p.chars = .ok p.token := by
  cases h with
  | opening => rfl
  | closing => rfl
  | tick => rfl
  | word hword => rw [token_of_isWord hword, chars, Token.ofLexeme_of_isWord hword]
  | number hn => rw [token_number hn, chars, ofLexeme_number hn]

/-- A piece is a lexeme in front of anything that continues neither a word nor a number. -/
theorem Spelled.lexeme (h : p.Spelled) {rest : List Char} (hword : EndsRun isWordChar rest)
    (hnumber : EndsRun isNumberChar rest) : Lexeme p.chars rest := by
  cases h with
  | opening => exact .openParen rest
  | closing => exact .closeParen rest
  | tick => exact .tick rest
  | word hletters => exact .word hletters hword
  | number hn => exact .number (Number.isNumberLexeme_chars hn) hnumber

/-- No piece is the end of a line. -/
theorem Spelled.kind_ne_endLine (h : p.Spelled) : p.token.kind ≠ .endLine := by
  cases h with
  | opening => decide
  | closing => decide
  | tick => decide
  | @word letters hword =>
    rw [token_of_isWord hword, Token.ofWord]
    split
    · simp
    · next kind hne hkind =>
      rcases TokenKind.eq_boolean_or_keyword_of_ofWord? hkind with rfl | ⟨k, rfl⟩ <;> simp
    · simp
  | @number n hn =>
    rw [token_number hn]
    cases n <;> simp

theorem filter_map_token {ps : List Piece} (hps : ∀ p ∈ ps, p.Spelled) :
    (ps.map token).filter (·.kind != .endLine) = ps.map token := by
  rw [List.filter_eq_self]
  intro t ht
  obtain ⟨p, hp, rfl⟩ := List.mem_map.1 ht
  exact bne_iff_ne.2 (hps p hp).kind_ne_endLine

end Piece

/-! ## The scanner finds the pieces -/

namespace Piece

theorem endsRun_isWordChar_of_mem {c : Char} (hc : c ∈ [' ', ')', '\n']) (rest : List Char) :
    EndsRun isWordChar (c :: rest) := by
  have hall : [' ', ')', '\n'].all (!isWordChar ·) = true := by decide +kernel
  exact .cons (by simpa using List.all_eq_true.1 hall c hc) rest

theorem endsRun_isNumberChar_of_mem {c : Char} (hc : c ∈ [' ', ')', '\n']) (rest : List Char) :
    EndsRun isNumberChar (c :: rest) := by
  have hall : [' ', ')', '\n'].all (!isNumberChar ·) = true := by decide
  exact .cons (by simpa using List.all_eq_true.1 hall c hc) rest

/-- The text of some pieces begins with the text of the first. -/
theorem exists_flatten_strokes_eq (p : Piece) (ps : List Piece) :
    ∃ rest, (strokes (p :: ps)).flatten = p.chars ++ rest := by
  cases ps with
  | nil => exact ⟨[], by simp [strokes]⟩
  | cons q ps =>
    rw [strokes]
    split
    · exact ⟨_, rfl⟩
    · exact ⟨_, rfl⟩

/-- Where no space is written, the first piece is a lexeme all the same: it is one by itself, or
a closing parenthesis follows it. -/
theorem Spelled.lexeme_of_not_needsSpace {p q : Piece} (h : p.Spelled)
    (hspace : p.needsSpace q = false) (ps : List Piece) (behind : List Char) :
    Lexeme p.chars ((strokes (q :: ps)).flatten ++ behind) := by
  by_cases hclosing : q = .closing
  · subst hclosing
    obtain ⟨rest, hrest⟩ := exists_flatten_strokes_eq .closing ps
    rw [hrest]
    exact h.lexeme (endsRun_isWordChar_of_mem (by decide) _)
      (endsRun_isNumberChar_of_mem (by decide) _)
  -- A piece that is not complete by itself would have a space in front of the next one.
  · cases h with
    | opening => exact .openParen _
    | tick => exact .tick _
    | closing => cases q <;> simp_all [needsSpace]
    | word hword => cases q <;> simp_all [needsSpace]
    | number hn => cases q <;> simp_all [needsSpace]

/-- One piece of a layout: the piece, a space or nothing, and the layout of the others, in front
of which the piece is a lexeme. -/
theorem Spelled.exists_strokes_cons_eq {p : Piece} (hp : p.Spelled) (ps : List Piece)
    {behind : List Char} (hword : EndsRun isWordChar behind)
    (hnumber : EndsRun isNumberChar behind) :
    ∃ space, (space = [] ∨ space = [' ']) ∧
      (strokes (p :: ps)).flatten = p.chars ++ (space ++ (strokes ps).flatten) ∧
      Lexeme p.chars (space ++ (strokes ps).flatten ++ behind) := by
  cases ps with
  | nil => exact ⟨[], .inl rfl, rfl, hp.lexeme hword hnumber⟩
  | cons q ps =>
    by_cases hspace : p.needsSpace q = true
    · refine ⟨[' '], .inr rfl, by rw [strokes, if_pos hspace]; rfl, ?_⟩
      exact hp.lexeme (endsRun_isWordChar_of_mem (by decide) _)
        (endsRun_isNumberChar_of_mem (by decide) _)
    · refine ⟨[], .inl rfl, by rw [strokes, if_neg hspace]; rfl, ?_⟩
      exact hp.lexeme_of_not_needsSpace (Bool.eq_false_iff.2 hspace) ps behind

/-- Pieces that are laid out spell their tokens. -/
theorem exists_spells_strokes {ps : List Piece} (hps : ∀ p ∈ ps, p.Spelled) {behind : List Char}
    (hword : EndsRun isWordChar behind) (hnumber : EndsRun isNumberChar behind) (a : Position) :
    ∃ us b, Spells a (strokes ps).flatten behind us b ∧ us.map (·.value) = ps.map token := by
  induction ps generalizing a with
  | nil => exact ⟨[], a, .nil a behind, rfl⟩
  | cons p ps ih =>
    have hp := hps p List.mem_cons_self
    have ih := ih fun q hq => hps q (List.mem_cons_of_mem _ hq)
    obtain ⟨space, hspace, hstrokes, hlexeme⟩ := hp.exists_strokes_cons_eq ps hword hnumber
    rw [hstrokes]
    rcases hspace with rfl | rfl
    · obtain ⟨us, b, hspells, hus⟩ := ih (a.afterLexeme p.chars)
      exact ⟨⟨p.token, a⟩ :: us, b, .lexeme hlexeme hp.ofLexeme hspells, by simp [hus]⟩
    · obtain ⟨us, b, hspells, hus⟩ := ih ((a.afterLexeme p.chars).after ' ')
      exact ⟨⟨p.token, a⟩ :: us, b,
        .lexeme hlexeme hp.ofLexeme (.blank (by decide) hspells), by simp [hus]⟩

end Piece

/-- The lines of a program spell the tokens of its expressions, and ends of lines. -/
theorem exists_spells_lines {es : List Expr} (hes : ∀ p ∈ Expr.piecesAll es, p.Spelled)
    (a : Position) :
    ∃ us b, Spells a (es.flatMap fun e => e.chars ++ ['\n']) [] us b ∧
      (us.map (·.value)).filter (·.kind != .endLine) = (Expr.piecesAll es).map Piece.token := by
  induction es generalizing a with
  | nil => exact ⟨[], a, .nil a [], rfl⟩
  | cons e es ih =>
    have he : ∀ p ∈ e.pieces, p.Spelled := fun p hp => hes p (List.mem_append_left _ hp)
    generalize hlines : (es.flatMap fun e => e.chars ++ ['\n']) = lines at ih
    have hword : EndsRun isWordChar ('\n' :: lines ++ []) :=
      Piece.endsRun_isWordChar_of_mem (by decide) _
    have hnumber : EndsRun isNumberChar ('\n' :: lines ++ []) :=
      Piece.endsRun_isNumberChar_of_mem (by decide) _
    obtain ⟨us, b, hfirst, hus⟩ := Piece.exists_spells_strokes he hword hnumber a
    obtain ⟨vs, c, hrest, hvs⟩ :=
      ih (fun p hp => hes p (List.mem_append_right _ hp)) (b.afterLexeme ['\n'])
    have hline : Spells b ('\n' :: lines) [] (⟨.plain .endLine, b⟩ :: vs) c :=
      .lexeme (.newline _) rfl hrest
    refine ⟨us ++ ⟨.plain .endLine, b⟩ :: vs, c, ?_, ?_⟩
    · have happend := hfirst.append hline
      rw [List.flatMap_cons, hlines, List.append_assoc]
      exact happend
    · rw [List.map_append, List.filter_append, hus, Piece.filter_map_token he, List.map_cons,
        List.filter_cons_of_neg (by simp), hvs, Expr.piecesAll, List.map_append]

/-! ## The tokens of names -/

theorem isWord_keyword (k : Keyword) : isWord k.word.toList = true := by
  have hall : ∀ k ∈ Keyword.all, isWord k.word.toList = true := by decide +kernel
  exact hall k (Keyword.mem_all k)

theorem isWord_booleanWord (b : Bool) : isWord (booleanWord b).toList = true := by
  cases b <;> decide +kernel

namespace Piece

theorem token_keyword (k : Keyword) : (ofString k.word).token = .word (.keyword k) k.word := by
  rw [ofString, token_of_isWord (isWord_keyword k), Token.ofWord, TokenKind.ofWord?_word]
  simp

theorem token_booleanWord (b : Bool) : (ofString (booleanWord b)).token = .boolean b := by
  rw [ofString, token_of_isWord (isWord_booleanWord b)]
  cases b <;> decide +kernel

theorem token_of_isFreeWord {name : String} (h : isFreeWord name = true) :
    (ofString name).token = .identifier name := by
  simp only [isFreeWord, Bool.and_eq_true, Option.isNone_iff_eq_none] at h
  rw [ofString, token_of_isWord h.1, Token.ofWord, h.2]
  simp

end Piece

/-- A name is a word that is not reserved, or reserved for a keyword or a truth value. -/
theorem isName_cases {name : String} (h : isName name = true) :
    isFreeWord name = true ∨ (∃ k : Keyword, name = k.word) ∨ ∃ b, name = booleanWord b := by
  simp only [isName, Bool.or_eq_true, beq_iff_eq] at h
  rcases h with ((hfree | hkeyword) | htrue) | hfalse
  · exact .inl hfree
  · obtain ⟨k, hk⟩ := Option.isSome_iff_exists.1 hkeyword
    exact .inr (.inl ⟨k, (Keyword.word_of_ofName? hk).symm⟩)
  · exact .inr (.inr ⟨true, htrue⟩)
  · exact .inr (.inr ⟨false, hfalse⟩)

theorem isWord_of_isName {name : String} (h : isName name = true) :
    isWord name.toList = true := by
  rcases isName_cases h with hfree | ⟨k, rfl⟩ | ⟨b, rfl⟩
  · simp only [isFreeWord, Bool.and_eq_true] at hfree
    exact hfree.1
  · exact isWord_keyword k
  · exact isWord_booleanWord b

/-- The token of a name stands for that name. -/
theorem names_token_of_isName {name : String} (h : isName name = true) :
    (Piece.ofString name).token.Names name := by
  rcases isName_cases h with hfree | ⟨k, rfl⟩ | ⟨b, rfl⟩
  · rw [Piece.token_of_isFreeWord hfree]
    exact .identifier name
  · rw [Piece.token_keyword]
    exact .keyword k _
  · rw [Piece.token_booleanWord]
    exact .boolean b

theorem isIdentifierName_cases {name : String} (h : isIdentifierName name = true) :
    isFreeWord name = true ∨ ∃ k : Keyword, k ≠ .quote ∧ name = k.word := by
  simp only [isIdentifierName, Bool.or_eq_true, Option.any_eq_true_iff_get, bne_iff_ne] at h
  rcases h with hfree | ⟨hsome, hne⟩
  · exact .inl hfree
  · exact .inr ⟨_, hne, (Keyword.word_of_ofName? (Option.some_get hsome).symm).symm⟩

theorem isName_of_isIdentifierName {name : String} (h : isIdentifierName name = true) :
    isName name = true := by
  rcases isIdentifierName_cases h with hfree | ⟨k, -, rfl⟩
  · simp [isName, hfree]
  · exact isName_word k

/-! ## The pieces of a regular tree -/

variable {G : Piece → Prop}

theorem forall_mem_enclosed (hspelled : ∀ p : Piece, p.Spelled → G p) {ps : List Piece}
    (h : ∀ p ∈ ps, G p) :
    ∀ p ∈ .opening :: ps ++ [.closing], G p := by
  rw [List.cons_append, List.forall_mem_cons, List.forall_mem_append]
  exact ⟨hspelled _ .opening, h, List.forall_mem_singleton.2 (hspelled _ .closing)⟩

theorem of_keyword (hspelled : ∀ p : Piece, p.Spelled → G p) (k : Keyword) :
    G (.ofString k.word) := hspelled _ (.word (isWord_keyword k))

theorem of_isName (hspelled : ∀ p : Piece, p.Spelled → G p) {name : String}
    (h : isName name = true) : G (.ofString name) :=
  hspelled _ (.word (isWord_of_isName h))

theorem forall_mem_ofNames (hspelled : ∀ p : Piece, p.Spelled → G p) {names : List String}
    (h : names.all isName = true) :
    ∀ p ∈ Piece.ofNames names, G p := by
  refine forall_mem_enclosed hspelled fun p hp => ?_
  obtain ⟨name, hname, rfl⟩ := List.mem_map.1 hp
  exact of_isName hspelled (List.all_eq_true.1 h name hname)

mutual

/-- What holds of all lexemes and of the texts of a regular tree's reals holds of all pieces of
the tree. -/
theorem Expr.forall_mem_pieces (hspelled : ∀ p : Piece, p.Spelled → G p) {readsForms : Bool}
    {e : Expr} (h : e.isRegular readsForms = true)
    (hreals : ∀ x ∈ e.reals, G (.word x.text)) : ∀ p ∈ e.pieces, G p := by
  -- A piece is a parenthesis, a tick, a keyword, a name or an atom; only of the reals nothing is
  -- known but what is assumed.
  cases e with
  | integer n =>
    have hn : (Number.integer n).isFinite = true := rfl
    exact List.forall_mem_singleton.2 (hspelled _ (.number hn))
  | real x => exact List.forall_mem_singleton.2 (hreals x (by simp [reals]))
  | boolean b => exact List.forall_mem_singleton.2 (hspelled _ (.word (isWord_booleanWord b)))
  | identifier name =>
    exact List.forall_mem_singleton.2 (of_isName hspelled (isName_of_isIdentifierName h))
  | string s => simp [isRegular] at h
  | list items =>
    simp only [isRegular, Bool.and_eq_true] at h
    rw [pieces]
    exact forall_mem_enclosed hspelled (Expr.forall_mem_piecesAll hspelled h.2 hreals)
  | call function arguments =>
    simp only [isRegular, Bool.and_eq_true, List.any_eq_true, beq_iff_eq] at h
    obtain ⟨⟨-, k, -, rfl⟩, harguments⟩ := h
    have harguments := Expr.forall_mem_piecesAll hspelled harguments hreals
    rw [pieces]
    refine forall_mem_enclosed hspelled ?_
    exact List.forall_mem_cons.2 ⟨of_keyword hspelled k, harguments⟩
  | quote e =>
    have he : ∀ p ∈ e.pieces, G p := Expr.forall_mem_pieces hspelled h hreals
    rw [pieces]
    exact List.forall_mem_cons.2 ⟨hspelled _ .tick, he⟩
  | setq name value =>
    simp only [isRegular, Bool.and_eq_true] at h
    obtain ⟨⟨-, hname⟩, hvalue⟩ := h
    have hvalue := Expr.forall_mem_pieces hspelled hvalue hreals
    rw [pieces]
    refine forall_mem_enclosed hspelled ?_
    simp only [List.forall_mem_cons]
    exact ⟨of_keyword hspelled _, of_isName hspelled hname, hvalue⟩
  | cond test yes no =>
    cases no with
    | none =>
      simp only [isRegular, Bool.and_eq_true] at h
      obtain ⟨⟨-, htest⟩, hyes⟩ := h
      simp only [reals, List.forall_mem_append] at hreals
      have htest := Expr.forall_mem_pieces hspelled htest hreals.1
      have hyes := Expr.forall_mem_pieces hspelled hyes hreals.2
      rw [pieces, List.cons_append]
      refine forall_mem_enclosed hspelled ?_
      simp only [List.cons_append, List.forall_mem_cons, List.forall_mem_append]
      exact ⟨of_keyword hspelled _, htest, hyes⟩
    | some no =>
      simp only [isRegular, Bool.and_eq_true] at h
      obtain ⟨⟨⟨-, htest⟩, hyes⟩, hno⟩ := h
      simp only [reals, List.forall_mem_append] at hreals
      have htest := Expr.forall_mem_pieces hspelled htest hreals.1.1
      have hyes := Expr.forall_mem_pieces hspelled hyes hreals.1.2
      have hno := Expr.forall_mem_pieces hspelled hno hreals.2
      rw [pieces, List.cons_append, List.cons_append]
      refine forall_mem_enclosed hspelled ?_
      simp only [List.cons_append, List.forall_mem_cons, List.forall_mem_append]
      exact ⟨of_keyword hspelled _, ⟨htest, hyes⟩, hno⟩
  | func name parameters body =>
    simp only [isRegular, Bool.and_eq_true] at h
    obtain ⟨⟨⟨-, hname⟩, hparameters⟩, hbody⟩ := h
    have hbody := Expr.forall_mem_piecesAll hspelled hbody hreals
    rw [pieces, List.cons_append]
    refine forall_mem_enclosed hspelled ?_
    simp only [List.cons_append, List.forall_mem_cons, List.forall_mem_append]
    exact ⟨of_keyword hspelled _, of_isName hspelled hname,
      forall_mem_ofNames hspelled hparameters, hbody⟩
  | lambda parameters body =>
    simp only [isRegular, Bool.and_eq_true] at h
    obtain ⟨⟨-, hparameters⟩, hbody⟩ := h
    have hbody := Expr.forall_mem_pieces hspelled hbody hreals
    rw [pieces, List.cons_append]
    refine forall_mem_enclosed hspelled ?_
    simp only [List.cons_append, List.forall_mem_cons, List.forall_mem_append]
    exact ⟨of_keyword hspelled _, forall_mem_ofNames hspelled hparameters, hbody⟩
  | lambdaCall parameters body arguments =>
    simp only [isRegular, Bool.and_eq_true] at h
    obtain ⟨⟨⟨-, hparameters⟩, hbody⟩, harguments⟩ := h
    simp only [reals, List.forall_mem_append] at hreals
    have hbody := Expr.forall_mem_pieces hspelled hbody hreals.1
    have harguments := Expr.forall_mem_piecesAll hspelled harguments hreals.2
    have hlambda : ∀ p ∈ (lambda parameters body).pieces, G p := by
      rw [pieces, List.cons_append]
      refine forall_mem_enclosed hspelled ?_
      simp only [List.cons_append, List.forall_mem_cons, List.forall_mem_append]
      exact ⟨of_keyword hspelled _, forall_mem_ofNames hspelled hparameters, hbody⟩
    exact forall_mem_enclosed hspelled (List.forall_mem_append.2 ⟨hlambda, harguments⟩)
  | prog parameters body =>
    simp only [isRegular, Bool.and_eq_true] at h
    obtain ⟨⟨-, hparameters⟩, hbody⟩ := h
    have hbody := Expr.forall_mem_piecesAll hspelled hbody hreals
    rw [pieces, List.cons_append]
    refine forall_mem_enclosed hspelled ?_
    simp only [List.cons_append, List.forall_mem_cons, List.forall_mem_append]
    exact ⟨of_keyword hspelled _, forall_mem_ofNames hspelled hparameters, hbody⟩
  | whileLoop condition body =>
    simp only [isRegular, Bool.and_eq_true] at h
    obtain ⟨⟨-, hcondition⟩, hbody⟩ := h
    simp only [reals, List.forall_mem_append] at hreals
    have hcondition := Expr.forall_mem_pieces hspelled hcondition hreals.1
    have hbody := Expr.forall_mem_piecesAll hspelled hbody hreals.2
    rw [pieces, List.cons_append]
    refine forall_mem_enclosed hspelled ?_
    simp only [List.cons_append, List.forall_mem_cons, List.forall_mem_append]
    exact ⟨of_keyword hspelled _, hcondition, hbody⟩

theorem Expr.forall_mem_piecesAll (hspelled : ∀ p : Piece, p.Spelled → G p) {readsForms : Bool}
    {es : List Expr} (h : isRegularAll readsForms es = true)
    (hreals : ∀ x ∈ realsAll es, G (.word x.text)) :
    ∀ p ∈ piecesAll es, G p := by
  cases es with
  | nil => simp [piecesAll]
  | cons e es =>
    simp only [isRegularAll, Bool.and_eq_true] at h
    simp only [realsAll, List.forall_mem_append] at hreals
    rw [piecesAll, List.forall_mem_append]
    exact ⟨Expr.forall_mem_pieces hspelled h.1 hreals.1,
      Expr.forall_mem_piecesAll hspelled h.2 hreals.2⟩

end

theorem Expr.spelled_of_mem_piecesAll {readsForms : Bool} {es : List Expr}
    (h : isRegularAll readsForms es = true) (hfinite : ∀ x ∈ realsAll es, x.isFinite = true) :
    ∀ p ∈ piecesAll es, p.Spelled :=
  Expr.forall_mem_piecesAll (fun _ hp => hp) h fun x hx =>
    Piece.Spelled.number (n := .real x) (hfinite x hx)

/-! ## The grammar derives a regular tree from its pieces -/

namespace Piece

theorem map_token_enclosed (ps : List Piece) :
    (Piece.opening :: ps ++ [Piece.closing]).map token = Token.parenthesized (ps.map token) := by
  rw [List.cons_append, List.map_cons, List.map_append]
  rfl

theorem parameterList_ofNames {names : List String} (h : names.all isName = true) :
    ParameterList ((ofNames names).map token) names := by
  refine ⟨(names.map ofString).map token, map_token_enclosed _, ?_⟩
  induction names with
  | nil => exact .nil
  | cons name names ih =>
    rw [List.all_cons, Bool.and_eq_true] at h
    exact .cons (names_token_of_isName h.1) (ih h.2)

end Piece

/-- No regular tree is written with the word `quote` in front. -/
theorem Expr.beginsWithQuoteWord_pieces {readsForms : Bool} {e : Expr}
    (h : e.isRegular readsForms = true) (hfinite : ∀ x ∈ e.reals, x.isFinite = true) :
    beginsWithQuoteWord (e.pieces.map Piece.token) = false := by
  cases e with
  | integer n =>
    have htoken := Piece.token_number (n := .integer n) rfl
    exact congrArg Token.isQuoteKeyword htoken
  | real x =>
    have htoken := Piece.token_number (n := .real x) (hfinite x (by simp [reals]))
    exact congrArg Token.isQuoteKeyword htoken
  | boolean b => exact congrArg Token.isQuoteKeyword (Piece.token_booleanWord b)
  | identifier name =>
    rcases isIdentifierName_cases h with hfree | ⟨k, hk, rfl⟩
    · exact congrArg Token.isQuoteKeyword (Piece.token_of_isFreeWord hfree)
    · have hquote : (Token.word (.keyword k) k.word).isQuoteKeyword = false := by
        simp [Token.isQuoteKeyword, Token.word, hk]
      exact (congrArg Token.isQuoteKeyword (Piece.token_keyword k)).trans hquote
  | string s => simp [isRegular] at h
  | cond test yes no => cases no <;> rfl
  | _ => rfl

mutual

/-- **The grammar derives a regular tree of finite reals from the tokens it is written with.** -/
theorem Expr.derives_pieces {readsForms : Bool} {e : Expr} (h : e.isRegular readsForms = true)
    (hfinite : ∀ x ∈ e.reals, x.isFinite = true) :
    Derives readsForms (e.pieces.map Piece.token) e := by
  -- The first tokens that a form is written with are those of the production that derives it.
  cases e with
  | integer n =>
    have htoken : (Piece.word (Numeral.ofInteger n)).token = .number (.integer n) :=
      Piece.token_number (n := .integer n) rfl
    rw [pieces, List.map_singleton, htoken]
    exact .integer n
  | real x =>
    have htoken : (Piece.word x.text).token = .number (.real x) :=
      Piece.token_number (n := .real x) (hfinite x (by simp [reals]))
    rw [pieces, List.map_singleton, htoken]
    exact .real x
  | boolean b =>
    rw [pieces, List.map_singleton, Piece.token_booleanWord]
    exact .boolean b
  | identifier name =>
    rw [pieces, List.map_singleton]
    rcases isIdentifierName_cases h with hfree | ⟨k, hk, rfl⟩
    · rw [Piece.token_of_isFreeWord hfree]
      simp only [isFreeWord, Bool.and_eq_true, Option.isNone_iff_eq_none] at hfree
      refine .identifier ?_
      simpa using TokenKind.ofName?_eq_none_of_ofWord? hfree.2
    · rw [Piece.token_keyword]
      exact .keyword _ hk
  | string s => simp [isRegular] at h
  | list items =>
    simp only [isRegular, Bool.and_eq_true, Bool.not_eq_true'] at h
    rw [pieces, Piece.map_token_enclosed]
    cases items with
    | nil => exact .emptyList
    | cons head items =>
      simp only [isRegularAll, Bool.and_eq_true] at h
      obtain ⟨hform, hhead, hitems⟩ := h
      simp only [reals, realsAll, List.forall_mem_append] at hfinite
      have hplain : readsForms = true →
          beginsWithQuoteWord (head.pieces.map Piece.token) = false ∧ head.headsForm = false := by
        rintro rfl
        exact ⟨Expr.beginsWithQuoteWord_pieces hhead hfinite.1, by simpa using hform⟩
      have hhead := Expr.derives_pieces hhead hfinite.1
      have hitems := Expr.derivesAll_piecesAll hitems hfinite.2
      rw [piecesAll, List.map_append]
      exact .list hplain hhead hitems
  | call function arguments =>
    simp only [isRegular, Bool.and_eq_true, List.any_eq_true, beq_iff_eq] at h
    obtain ⟨⟨hforms, k, hk, rfl⟩, harguments⟩ := h
    have harguments := Expr.derivesAll_piecesAll harguments hfinite
    rw [pieces, Piece.map_token_enclosed, List.map_cons, Piece.token_keyword]
    exact .call _ hforms hk harguments
  | quote e =>
    have he : Derives readsForms (e.pieces.map Piece.token) e := Expr.derives_pieces h hfinite
    rw [pieces, List.map_cons]
    exact .quotation rfl he
  | setq name value =>
    simp only [isRegular, Bool.and_eq_true] at h
    obtain ⟨⟨hforms, hname⟩, hvalue⟩ := h
    have hvalue := Expr.derives_pieces hvalue hfinite
    rw [pieces, Piece.map_token_enclosed, List.map_cons, List.map_cons, Piece.token_keyword]
    exact .setq _ hforms (names_token_of_isName hname) hvalue
  | cond test yes no =>
    cases no with
    | none =>
      simp only [isRegular, Bool.and_eq_true] at h
      obtain ⟨⟨hforms, htest⟩, hyes⟩ := h
      simp only [reals, List.forall_mem_append] at hfinite
      have htest := Expr.derives_pieces htest hfinite.1
      have hyes := Expr.derives_pieces hyes hfinite.2
      rw [pieces, List.cons_append, Piece.map_token_enclosed, List.cons_append, List.map_cons,
        List.map_append, Piece.token_keyword]
      exact .condTwo _ hforms htest hyes
    | some no =>
      simp only [isRegular, Bool.and_eq_true] at h
      obtain ⟨⟨⟨hforms, htest⟩, hyes⟩, hno⟩ := h
      simp only [reals, List.forall_mem_append] at hfinite
      have htest := Expr.derives_pieces htest hfinite.1.1
      have hyes := Expr.derives_pieces hyes hfinite.1.2
      have hno := Expr.derives_pieces hno hfinite.2
      rw [pieces, List.cons_append, List.cons_append, Piece.map_token_enclosed, List.cons_append,
        List.cons_append, List.map_cons, List.map_append, List.map_append, Piece.token_keyword]
      exact .condThree _ hforms htest hyes hno
  | func name parameters body =>
    simp only [isRegular, Bool.and_eq_true] at h
    obtain ⟨⟨⟨hforms, hname⟩, hparameters⟩, hbody⟩ := h
    have hbody := Expr.derivesAll_piecesAll hbody hfinite
    rw [pieces, List.cons_append, Piece.map_token_enclosed, List.cons_append, List.cons_append,
      List.map_cons, List.map_cons, List.map_append, Piece.token_keyword]
    exact .func _ hforms (names_token_of_isName hname)
      (Piece.parameterList_ofNames hparameters) hbody
  | lambda parameters body =>
    simp only [isRegular, Bool.and_eq_true] at h
    obtain ⟨⟨hforms, hparameters⟩, hbody⟩ := h
    have hbody := Expr.derives_pieces hbody hfinite
    rw [pieces, List.cons_append, Piece.map_token_enclosed, List.cons_append, List.map_cons,
      List.map_append, Piece.token_keyword]
    exact .lambda _ hforms (Piece.parameterList_ofNames hparameters) hbody
  | lambdaCall parameters body arguments =>
    simp only [isRegular, Bool.and_eq_true] at h
    obtain ⟨⟨⟨hforms, hparameters⟩, hbody⟩, harguments⟩ := h
    simp only [reals, List.forall_mem_append] at hfinite
    have hbody := Expr.derives_pieces hbody hfinite.1
    have harguments := Expr.derivesAll_piecesAll harguments hfinite.2
    have hlambda : Derives readsForms ((lambda parameters body).pieces.map Piece.token)
        (.lambda parameters body) := by
      rw [pieces, List.cons_append, Piece.map_token_enclosed, List.cons_append, List.map_cons,
        List.map_append, Piece.token_keyword]
      exact .lambda _ hforms (Piece.parameterList_ofNames hparameters) hbody
    have hpieces : (lambdaCall parameters body arguments).pieces =
        .opening :: ((lambda parameters body).pieces ++ piecesAll arguments) ++ [.closing] := rfl
    rw [hpieces, Piece.map_token_enclosed, List.map_append]
    exact .lambdaCall hforms hlambda harguments
  | prog parameters body =>
    simp only [isRegular, Bool.and_eq_true] at h
    obtain ⟨⟨hforms, hparameters⟩, hbody⟩ := h
    have hbody := Expr.derivesAll_piecesAll hbody hfinite
    rw [pieces, List.cons_append, Piece.map_token_enclosed, List.cons_append, List.map_cons,
      List.map_append, Piece.token_keyword]
    exact .prog _ hforms (Piece.parameterList_ofNames hparameters) hbody
  | whileLoop condition body =>
    simp only [isRegular, Bool.and_eq_true] at h
    obtain ⟨⟨hforms, hcondition⟩, hbody⟩ := h
    simp only [reals, List.forall_mem_append] at hfinite
    have hcondition := Expr.derives_pieces hcondition hfinite.1
    have hbody := Expr.derivesAll_piecesAll hbody hfinite.2
    rw [pieces, List.cons_append, Piece.map_token_enclosed, List.cons_append, List.map_cons,
      List.map_append, Piece.token_keyword]
    exact .whileLoop _ hforms hcondition hbody

theorem Expr.derivesAll_piecesAll {readsForms : Bool} {es : List Expr}
    (h : isRegularAll readsForms es = true) (hfinite : ∀ x ∈ realsAll es, x.isFinite = true) :
    DerivesAll readsForms ((piecesAll es).map Piece.token) es := by
  cases es with
  | nil => exact .nil
  | cons e es =>
    simp only [isRegularAll, Bool.and_eq_true] at h
    simp only [realsAll, List.forall_mem_append] at hfinite
    have he := Expr.derives_pieces h.1 hfinite.1
    have hes := Expr.derivesAll_piecesAll h.2 hfinite.2
    rw [piecesAll, List.map_append]
    exact .cons he hes

end

end SmallLisp
