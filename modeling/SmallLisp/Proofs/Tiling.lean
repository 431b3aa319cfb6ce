import SmallLisp.Proofs.LetterCase
import SmallLisp.Proofs.NumberText
import SmallLisp.Proofs.Scanning

/-!
# Tokens tile the text

A scanner walks over a text with a place and a rest.  Said without a scanner, its tokens are a
tiling of the text: lexemes side by side, with blanks in between and nothing else, each lexeme
reaching as far as its characters go, and each written the way its token is written
(`Token.Written`).  The tiling stops in front of the first place where no lexeme stands that is a
token, and what is found there decides how the tokens end (`EndsAt`).

No lexeme that starts like a number fails to be one, except for its points.  So a text has three
ends and not four: the end of the input, a character that begins nothing, and a number with
several points.
-/

namespace SmallLisp

/-! ## How tokens are written -/

/-- How a token is written.  A word is a keyword or a truth value if its lowercase form is the
name of one, and it is an identifier with exactly its own letters otherwise.  A keyword keeps the
letters it was written with. -/
inductive Token.Written : List Char → Token → Prop
  | newline : Written ['\n'] (.plain .endLine)
  | returnNewline : Written ['\r', '\n'] (.plain .endLine)
  | loneReturn : Written ['\r'] (.plain .endLine)
  | tick : Written ['\''] (.plain (.keyword .quote))
  | openParen : Written ['('] (.plain .openParen)
  | closeParen : Written [')'] (.plain .closeParen)
  | keyword {letters : List Char} {k : Keyword} (hword : isWord letters = true)
      (hname : lowercase letters = k.word.toList) :
      Written letters (.word (.keyword k) (String.ofList letters))
  | boolean {letters : List Char} {b : Bool} (hword : isWord letters = true)
      (hname : lowercase letters = (booleanWord b).toList) : Written letters (.boolean b)
  | identifier {letters : List Char} (hword : isWord letters = true)
      (hkeyword : ∀ k : Keyword, lowercase letters ≠ k.word.toList)
      (hboolean : ∀ b, lowercase letters ≠ (booleanWord b).toList) :
      Written letters (.identifier (String.ofList letters))
  | number {letters : List Char} {n : Number} (hnumber : isNumberLexeme letters = true)
      (hpoints : letters.count '.' ≤ 1) (hread : Number.read? letters = some n) :
      Written letters (.number n)

namespace TokenKind

variable {letters : List Char}

/-- The table of reserved words has the keywords under their names. -/
theorem lowercase_eq_of_ofWord?_keyword {k : Keyword} (h : ofWord? letters = some (.keyword k)) :
    lowercase letters = k.word.toList := by
  have hnames : ∀ entry ∈ reservedWords, ∀ k ∈ Keyword.all,
      entry.2 = .keyword k → entry.1 = k.word := by decide +kernel
  obtain ⟨entry, hfind, hkind⟩ := Option.map_eq_some_iff.1 h
  have hlower := List.find?_some hfind
  rw [beq_iff_eq] at hlower
  rw [← hlower, hnames entry (List.mem_of_find?_eq_some hfind) k (Keyword.mem_all k) hkind]

/-- The table of reserved words has the truth values under their names. -/
theorem exists_lowercase_eq_of_ofWord?_boolean (h : ofWord? letters = some .boolean) :
    ∃ b, lowercase letters = (booleanWord b).toList := by
  have hnames : ∀ entry ∈ reservedWords, entry.2 = .boolean →
      entry.1 = booleanWord true ∨ entry.1 = booleanWord false := by decide +kernel
  obtain ⟨entry, hfind, hkind⟩ := Option.map_eq_some_iff.1 h
  have hlower := List.find?_some hfind
  rw [beq_iff_eq] at hlower
  rcases hnames entry (List.mem_of_find?_eq_some hfind) hkind with htrue | hfalse
  · exact ⟨true, by rw [← hlower, htrue]⟩
  · exact ⟨false, by rw [← hlower, hfalse]⟩

/-- A word that is not reserved has no name in the table as its lowercase form. -/
theorem lowercase_ne_of_ofWord?_none (h : ofWord? letters = none) {name : String}
    (hname : name ∈ reservedWords.map Prod.fst) : lowercase letters ≠ name.toList := by
  obtain ⟨entry, hentry, rfl⟩ := List.mem_map.1 hname
  have hnone := List.find?_eq_none.1 (Option.map_eq_none_iff.1 h) entry hentry
  rw [beq_iff_eq] at hnone
  exact fun heq => hnone heq.symm

end TokenKind

namespace Token

variable {letters : List Char}

/-- The comparison that tells the truth values apart finds the one that was named. -/
theorem toLower_beq_true_of_lowercase {b : Bool} (h : lowercase letters = (booleanWord b).toList) :
    (letters.map Char.toLower == "true".toList) = b := by
  have hletters : (booleanWord b).toList.all Char.isLower = true := by cases b <;> decide
  have hk : 'k' ∉ (booleanWord b).toList := by cases b <;> decide
  rw [map_toLower_eq_of_lowercase h hletters hk]
  cases b <;> decide

/-- A word is written as the token it is. -/
theorem written_ofWord (hword : isWord letters = true) : Written letters (ofWord letters) := by
  unfold ofWord
  split
  · next hkind =>
    obtain ⟨b, hb⟩ := TokenKind.exists_lowercase_eq_of_ofWord?_boolean hkind
    rw [toLower_beq_true_of_lowercase hb]
    exact .boolean hword hb
  · next kind hne hkind =>
    -- The table has no kinds but those of the truth values and of the keywords.
    rcases TokenKind.eq_boolean_or_keyword_of_ofWord? hkind with hboolean | ⟨k, rfl⟩
    · exact absurd hboolean hne
    · exact .keyword hword (TokenKind.lowercase_eq_of_ofWord?_keyword hkind)
  · next hnone =>
    have hkeywords : ∀ k ∈ Keyword.all, k.word ∈ TokenKind.reservedWords.map Prod.fst := by
      decide +kernel
    have hbooleans : ∀ b, booleanWord b ∈ TokenKind.reservedWords.map Prod.fst := by
      decide +kernel
    exact .identifier hword
      (fun k => TokenKind.lowercase_ne_of_ofWord?_none hnone (hkeywords k (Keyword.mem_all k)))
      (fun b => TokenKind.lowercase_ne_of_ofWord?_none hnone (hbooleans b))

/-- A lexeme that starts like a number is one, or it has several points. -/
theorem ofNumber_cases (h : isNumberLexeme letters = true) :
    (∃ n, letters.count '.' ≤ 1 ∧ Number.read? letters = some n ∧
        ofNumber letters = .ok (.number n)) ∨
      1 < letters.count '.' ∧
        ofNumber letters = .error (.severalPoints (String.ofList letters)) := by
  by_cases hpoints : 1 < letters.count '.'
  · exact .inr ⟨hpoints, if_pos hpoints⟩
  · have hcount : letters.count '.' ≤ 1 := Nat.le_of_not_lt hpoints
    obtain ⟨n, hn⟩ := Number.exists_read?_eq_some h hcount
    refine .inl ⟨n, hcount, hn, ?_⟩
    rw [ofNumber, if_neg hpoints, hn]

end Token

/-- A lexeme is a token as it is written, or a number with several points. -/
theorem Lexeme.written_or_severalPoints {lexeme rest : List Char} (h : Lexeme lexeme rest) :
    (∃ t, Token.ofLexeme lexeme = .ok t ∧ Token.Written lexeme t) ∨
      isNumberLexeme lexeme = true ∧ EndsRun isNumberChar rest ∧ 1 < lexeme.count '.' ∧
        Token.ofLexeme lexeme = .error (.severalPoints (String.ofList lexeme)) := by
  cases h with
  | newline => exact .inl ⟨_, rfl, .newline⟩
  | returnNewline => exact .inl ⟨_, rfl, .returnNewline⟩
  | loneReturn => exact .inl ⟨_, rfl, .loneReturn⟩
  | tick => exact .inl ⟨_, rfl, .tick⟩
  | openParen => exact .inl ⟨_, rfl, .openParen⟩
  | closeParen => exact .inl ⟨_, rfl, .closeParen⟩
  | word hword hrest =>
    exact .inl ⟨_, Token.ofLexeme_of_isWord hword, Token.written_ofWord hword⟩
  | number hnumber hrest =>
    rw [Token.ofLexeme_of_isNumberLexeme hnumber]
    rcases Token.ofNumber_cases hnumber with ⟨n, hcount, hread, hok⟩ | ⟨hpoints, herror⟩
    · exact .inl ⟨_, hok, .number hnumber hcount hread⟩
    · exact .inr ⟨hnumber, hrest, hpoints, herror⟩

/-- All that can be wrong with a lexeme is a second point. -/
theorem Lexeme.severalPoints_of_error {lexeme rest : List Char} {error : LexError}
    (h : Lexeme lexeme rest) (herror : Token.ofLexeme lexeme = .error error) :
    isNumberLexeme lexeme = true ∧ EndsRun isNumberChar rest ∧ 1 < lexeme.count '.' ∧
      error = .severalPoints (String.ofList lexeme) := by
  rcases h.written_or_severalPoints with ⟨t, ht, -⟩ | ⟨hnumber, hrest, hpoints, hseveral⟩
  · rw [ht] at herror
    cases herror
  · rw [hseveral, Except.error.injEq] at herror
    exact ⟨hnumber, hrest, hpoints, herror.symm⟩

/-! ## Tilings -/

/-- A lexeme in its place in a text, and the token it is. -/
structure Tile where
  lexeme : List Char
  token : Token

/-- **A tiling of a text up to `rest`**: blanks and tiles in turn, where a tile is a lexeme in
front of what follows it in the text, and blanks in front of `rest`, which does not begin with
one. -/
inductive Tiled : List Char → List Tile → List Char → Prop
  | rest {blanks rest : List Char} (hblanks : blanks.all isBlank = true)
      (hrest : EndsRun isBlank rest) : Tiled (blanks ++ rest) [] rest
  | tile {blanks text rest : List Char} {tile : Tile} {tiles : List Tile}
      (hblanks : blanks.all isBlank = true) (hlexeme : Lexeme tile.lexeme text)
      (hwritten : Token.Written tile.lexeme tile.token) (h : Tiled text tiles rest) :
      Tiled (blanks ++ (tile.lexeme ++ text)) (tile :: tiles) rest

/-- The tiling of nothing. -/
theorem Tiled.stop {rest : List Char} (hrest : EndsRun isBlank rest) : Tiled rest [] rest :=
  @Tiled.rest [] rest rfl hrest

/-- A tile without blanks in front of it. -/
theorem Tiled.cons {text rest lexeme : List Char} {t : Token} {tiles : List Tile}
    (hlexeme : Lexeme lexeme text) (hwritten : Token.Written lexeme t) (h : Tiled text tiles rest) :
    Tiled (lexeme ++ text) (⟨lexeme, t⟩ :: tiles) rest :=
  @Tiled.tile [] text rest ⟨lexeme, t⟩ tiles rfl hlexeme hwritten h

theorem Tiled.blank {text rest : List Char} {tiles : List Tile} {c : Char}
    (h : Tiled text tiles rest) (hc : isBlank c = true) : Tiled (c :: text) tiles rest := by
  cases h with
  | @rest blanks _ hblanks hrest =>
    have hmore : (c :: blanks).all isBlank = true := by rw [List.all_cons, hc, hblanks]; rfl
    exact .rest hmore hrest
  | @tile blanks _ _ _ _ hblanks hlexeme hwritten h =>
    have hmore : (c :: blanks).all isBlank = true := by rw [List.all_cons, hc, hblanks]; rfl
    exact .tile hmore hlexeme hwritten h

theorem Tiled.lexeme_ne_nil {text rest : List Char} {tiles : List Tile} {tile : Tile}
    (h : Tiled text tiles rest) (hmem : tile ∈ tiles) : tile.lexeme ≠ [] := by
  induction h with
  | rest => simp at hmem
  | tile _ hlexeme _ _ ih =>
    rcases List.mem_cons.1 hmem with rfl | hmem
    · exact hlexeme.ne_nil
    · exact ih hmem

/-! ## The end of a tiling -/

/-- No lexeme stands at the head of a text. -/
def BeginsNoLexeme (text : List Char) : Prop :=
  ∀ lexeme behind, text = lexeme ++ behind → ¬ Lexeme lexeme behind

theorem beginsNoLexeme_of_splitLexeme {text : List Char} (h : splitLexeme text = none) :
    BeginsNoLexeme text := by
  rintro lexeme behind rfl hlexeme
  rw [splitLexeme_append hlexeme] at h
  simp at h

theorem Lexeme.not_beginsNoLexeme {lexeme behind : List Char} (h : Lexeme lexeme behind) :
    ¬ BeginsNoLexeme (lexeme ++ behind) := fun hnone => hnone lexeme behind rfl h

/-- Whether a number with several points stands at the head of a text, as far as it goes. -/
def BeginsSeveralPoints (text lexeme : List Char) : Prop :=
  isNumberLexeme lexeme = true ∧ 2 ≤ lexeme.count '.' ∧
    ∃ behind, text = lexeme ++ behind ∧ EndsRun isNumberChar behind

/-- How tokens end in front of `rest`. -/
structure EndsAt (d : Dialect) (rest : List Char) (ending : StreamEnd) : Prop where
  endOfInput_iff : (∃ p, ending = .endOfInput p) ↔
    rest = [] ∨ d.endsAtUnknown = true ∧ rest ≠ [] ∧ BeginsNoLexeme rest
  unexpectedChar_iff : ∀ c, (∃ p, ending = .failure ⟨.unexpectedChar c, p⟩) ↔
    d.endsAtUnknown = false ∧ rest.head? = some c ∧ BeginsNoLexeme rest
  severalPoints_iff : ∀ s, (∃ p, ending = .failure ⟨.severalPoints s, p⟩) ↔
    ∃ lexeme, BeginsSeveralPoints rest lexeme ∧ s = String.ofList lexeme
  ne_invalidNumber : ∀ s p, ending ≠ .failure ⟨.invalidNumber s, p⟩

namespace EndsAt

variable {d : Dialect} {rest lexeme : List Char} {p : Position}

theorem not_beginsSeveralPoints (h : BeginsNoLexeme rest) : ¬ BeginsSeveralPoints rest lexeme := by
  rintro ⟨hnumber, -, behind, hrest, hends⟩
  exact h lexeme behind hrest (.number hnumber hends)

theorem beginsNoLexeme_nil : BeginsNoLexeme [] := beginsNoLexeme_of_splitLexeme rfl

theorem nil : EndsAt d [] (.endOfInput p) where
  endOfInput_iff := by simp
  unexpectedChar_iff := by simp
  severalPoints_iff s := by
    simp only [reduceCtorEq, exists_false, false_iff, not_exists, not_and]
    exact fun lexeme h => absurd h (not_beginsSeveralPoints beginsNoLexeme_nil)
  ne_invalidNumber := by simp

theorem unknown {c : Char} (h : BeginsNoLexeme (c :: rest)) :
    EndsAt d (c :: rest)
      (if d.endsAtUnknown then .endOfInput p else .failure ⟨.unexpectedChar c, p⟩) where
  endOfInput_iff := by cases d.endsAtUnknown <;> simp [h]
  unexpectedChar_iff c' := by cases d.endsAtUnknown <;> simp [h]
  severalPoints_iff s := by
    have hnone : ¬ ∃ lexeme, BeginsSeveralPoints (c :: rest) lexeme ∧ s = String.ofList lexeme :=
      fun ⟨lexeme, hpoints, _⟩ => not_beginsSeveralPoints h hpoints
    cases d.endsAtUnknown <;> simp [hnone]
  ne_invalidNumber := by cases d.endsAtUnknown <;> simp

/-- The lexeme found at the head of a text is the only one there. -/
theorem eq_of_lexeme {text lexeme behind lexeme' behind' : List Char}
    (htext : text = lexeme ++ behind) (h : Lexeme lexeme behind)
    (htext' : text = lexeme' ++ behind') (h' : Lexeme lexeme' behind') : lexeme = lexeme' := by
  have hsplit := splitLexeme_append h
  rw [← htext, htext', splitLexeme_append h', Option.some.injEq, Prod.mk.injEq] at hsplit
  exact hsplit.1.symm

theorem severalPoints {behind : List Char} (hnumber : isNumberLexeme lexeme = true)
    (hends : EndsRun isNumberChar behind) (hpoints : 1 < lexeme.count '.') :
    EndsAt d (lexeme ++ behind) (.failure ⟨.severalPoints (String.ofList lexeme), p⟩) where
  endOfInput_iff := by
    have hlexeme : Lexeme lexeme behind := .number hnumber hends
    simp [hlexeme.not_beginsNoLexeme, hlexeme.ne_nil]
  unexpectedChar_iff c := by
    have hlexeme : Lexeme lexeme behind := .number hnumber hends
    simp [hlexeme.not_beginsNoLexeme]
  severalPoints_iff s := by
    constructor
    · rintro ⟨q, hq⟩
      simp only [StreamEnd.failure.injEq, Positioned.mk.injEq, LexError.severalPoints.injEq] at hq
      exact ⟨lexeme, ⟨hnumber, hpoints, behind, rfl, hends⟩, hq.1.symm⟩
    -- A text begins with one lexeme only, so there is no other number with several points.
    · rintro ⟨lexeme', ⟨hnumber', -, behind', heq, hends'⟩, rfl⟩
      have hsame : lexeme = lexeme' :=
        eq_of_lexeme rfl (.number hnumber hends) heq (.number hnumber' hends')
      exact ⟨p, by rw [hsame]⟩
  ne_invalidNumber := by simp

end EndsAt

/-! ## What a scanner answers is a tiling -/

/-- The tokens in front of a text tile it, up to the place that ends them. -/
theorem Scanner.exists_tiled_before (d : Dialect) (text : List Char) (p : Position) :
    ∃ tiles rest, Tiled text tiles rest ∧
      ((before text p).stream d).tokens.map (·.value) = tiles.map Tile.token ∧
      EndsAt d rest ((before text p).stream d).ending := by
  induction text, p using text_induction with
  | nil p =>
    rw [stream_before_nil]
    exact ⟨[], [], .stop (.nil _), rfl, .nil⟩
  | blank c text p hc ih =>
    obtain ⟨tiles, rest, htiled, htokens, hends⟩ := ih
    rw [stream_before_blank hc]
    exact ⟨tiles, rest, htiled.blank hc, htokens, hends⟩
  | lexeme lexeme text p hlexeme ih =>
    rcases hlexeme.written_or_severalPoints with
      ⟨t, ht, hwritten⟩ | ⟨hnumber, hrun, hpoints, herror⟩
    · obtain ⟨tiles, rest, htiled, htokens, hends⟩ := ih
      rw [stream_before_lexeme hlexeme ht]
      refine ⟨⟨lexeme, t⟩ :: tiles, rest, .cons hlexeme hwritten htiled, ?_, hends⟩
      rw [List.map_cons, List.map_cons, htokens]
    · rw [stream_before_bad_lexeme hlexeme herror]
      exact ⟨[], lexeme ++ text, .stop (hlexeme.endsRun_isBlank text), rfl,
        .severalPoints hnumber hrun hpoints⟩
  | unknown c text p hblank hsplit =>
    rw [stream_before_unknown hblank hsplit]
    exact ⟨[], c :: text, .stop (.cons hblank text), rfl,
      .unknown (beginsNoLexeme_of_splitLexeme hsplit)⟩

/-- The answers up to the first end or error are the stream, the ends of lines included. -/
theorem Scanner.answers_eq_listing (d : Dialect) (s : Scanner) :
    s.answers d ((s.stream d).tokens.length + 1) = (s.stream d).listing true := by
  fun_induction Scanner.stream d s with
  | case1 s error s' h => simp [answers, TokenStream.listing, TokenStream.shown, h]
  | case2 s t s' h hkind =>
    have heof : t.value = .plain .eof :=
      (eq_plain_eof_or_scanned_of_next h).resolve_right fun ht => ht.kind_ne_eof hkind
    simp [answers, TokenStream.listing, TokenStream.shown, h, ← heof]
  | case3 s t s' h hkind later ih =>
    rw [List.length_cons, answers, h, ih]
    rfl

/-- **Tokens tile the text.**  Asked again and again, a scanner answers with its tokens and then
with their end.  The tokens are those of a tiling of the source text with lexemes of at least one
character, and what stands behind the tiling says how they end. -/
theorem TokenStream.exists_tiled (d : Dialect) (source : String) :
    Scanner.answers d ((ofSource d source).tokens.length + 1) (Scanner.ofSource source) =
        (ofSource d source).listing true ∧
      ∃ tiles rest, Tiled source.toList tiles rest ∧ (∀ tile ∈ tiles, tile.lexeme ≠ []) ∧
        (ofSource d source).tokens.map (·.value) = tiles.map Tile.token ∧
        EndsAt d rest (ofSource d source).ending := by
  obtain ⟨tiles, rest, htiled, htokens, hends⟩ :=
    Scanner.exists_tiled_before d source.toList .start
  exact ⟨Scanner.answers_eq_listing d _, tiles, rest, htiled,
    fun tile htile => htiled.lexeme_ne_nil htile, htokens, hends⟩

/-- Tiles need no blanks between them: a number, a minus with a number, and a word. -/
example : (TokenStream.ofSource .strict "3-2x").tokens.map (·.value) =
    [.number (.integer 3), .number (.integer (-2)), .identifier "x"] := by decide +kernel

end SmallLisp
