import SmallLisp.Proofs.Grammar
import SmallLisp.Proofs.Lexemes
import SmallLisp.Proofs.TokenList

/-!
# The tokens there are

Not everything of the type `Token` can come out of a text.  The tokens that can are listed here
once, with what their literals are known to satisfy, and the rest of the theory only ever
looks at these: an identifier is a word and no reserved one, a real is never a NaN, and only
words and numbers carry a literal.
-/

namespace SmallLisp

/-- **A token that can come out of a text.**  The end of the input is not among them. -/
inductive Token.Scanned : Token → Prop
  | endLine : Scanned (.plain .endLine)
  | opening : Scanned .opening
  | closing : Scanned .closing
  | tick : Scanned (.plain (.keyword .quote))
  | boolean (b : Bool) : Scanned (.boolean b)
  | identifier {letters : List Char} (hword : isWord letters = true)
      (hfree : TokenKind.ofWord? letters = none) : Scanned (.identifier (String.ofList letters))
  | keyword {k : Keyword} {letters : List Char} (hword : isWord letters = true)
      (hkeyword : TokenKind.ofWord? letters = some (.keyword k)) :
      Scanned (.word (.keyword k) (String.ofList letters))
  | integer (n : Int) : Scanned (.number (.integer n))
  | real {x : Binary64} (hx : x.isNaN = false) : Scanned (.number (.real x))

namespace Token

@[simp] theorem kind_plain (kind : TokenKind) : (plain kind).kind = kind := rfl

@[simp] theorem kind_opening : opening.kind = .openParen := rfl

@[simp] theorem kind_closing : closing.kind = .closeParen := rfl

@[simp] theorem kind_boolean (b : Bool) : (boolean b).kind = .boolean := rfl

@[simp] theorem kind_identifier (name : String) : (identifier name).kind = .identifier := rfl

@[simp] theorem kind_word (kind : TokenKind) (lexeme : String) :
    (word kind lexeme).kind = kind := rfl

@[simp] theorem kind_integer (n : Int) : (number (.integer n)).kind = .integer := rfl

@[simp] theorem kind_real (x : Binary64) : (number (.real x)).kind = .real := rfl

theorem toList_text_identifier (letters : List Char) :
    (identifier (String.ofList letters)).text.toList = letters := String.toList_ofList

theorem toList_text_word (kind : TokenKind) (letters : List Char) :
    (word kind (String.ofList letters)).text.toList = letters := String.toList_ofList

theorem toList_text_number (n : Number) : (number n).text.toList = n.chars := by
  cases n <;> exact String.toList_ofList

variable {t : Token}

theorem Scanned.kind_ne_eof (ht : t.Scanned) : t.kind ≠ .eof := by
  cases ht <;> simp

theorem Scanned.eq_opening (ht : t.Scanned) (hkind : t.kind = .openParen) : t = Token.opening := by
  cases ht <;> simp_all

theorem Scanned.eq_closing (ht : t.Scanned) (hkind : t.kind = .closeParen) : t = Token.closing := by
  cases ht <;> simp_all

theorem Scanned.eq_word_quote (ht : t.Scanned) (h : t.isQuoteKeyword = true) :
    ∃ lexeme, t = word (.keyword .quote) lexeme := by
  cases ht <;> simp_all [isQuoteKeyword, plain, word]

/-- A token that is taken for a name is one. -/
theorem Scanned.names {name : String} (ht : t.Scanned) (h : t.name? = some name) :
    t.Names name := by
  cases ht with
  | boolean b =>
    cases h
    exact .boolean b
  | identifier hword hfree =>
    cases h
    exact .identifier _
  | @keyword k letters hword hkeyword =>
    have hname : (word (.keyword k) (String.ofList letters)).name? = some k.word := by
      cases k <;> rfl
    rw [hname] at h
    cases h
    exact .keyword k _
  | tick => cases h
  | _ => simp [name?] at h

end Token

namespace TokenKind

/-- A reserved word is a truth value or a keyword. -/
theorem eq_boolean_or_keyword_of_ofWord? {letters : List Char} {kind : TokenKind}
    (h : ofWord? letters = some kind) : kind = .boolean ∨ ∃ k, kind = .keyword k := by
  have hkinds : ∀ entry ∈ reservedWords,
      entry.2 = .boolean ∨ entry.2 ∈ Keyword.all.map keyword := by decide
  obtain ⟨entry, hfind, rfl⟩ := Option.map_eq_some_iff.1 h
  rcases hkinds entry (List.mem_of_find?_eq_some hfind) with hboolean | hkeyword
  · exact .inl hboolean
  · obtain ⟨k, -, hk⟩ := List.mem_map.1 hkeyword
    exact .inr ⟨k, hk.symm⟩

/-- Canonical names are reserved for their keywords. -/
theorem ofWord?_word (k : Keyword) : ofWord? k.word.toList = some (.keyword k) := by
  have hall : ∀ k ∈ Keyword.all, ofWord? k.word.toList = some (.keyword k) := by decide +kernel
  exact hall k (Keyword.mem_all k)

/-- A word that is not reserved is no keyword's name. -/
theorem ofName?_eq_none_of_ofWord? {letters : List Char} (h : ofWord? letters = none) :
    Keyword.ofName? (String.ofList letters) = none := by
  cases hname : Keyword.ofName? (String.ofList letters) with
  | none => rfl
  | some k =>
    have hk : k.word.toList = letters := by rw [Keyword.word_of_ofName? hname]; simp
    have hsome := ofWord?_word k
    rw [hk, h] at hsome
    simp at hsome

end TokenKind

/-! ## Every token of a text is one of these -/

theorem Number.isNaN_eq_false_of_read? {text : List Char} {x : Binary64}
    (h : Number.read? text = some (.real x)) : x.isNaN = false := by
  unfold Number.read? at h
  split at h
  · obtain ⟨y, hy, hxy⟩ := Option.map_eq_some_iff.1 h
    obtain ⟨d, -, hd⟩ := Option.map_eq_some_iff.1 hy
    simp only [Number.real.injEq] at hxy
    subst hxy hd
    have hle := d.nearestMagnitude_le
    exact decide_eq_false (Nat.not_lt_of_le hle)
  · obtain ⟨n, -, hn⟩ := Option.map_eq_some_iff.1 h
    simp at hn

theorem Token.scanned_ofNumber {lexeme : List Char} {t : Token}
    (h : Token.ofNumber lexeme = .ok t) : t.Scanned := by
  unfold Token.ofNumber at h
  split at h
  · simp at h
  · split at h
    · next n hn =>
      simp only [Except.ok.injEq] at h
      subst h
      cases n with
      | integer n => exact .integer n
      | real x => exact .real (Number.isNaN_eq_false_of_read? hn)
    · simp at h

theorem Token.scanned_ofWord {lexeme : List Char} (hword : isWord lexeme = true) :
    (Token.ofWord lexeme).Scanned := by
  unfold Token.ofWord
  split
  · exact .boolean _
  · next kind hne hkind =>
    rcases TokenKind.eq_boolean_or_keyword_of_ofWord? hkind with hboolean | ⟨k, hk⟩
    · exact absurd hboolean hne
    · subst hk
      exact .keyword hword hkind
  · next hfree => exact .identifier hword hfree

theorem Token.ofLexeme_of_isWord {letters : List Char} (h : isWord letters = true) :
    Token.ofLexeme letters = .ok (.ofWord letters) := by
  obtain _ | ⟨c, rest⟩ := letters
  · simp [isWord] at h
  · simp only [isWord, Bool.and_eq_true] at h
    have hne : ∀ d ∈ ['\n', '\r', '\'', '(', ')'], c ≠ d := by
      rintro d hd rfl
      have hall : ['\n', '\r', '\'', '(', ')'].all (!isAlphabetic ·) = true := by decide +kernel
      have hc := List.all_eq_true.1 hall c hd
      simp [h.1] at hc
    simp [Token.ofLexeme, hne, h.1]

theorem Token.ofLexeme_of_isNumberLexeme {letters : List Char} (h : isNumberLexeme letters = true) :
    Token.ofLexeme letters = Token.ofNumber letters := by
  obtain _ | ⟨c, rest⟩ := letters
  · simp [isNumberLexeme] at h
  · simp only [isNumberLexeme, Bool.and_eq_true] at h
    have hne : ∀ d ∈ ['\n', '\r', '\'', '(', ')'], c ≠ d := by
      rintro d hd rfl
      have hall : ['\n', '\r', '\'', '(', ')'].all
          (fun d => !(d == '-' || d == '.' || d.isDigit)) = true := by decide
      have hc := List.all_eq_true.1 hall c hd
      rcases eq_or_isDigit_of_startsNumber h.1 with rfl | rfl | hdigit <;> simp_all
    simp [Token.ofLexeme, hne, isAlphabetic_eq_false_of_startsNumber h.1]

/-- What a lexeme means is a token from the list. -/
theorem Lexeme.scanned {lexeme rest : List Char} {t : Token} (hlexeme : Lexeme lexeme rest)
    (h : Token.ofLexeme lexeme = .ok t) : t.Scanned := by
  cases hlexeme with
  | newline => cases h; exact .endLine
  | returnNewline => cases h; exact .endLine
  | loneReturn => cases h; exact .endLine
  | tick => cases h; exact .tick
  | openParen => cases h; exact .opening
  | closeParen => cases h; exact .closing
  | word hword =>
    rw [Token.ofLexeme_of_isWord hword] at h
    cases h
    exact Token.scanned_ofWord hword
  | number hnumber =>
    rw [Token.ofLexeme_of_isNumberLexeme hnumber] at h
    exact Token.scanned_ofNumber h

/-- What a scanner answers is the end of the input or a token from the list. -/
theorem Scanner.eq_plain_eof_or_scanned_of_next {d : Dialect} {s s' : Scanner}
    {t : Positioned Token} (h : s.next d = (.ok t, s')) :
    t.value = .plain .eof ∨ t.value.Scanned := by
  unfold Scanner.next at h
  split at h
  · simp only [Prod.mk.injEq, Except.ok.injEq] at h
    exact .inl (by rw [← h.1])
  · simp only at h
    split at h
    · next lexeme rest hsplit =>
      simp only [Prod.mk.injEq] at h
      split at h
      · next token htoken =>
        obtain ⟨h, -⟩ := h
        cases h
        exact .inr ((lexeme_of_splitLexeme hsplit).2.scanned htoken)
      · simp at h
    · split at h
      · simp only [Prod.mk.injEq, Except.ok.injEq] at h
        exact .inl (by rw [← h.1])
      · split at h
        · simp only [Prod.mk.injEq, Except.ok.injEq] at h
          exact .inl (by rw [← h.1])
        · simp at h

theorem Scanner.scanned_of_next {d : Dialect} {s s' : Scanner} {t : Positioned Token}
    (h : s.next d = (.ok t, s')) (hne : t.value.kind ≠ .eof) : t.value.Scanned := by
  refine (eq_plain_eof_or_scanned_of_next h).resolve_left fun heof => hne ?_
  rw [heof]
  rfl

/-- Every token of a text is in the list. -/
theorem Scanner.scanned_of_mem_stream {d : Dialect} {s : Scanner} {t : Positioned Token}
    (ht : t ∈ (s.stream d).tokens) : t.value.Scanned := by
  fun_induction Scanner.stream d s with
  | case1 s error s' h => simp at ht
  | case2 s u s' h hkind => simp at ht
  | case3 s u s' h hkind later ih =>
    rcases List.mem_cons.1 ht with rfl | ht
    · exact Scanner.scanned_of_next h hkind
    · exact ih ht

theorem TokenStream.scanned_of_mem_significant {d : Dialect} {source : String} {t : Token}
    (ht : t ∈ (ofSource d source).significant.map (·.value)) : t.Scanned := by
  obtain ⟨p, hp, rfl⟩ := List.mem_map.1 ht
  exact Scanner.scanned_of_mem_stream (List.mem_of_mem_filter hp)

end SmallLisp
