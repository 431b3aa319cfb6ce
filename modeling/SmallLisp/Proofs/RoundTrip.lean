import SmallLisp.Proofs.ReadBack
import SmallLisp.Proofs.Values

/-!
# Reading what was written

A program can be written and read again exactly if it is canonical.  One direction is
`readProgram_text_of_isCanonical`, which puts the two halves of reading back together: the
scanner finds the pieces, and the grammar derives the program from their tokens.

The other direction starts from a program whose text is read as an equal one.  What is read is
regular and within the limit, and so is everything equal to it; only the reals are left.  A text
could spell an infinity, by a literal beyond the range of doubles, but the text of a regular
program does not: its words are names and the texts of numbers, an infinity among them is written
as the word `inf`, and behind a minus that word is no token at all.
-/

namespace SmallLisp

/-! ## A canonical program is read back -/

/-- The text of a regular program of finite reals has the tokens of its pieces, in every
dialect. -/
theorem exists_ofSource_text_eq {p : Program} {readsForms : Bool}
    (hregular : Expr.isRegularAll readsForms p.expressions = true)
    (hfinite : ∀ x ∈ p.reals, x.isFinite = true) :
    ∃ us q, (∀ d, TokenStream.ofSource d p.text = ⟨us, .endOfInput q⟩) ∧
      (us.map (·.value)).filter (·.kind != .endLine) =
        (Expr.piecesAll p.expressions).map Piece.token := by
  have hspelled := Expr.spelled_of_mem_piecesAll hregular hfinite
  obtain ⟨us, q, hspells, hus⟩ := exists_spells_lines hspelled .start
  rw [← Program.chars_eq_flatMap] at hspells
  exact ⟨us, q, fun d => hspells.ofSource_eq d, hus⟩

/-- A canonical program is read from every text with the tokens of its pieces. -/
theorem readProgram_of_tokens {d : Dialect} {p : Program} (h : p.isCanonical d = true)
    {source : String} {us : List (Positioned Token)} {q : Position}
    (hstream : TokenStream.ofSource d source = ⟨us, .endOfInput q⟩)
    (hus : (us.map (·.value)).filter (·.kind != .endLine) =
      (Expr.piecesAll p.expressions).map Piece.token) : readProgram d source = .ok p := by
  obtain ⟨hregular, hfinite, hdepth⟩ := Program.isCanonical_iff.1 h
  rw [readProgram_eq_ok_iff_derivesAllWithin, TokenStream.map_value_significant, hstream, hus]
  exact ⟨⟨q, rfl⟩, Expr.derivesAll_piecesAll hregular hfinite, hdepth⟩

/-- A canonical program is read back from its text, the very same one. -/
theorem readProgram_text_of_isCanonical {d : Dialect} {p : Program}
    (h : p.isCanonical d = true) : readProgram d p.text = .ok p := by
  obtain ⟨hregular, hfinite, -⟩ := Program.isCanonical_iff.1 h
  obtain ⟨us, q, hstream, hus⟩ := exists_ofSource_text_eq hregular hfinite
  exact readProgram_of_tokens h (hstream d) hus

/-- What is read is regular and within the limit, and no real in it is a NaN. -/
theorem isRegularAll_of_readProgram {d : Dialect} {source : String} {p : Program}
    (h : readProgram d source = .ok p) :
    Expr.isRegularAll d.readsForms p.expressions = true ∧ (∀ x ∈ p.reals, x.isNaN = false) ∧
      p.depth ≤ nestingLimit := by
  obtain ⟨-, hderives, hdepth⟩ := (readProgram_eq_ok_iff_derivesAllWithin d source p).1 h
  have hscanned : ∀ t ∈ (TokenStream.ofSource d source).significant.map (·.value), t.Scanned :=
    fun t ht => TokenStream.scanned_of_mem_significant ht
  exact ⟨hderives.isRegularAll hscanned, fun x hx => hderives.isNaN_eq_false hscanned hx, hdepth⟩

theorem Binary64.isFinite_of_isNaN_of_isInfinite {x : Binary64} (hnan : x.isNaN = false)
    (hinfinite : x.isInfinite = false) : x.isFinite = true := by
  have hle : ¬infinityCode < x.magnitude := of_decide_eq_false hnan
  have hne : x.magnitude ≠ infinityCode := beq_eq_false_iff_ne.1 hinfinite
  exact decide_eq_true (by omega)

/-- **Writing a program that was read, and reading it again, changes nothing**, unless the program
has an infinity in it.  The second reading does not depend on what an unknown character means,
because the text contains none; and writing again gives the same text. -/
theorem exists_readProgram_text {d : Dialect} {source : String} {p : Program}
    (h : readProgram d source = .ok p) (hreals : ∀ x ∈ p.reals, x.isInfinite = false)
    (endsAtUnknown : Bool) :
    ∃ q, readProgram { d with endsAtUnknown } p.text = .ok q ∧ q.same p = true ∧
      q.text = p.text := by
  obtain ⟨hregular, hnan, hdepth⟩ := isRegularAll_of_readProgram h
  have hfinite : ∀ x ∈ p.reals, x.isFinite = true := fun x hx =>
    Binary64.isFinite_of_isNaN_of_isInfinite (hnan x hx) (hreals x hx)
  have hcanonical : p.isCanonical { d with endsAtUnknown } = true :=
    Program.isCanonical_iff.2 ⟨hregular, hfinite, hdepth⟩
  exact ⟨p, readProgram_text_of_isCanonical hcanonical, Program.same_self hnan, rfl⟩

/-- A quotation in the other spelling, a number with a digit too many, and blanks. -/
theorem exists_readProgram_text_quote :
    readProgram .standard "( QUOTE -0.50 )" =
        .ok ⟨[.quote (.real (.ofBits 0xBFE0000000000000))]⟩ ∧
      ∃ q, readProgram .strict "'-0.5\n" = .ok q ∧
        q.same ⟨[.quote (.real (.ofBits 0xBFE0000000000000))]⟩ = true ∧ q.text = "'-0.5\n" := by
  have hstream : TokenStream.ofSource .standard "( QUOTE -0.50 )" =
      ⟨[⟨.opening, ⟨0, 0⟩⟩, ⟨.word (.keyword .quote) "QUOTE", ⟨0, 2⟩⟩,
        ⟨.number (.real (.ofBits 0xBFE0000000000000)), ⟨0, 8⟩⟩, ⟨.closing, ⟨0, 14⟩⟩],
        .endOfInput ⟨0, 15⟩⟩ := by decide +kernel
  have hread : readProgram .standard "( QUOTE -0.50 )" =
      .ok ⟨[.quote (.real (.ofBits 0xBFE0000000000000))]⟩ := by
    rw [readProgram_eq_readFrom, hstream]
    rfl
  have htext : (Program.mk [.quote (.real (.ofBits 0xBFE0000000000000))]).text = "'-0.5\n" := by
    decide +kernel
  have hreals : ∀ x ∈ (Program.mk [.quote (.real (.ofBits 0xBFE0000000000000))]).reals,
      x.isInfinite = false := by decide
  have hback := exists_readProgram_text hread hreals false
  rw [htext] at hback
  exact ⟨hread, hback⟩

/-! ## The text of a regular program spells no infinity -/

namespace Piece

/-- The text of minus infinity. -/
def minusInfinity : Piece := .word ['-', 'i', 'n', 'f']

/-- The text of a double is that of a finite number or a word, minus infinity apart. -/
theorem spelled_or_eq_minusInfinity (x : Binary64) :
    (word x.text).Spelled ∨ word x.text = minusInfinity := by
  by_cases hfinite : x.isFinite = true
  · exact .inl (.number (n := .real x) hfinite)
  -- A NaN and plus infinity are written as words; only minus infinity is neither a number nor a
  -- word.
  · by_cases hnan : x.isNaN = true
    · have htext : x.text = ['N', 'a', 'N'] := by simp [Binary64.text, hnan]
      rw [htext]
      exact .inl (.word (by decide +kernel))
    · have hinfinite : x.isInfinite = true := by
        rw [Bool.not_eq_true] at hnan
        by_contra hne
        rw [Bool.not_eq_true] at hne
        exact hfinite (Binary64.isFinite_of_isNaN_of_isInfinite hnan hne)
      cases hsign : x.negative with
      | true =>
        have htext : x.text = ['-', 'i', 'n', 'f'] := by
          simp [Binary64.text, hnan, hinfinite, hsign]
        exact .inr (by rw [htext, minusInfinity])
      | false =>
        have htext : x.text = ['i', 'n', 'f'] := by
          simp [Binary64.text, hnan, hinfinite, hsign]
        rw [htext]
        exact .inl (.word (by decide +kernel))

variable {d : Dialect}

/-- There is no token in a text that begins with minus infinity. -/
theorem tokens_before_minusInfinity (rest : List Char) (a : Position) :
    ((Scanner.before (minusInfinity.chars ++ rest) a).stream d).tokens = [] := by
  have hletter : isAlphabetic '-' = false := by decide +kernel
  have hsplit : splitLexeme ('-' :: 'i' :: 'n' :: 'f' :: rest) = none := by
    simp [splitLexeme, isPunctuation, hletter, startsNumber]
  have hunknown := Scanner.stream_before_unknown (d := d) (by decide) hsplit a
  exact congrArg TokenStream.tokens hunknown

/-- A token of a layout that may contain minus infinity is that of one of its pieces, or one of
the tokens behind the layout. -/
theorem of_mem_stream_strokes {ps : List Piece} (hps : ∀ p ∈ ps, p.Spelled ∨ p = minusInfinity)
    {behind : List Char} (hword : EndsRun isWordChar behind)
    (hnumber : EndsRun isNumberChar behind) {a : Position} {t : Positioned Token}
    (ht : t ∈ ((Scanner.before ((strokes ps).flatten ++ behind) a).stream d).tokens) :
    (∃ p ∈ ps, p.Spelled ∧ t.value = p.token) ∨
      ∃ b, t ∈ ((Scanner.before behind b).stream d).tokens := by
  induction ps generalizing a with
  | nil => exact .inr ⟨a, ht⟩
  | cons p ps ih =>
    have ih : ∀ {b}, t ∈ ((Scanner.before ((strokes ps).flatten ++ behind) b).stream d).tokens →
        (∃ q ∈ p :: ps, q.Spelled ∧ t.value = q.token) ∨
          ∃ b, t ∈ ((Scanner.before behind b).stream d).tokens := by
      intro b hb
      rcases ih (fun q hq => hps q (List.mem_cons_of_mem _ hq)) hb with ⟨q, hq, hqt⟩ | hrest
      · exact .inl ⟨q, List.mem_cons_of_mem _ hq, hqt⟩
      · exact .inr hrest
    rcases hps p List.mem_cons_self with hp | rfl
    · obtain ⟨space, hspace, hstrokes, hlexeme⟩ := hp.exists_strokes_cons_eq ps hword hnumber
      rw [hstrokes, List.append_assoc, Scanner.stream_before_lexeme hlexeme hp.ofLexeme] at ht
      rcases List.mem_cons.1 ht with rfl | ht
      · exact .inl ⟨p, List.mem_cons_self, hp, rfl⟩
      · rcases hspace with rfl | rfl
        · exact ih ht
        · rw [List.append_assoc, List.cons_append,
            Scanner.stream_before_blank (by decide)] at ht
          exact ih ht
    · obtain ⟨rest, hrest⟩ := exists_flatten_strokes_eq minusInfinity ps
      rw [hrest, List.append_assoc, tokens_before_minusInfinity] at ht
      simp at ht

/-- The real that a piece is scanned as is finite. -/
theorem Spelled.isFinite_of_real? {p : Piece} {x : Binary64} (hp : p.Spelled)
    (hx : p.token.real? = some x) : x.isFinite = true := by
  cases hp with
  | opening => cases hx
  | closing => cases hx
  | tick => cases hx
  | word hletters =>
    rw [token_of_isWord hletters, Token.ofWord] at hx
    split at hx <;> cases hx
  | @number n hn =>
    rw [token_number hn] at hx
    cases n with
    | integer n => cases hx
    | real y =>
      cases hx
      exact hn

end Piece

theorem of_mem_stream_lines {d : Dialect} {es : List Expr}
    (hes : ∀ p ∈ Expr.piecesAll es, p.Spelled ∨ p = Piece.minusInfinity) {a : Position}
    {t : Positioned Token}
    (ht : t ∈ ((Scanner.before (es.flatMap fun e => e.chars ++ ['\n']) a).stream d).tokens) :
    t.value = .plain .endLine ∨ ∃ p : Piece, p.Spelled ∧ t.value = p.token := by
  induction es generalizing a with
  | nil => simp [Scanner.stream_before_nil] at ht
  | cons e es ih =>
    have he : ∀ p ∈ e.pieces, p.Spelled ∨ p = Piece.minusInfinity :=
      fun p hp => hes p (List.mem_append_left _ hp)
    have ih := @ih fun p hp => hes p (List.mem_append_right _ hp)
    rw [List.flatMap_cons, List.append_assoc] at ht
    rcases Piece.of_mem_stream_strokes he (Piece.endsRun_isWordChar_of_mem (by decide) _)
      (Piece.endsRun_isNumberChar_of_mem (by decide) _) ht with ⟨p, -, hp⟩ | ⟨b, hb⟩
    · exact .inr ⟨p, hp⟩
    · change t ∈ ((Scanner.before (['\n'] ++ es.flatMap fun e => e.chars ++ ['\n']) b).stream
        d).tokens at hb
      rw [Scanner.stream_before_lexeme (.newline _) rfl] at hb
      rcases List.mem_cons.1 hb with rfl | hb
      · exact .inl rfl
      · exact ih hb

/-- The text of a regular program spells finite reals only, whatever reals are in it. -/
theorem isFinite_of_mem_stream_text {d : Dialect} {p : Program} {readsForms : Bool}
    (h : Expr.isRegularAll readsForms p.expressions = true) {t : Positioned Token} {x : Binary64}
    (ht : t ∈ (TokenStream.ofSource d p.text).tokens) (hx : t.value.real? = some x) :
    x.isFinite = true := by
  have hpieces : ∀ q ∈ Expr.piecesAll p.expressions, q.Spelled ∨ q = Piece.minusInfinity :=
    Expr.forall_mem_piecesAll (fun _ hq => .inl hq) h fun x _ =>
      Piece.spelled_or_eq_minusInfinity x
  have hsource : Scanner.ofSource p.text =
      Scanner.before (p.expressions.flatMap fun e => e.chars ++ ['\n']) .start := by
    simp [Scanner.ofSource, Scanner.before, Program.text, Program.chars_eq_flatMap]
  rw [TokenStream.ofSource, hsource] at ht
  rcases of_mem_stream_lines hpieces ht with hline | ⟨q, hq, hqt⟩
  · rw [hline] at hx
    cases hx
  · rw [hqt] at hx
    exact hq.isFinite_of_real? hx

/-! ## Which programs are read back -/

/-- A program whose text is read as an equal program is canonical. -/
theorem isCanonical_of_readProgram_text {d : Dialect} {p q : Program}
    (h : readProgram d p.text = .ok q) (hsame : q.same p = true) : p.isCanonical d = true := by
  obtain ⟨hregular, -, hdepth⟩ := isRegularAll_of_readProgram h
  obtain ⟨-, hderives, -⟩ := (readProgram_eq_ok_iff_derivesAllWithin d p.text q).1 h
  have hfinite : ∀ x ∈ q.reals, x.isFinite = true := by
    intro x hx
    rw [Program.reals, hderives.realsAll_eq fun t ht =>
      TokenStream.scanned_of_mem_significant ht, List.mem_filterMap] at hx
    obtain ⟨t, ht, hreal⟩ := hx
    obtain ⟨u, hu, rfl⟩ := List.mem_map.1 ht
    have hregular' := Program.isRegularAll_of_same hsame hregular
    exact isFinite_of_mem_stream_text hregular' (List.mem_of_mem_filter hu) hreal
  exact Program.isCanonical_of_same hsame
    (Program.isCanonical_iff.2 ⟨hregular, hfinite, hdepth⟩)

/-- **The programs that can be written and read again are the canonical ones.**  It makes no
difference whether the program that is read has to be the same one or an equal one. -/
theorem readProgram_text_eq_ok_iff (d : Dialect) (p : Program) :
    (readProgram d p.text = .ok p ↔ p.isCanonical d = true) ∧
      ((∃ q, readProgram d p.text = .ok q ∧ q.same p = true) ↔ p.isCanonical d = true) := by
  have hself : p.isCanonical d = true → p.same p = true := by
    intro h
    obtain ⟨-, hfinite, -⟩ := Program.isCanonical_iff.1 h
    -- A canonical program has no NaN in it, the one thing that is not equal to itself.
    refine Program.same_self fun x hx => ?_
    have hlt : x.magnitude < Binary64.infinityCode := of_decide_eq_true (hfinite x hx)
    exact decide_eq_false (Nat.not_lt_of_lt hlt)
  constructor
  · constructor
    · intro h
      obtain ⟨-, hnan, -⟩ := isRegularAll_of_readProgram h
      exact isCanonical_of_readProgram_text h (Program.same_self hnan)
    · exact readProgram_text_of_isCanonical
  · constructor
    · rintro ⟨q, hq, hsame⟩
      exact isCanonical_of_readProgram_text hq hsame
    · intro h
      exact ⟨p, readProgram_text_of_isCanonical h, hself h⟩

end SmallLisp
