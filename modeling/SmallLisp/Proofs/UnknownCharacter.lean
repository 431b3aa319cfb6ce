import SmallLisp.Proofs.Places
import SmallLisp.Proofs.Recognition
import SmallLisp.Proofs.Tiling

/-!
# What an unknown character means

A character that no token starts with is an error in one dialect and the end of the input in the
other.  It is looked at only once everything in front of it has been scanned, and nothing behind
it is looked at at all.  So where it is the end of the input, the text might as well be cut there:
the tokens are those of the text in front of the character, positions included, and what is read
is what is read from that text (`StopsAt`).

A reader only gets to the error if nothing in front of it was refused.  It is then the error that
is reported, also where the other dialect finds the program incomplete, or complete.
-/

namespace SmallLisp

/-! ## The text in front of an unknown character -/

/-- A lexeme by itself is no unknown character. -/
theorem Lexeme.ofLexeme_ne_unexpectedChar {lexeme rest : List Char} (h : Lexeme lexeme rest)
    (c : Char) : Token.ofLexeme lexeme ≠ .error (.unexpectedChar c) := by
  intro herror
  obtain ⟨-, -, -, hseveral⟩ := h.severalPoints_of_error herror
  cases hseveral

namespace Scanner

variable {d : Dialect} {text : List Char} {p q : Position} {c : Char}

/-- Where a scanner stops at an unknown character, the text in front of it spells the tokens,
and the scanner stands at the character. -/
theorem exists_spells_of_unexpectedChar (hends : d.endsAtUnknown = false)
    (h : ((before text p).stream d).ending = .failure ⟨.unexpectedChar c, q⟩) :
    ∃ front rest, text = front ++ c :: rest ∧
      Spells p front (c :: rest) ((before text p).stream d).tokens q ∧
      isBlank c = false ∧ splitLexeme (c :: rest) = none ∧
      afterRequests d (((before text p).stream d).tokens.length + 1) (before text p) =
        before (c :: rest) q := by
  induction text, p using text_induction with
  | nil p => simp [stream_before_nil] at h
  | blank b text p hb ih =>
    rw [stream_before_blank hb] at h ⊢
    obtain ⟨front, rest, rfl, hspells, hblank, hsplit, hafter⟩ := ih h
    refine ⟨b :: front, rest, rfl, .blank hb hspells, hblank, hsplit, ?_⟩
    rw [← hafter, afterRequests, afterRequests, next_before_blank hb]
  | lexeme lexeme text p hlexeme ih =>
    cases ht : Token.ofLexeme lexeme with
    | error error =>
      rw [stream_before_bad_lexeme hlexeme ht] at h
      cases h
      exact absurd ht (hlexeme.ofLexeme_ne_unexpectedChar c)
    | ok t =>
      rw [stream_before_lexeme hlexeme ht] at h ⊢
      obtain ⟨front, rest, rfl, hspells, hblank, hsplit, hafter⟩ := ih h
      refine ⟨lexeme ++ front, rest, (List.append_assoc _ _ _).symm,
        .lexeme hlexeme ht hspells, hblank, hsplit, ?_⟩
      rw [List.length_cons, afterRequests, next_before_lexeme hlexeme ht]
      exact hafter
  | unknown b text p hblank hsplit =>
    rw [stream_before_unknown hblank hsplit, hends] at h ⊢
    cases h
    refine ⟨[], text, rfl, .nil _ _, hblank, hsplit, ?_⟩
    rw [List.length_nil, afterRequests, next_before_unknown hblank hsplit hends]
    rfl

/-- Where no unknown character stops a scanner, it does not matter what one would mean. -/
theorem stream_eq_of_ne_unexpectedChar {d' : Dialect} (hends : d.endsAtUnknown = false)
    (h : ∀ c q, ((before text p).stream d).ending ≠ .failure ⟨.unexpectedChar c, q⟩) :
    (before text p).stream d' = (before text p).stream d := by
  induction text, p using text_induction with
  | nil p => rw [stream_before_nil, stream_before_nil]
  | blank b text p hb ih =>
    rw [stream_before_blank hb] at h ⊢
    rw [stream_before_blank hb, ih h]
  | lexeme lexeme text p hlexeme ih =>
    cases ht : Token.ofLexeme lexeme with
    | error error =>
      rw [stream_before_bad_lexeme hlexeme ht, stream_before_bad_lexeme hlexeme ht]
    | ok t =>
      rw [stream_before_lexeme hlexeme ht] at h ⊢
      rw [stream_before_lexeme hlexeme ht, ih h]
  | unknown b text p hblank hsplit =>
    rw [stream_before_unknown hblank hsplit, hends] at h
    exact absurd rfl (h b p)

end Scanner

/-- The end of a text is behind all of its tokens. -/
theorem TokenStream.position_lt_of_mem_significant {d : Dialect} {source : String}
    {t : Positioned Token} (ht : t ∈ (ofSource d source).significant) :
    t.position < (ofSource d source).ending.position := by
  have hpairwise := pairwise_positions_ofSource d source
  rw [positions, List.pairwise_append] at hpairwise
  exact hpairwise.2.2 _ (List.mem_map_of_mem (List.mem_of_mem_filter ht)) _
    (List.mem_singleton_self _)

/-! ## An error at the end -/

/-- A lexical error takes the place of the end of the input: what is refused in front of it is
refused all the same, and otherwise the error is reported. -/
theorem Unfinished.readFrom_failure_cases (rules : Rules) (u : Unfinished)
    (ts : List (Positioned Token)) (error : Positioned LexError) :
    (∃ t ∈ ts, ∃ e, u.readFrom rules (.endOfInput error.position) ts = .error ⟨e, t.position⟩ ∧
        u.readFrom rules (.failure error) ts = .error ⟨e, t.position⟩) ∨
      ((∃ p, u.readFrom rules (.endOfInput error.position) ts = .ok p) ∨
          ∃ e, u.readFrom rules (.endOfInput error.position) ts = .error ⟨e, error.position⟩) ∧
        u.readFrom rules (.failure error) ts = .error (error.map .lexical) := by
  induction ts generalizing u with
  | nil =>
    cases u with
    | topLevel doneRev => exact .inr ⟨.inl ⟨_, rfl⟩, rfl⟩
    | within innermost around doneRev => exact .inr ⟨.inr ⟨_, rfl⟩, rfl⟩
  | cons t ts ih =>
    rw [readFrom, readFrom]
    cases u.advance rules t.value with
    | error e => exact .inl ⟨t, List.mem_cons_self, _, rfl, rfl⟩
    | ok v =>
      -- The first refusal is the same for both endings, since the ending is looked at last.
      rcases ih v with ⟨s, hs, hcase⟩ | hcase
      · exact .inl ⟨s, List.mem_cons_of_mem _ hs, hcase⟩
      · exact .inr hcase

/-! ## Reading up to an unknown character -/

/-- **The strict scanner stops at the character with index `i`.**  What the lenient dialect makes of
the text, and how the strict one reports the error. -/
structure StopsAt (readsForms : Bool) (source : String) (c : Char) (position : Position)
    (i : Nat) : Prop where
  /-- The character is at its index, and that is where the strict scanner stands. -/
  getElem?_eq : source.toList[i]? = some c
  rest_eq : (Scanner.afterRequests ⟨readsForms, false⟩
      ((TokenStream.ofSource ⟨readsForms, false⟩ source).tokens.length + 1)
      (Scanner.ofSource source)).rest = source.toList.drop i
  /-- The lenient tokens, their places and their end are those of the text in front. -/
  ofSource_eq : TokenStream.ofSource ⟨readsForms, true⟩ source =
    TokenStream.ofSource ⟨readsForms, false⟩ (String.ofList (source.toList.take i))
  ending_eq : (TokenStream.ofSource ⟨readsForms, true⟩ source).ending = .endOfInput position
  /-- So is what is read, or the error and its place. -/
  readProgram_eq : readProgram ⟨readsForms, true⟩ source =
    readProgram ⟨readsForms, false⟩ (String.ofList (source.toList.take i))
  /-- The strict dialect reads no program. -/
  readProgram_ne_ok : ∀ p, readProgram ⟨readsForms, false⟩ source ≠ .ok p
  /-- An error at a token is the error in both dialects. -/
  readProgram_eq_of_token : ∀ t ∈ (TokenStream.ofSource ⟨readsForms, true⟩ source).significant,
    t.position ≠ position ∧
      ∀ error, readProgram ⟨readsForms, true⟩ source = .error ⟨error, t.position⟩ →
        readProgram ⟨readsForms, false⟩ source = .error ⟨error, t.position⟩
  /-- Success and an error at the end become an error about the character. -/
  readProgram_eq_of_end : (∃ p, readProgram ⟨readsForms, true⟩ source = .ok p) ∨
      (∃ error, readProgram ⟨readsForms, true⟩ source = .error ⟨error, position⟩) →
    readProgram ⟨readsForms, false⟩ source = .error ⟨.lexical (.unexpectedChar c), position⟩
  /-- There is no other place for an error. -/
  readProgram_cases : (∃ p, readProgram ⟨readsForms, true⟩ source = .ok p) ∨
    (∃ error, readProgram ⟨readsForms, true⟩ source = .error ⟨error, position⟩) ∨
    ∃ t ∈ (TokenStream.ofSource ⟨readsForms, true⟩ source).significant, ∃ error,
      readProgram ⟨readsForms, true⟩ source = .error ⟨error, t.position⟩

section

variable {readsForms : Bool} {source : String} {c : Char} {position : Position}

/-- What the two dialects read, if they have the same tokens and one of them an error at the end. -/
theorem readProgram_failure_cases {ts : List (Positioned Token)} {error : LexError}
    (hlenient : TokenStream.ofSource ⟨readsForms, true⟩ source = ⟨ts, .endOfInput position⟩)
    (hstrict : TokenStream.ofSource ⟨readsForms, false⟩ source =
      ⟨ts, .failure ⟨error, position⟩⟩) :
    (∃ t ∈ (TokenStream.ofSource ⟨readsForms, true⟩ source).significant, ∃ e,
        readProgram ⟨readsForms, true⟩ source = .error ⟨e, t.position⟩ ∧
        readProgram ⟨readsForms, false⟩ source = .error ⟨e, t.position⟩) ∨
      ((∃ p, readProgram ⟨readsForms, true⟩ source = .ok p) ∨
          ∃ e, readProgram ⟨readsForms, true⟩ source = .error ⟨e, position⟩) ∧
        readProgram ⟨readsForms, false⟩ source = .error ⟨.lexical error, position⟩ := by
  rw [readProgram_eq_readFrom, readProgram_eq_readFrom, hlenient, hstrict]
  exact Unfinished.readFrom_failure_cases ⟨readsForms, some nestingLimit⟩ .empty _
    ⟨error, position⟩

/-- The tokens in front of an unknown character are those of the text in front of it, in every
dialect, and in both dialects those of the whole text. -/
theorem exists_ofSource_take_eq (h : (TokenStream.ofSource ⟨readsForms, false⟩ source).ending =
      .failure ⟨.unexpectedChar c, position⟩) :
    ∃ i ts, source.toList[i]? = some c ∧
      (Scanner.afterRequests ⟨readsForms, false⟩
        ((TokenStream.ofSource ⟨readsForms, false⟩ source).tokens.length + 1)
        (Scanner.ofSource source)).rest = source.toList.drop i ∧
      TokenStream.ofSource ⟨readsForms, false⟩ source =
        ⟨ts, .failure ⟨.unexpectedChar c, position⟩⟩ ∧
      TokenStream.ofSource ⟨readsForms, true⟩ source = ⟨ts, .endOfInput position⟩ ∧
      ∀ d, TokenStream.ofSource d (String.ofList (source.toList.take i)) =
        ⟨ts, .endOfInput position⟩ := by
  obtain ⟨front, rest, htext, hspells, hblank, hsplit, hafter⟩ :=
    Scanner.exists_spells_of_unexpectedChar rfl h
  refine ⟨front.length, (TokenStream.ofSource ⟨readsForms, false⟩ source).tokens,
    ?_, ?_, by rw [← h], ?_, fun d => ?_⟩
  · rw [htext, List.getElem?_append_right (Nat.le_refl _), Nat.sub_self]
    rfl
  · rw [htext, List.drop_left]
    exact congrArg Scanner.rest hafter
  · have hscanner : Scanner.ofSource source = Scanner.before (front ++ c :: rest) .start := by
      rw [← htext]
      rfl
    have hlenient := hspells.stream_eq ⟨readsForms, true⟩
    rw [Scanner.stream_before_unknown hblank hsplit, List.append_nil, ← hscanner] at hlenient
    exact hlenient
  · rw [htext, List.take_left]
    exact hspells.before_nil.ofSource_eq d

theorem exists_stopsAt (h : (TokenStream.ofSource ⟨readsForms, false⟩ source).ending =
      .failure ⟨.unexpectedChar c, position⟩) :
    ∃ i, StopsAt readsForms source c position i := by
  obtain ⟨i, ts, hchar, hrest, hstrict, hlenient, hfront⟩ := exists_ofSource_take_eq h
  -- An error at a token and an error at the end are told apart by their places.
  have hplace : ∀ t ∈ (TokenStream.ofSource ⟨readsForms, true⟩ source).significant,
      t.position ≠ position := by
    intro t ht
    have hlt := TokenStream.position_lt_of_mem_significant ht
    rw [hlenient] at hlt
    exact ne_of_lt hlt
  have hcases := readProgram_failure_cases hlenient hstrict
  refine ⟨i, {
    getElem?_eq := hchar
    rest_eq := hrest
    ofSource_eq := by rw [hlenient, hfront]
    ending_eq := by rw [hlenient]
    readProgram_eq := ?_
    readProgram_ne_ok := ?_
    readProgram_eq_of_token := ?_
    readProgram_eq_of_end := ?_
    readProgram_cases := ?_ }⟩
  · rw [readProgram_eq_readFrom, readProgram_eq_readFrom, hlenient, hfront]
    rfl
  · intro p hp
    rcases hcases with ⟨t, -, e, -, herror⟩ | ⟨-, herror⟩ <;> rw [hp] at herror <;> cases herror
  · intro t ht
    refine ⟨hplace t ht, ?_⟩
    intro error herror
    rcases hcases with ⟨s, -, e, hs, hsame⟩ | ⟨⟨p, hp⟩ | ⟨e, he⟩, -⟩
    · rw [hsame, ← hs, herror]
    · rw [hp] at herror
      cases herror
    · rw [he] at herror
      cases herror
      exact absurd rfl (hplace t ht)
  · intro hend
    rcases hcases with ⟨t, ht, e, he, -⟩ | ⟨-, herror⟩
    · rcases hend with ⟨p, hp⟩ | ⟨error, herror⟩
      · rw [hp] at he
        cases he
      · rw [herror, Except.error.injEq, Positioned.mk.injEq] at he
        exact absurd he.2.symm (hplace t ht)
    · exact herror
  · rcases hcases with ⟨t, ht, e, he, -⟩ | ⟨hp | he, -⟩
    · exact .inr (.inr ⟨t, ht, e, he⟩)
    · exact .inl hp
    · exact .inr (.inl he)

end

/-- **The lenient and the strict treatment of unknown characters.**  If the strict scanner stops at
an unknown character, the lenient dialect reads the text in front of it as the strict one would,
and the strict dialect reports what the lenient one does unless that is success or an error at the
end, and then the character.  If the strict scanner does not stop at one, both read the same. -/
theorem readProgram_unknown (readsForms : Bool) (source : String) :
    (∀ c position, (TokenStream.ofSource ⟨readsForms, false⟩ source).ending =
        .failure ⟨.unexpectedChar c, position⟩ → ∃ i, StopsAt readsForms source c position i) ∧
      ((∀ c position, (TokenStream.ofSource ⟨readsForms, false⟩ source).ending ≠
          .failure ⟨.unexpectedChar c, position⟩) →
        readProgram ⟨readsForms, true⟩ source = readProgram ⟨readsForms, false⟩ source) := by
  constructor
  · intro c position h
    exact exists_stopsAt h
  · intro h
    have hstream : TokenStream.ofSource ⟨readsForms, true⟩ source =
        TokenStream.ofSource ⟨readsForms, false⟩ source :=
      Scanner.stream_eq_of_ne_unexpectedChar rfl h
    rw [readProgram_eq_readFrom, readProgram_eq_readFrom, hstream]
    rfl

/-- An unfinished list in front of an unknown character, and an error of another kind. -/
theorem readProgram_unknown_unfinished :
    readProgram .strict "(f\n#" = .error ⟨.lexical (.unexpectedChar '#'), ⟨1, 0⟩⟩ ∧
      readProgram .standard "1.2.3" = readProgram .strict "1.2.3" := by
  have hstrict : (TokenStream.ofSource .strict "(f\n#").ending =
      .failure ⟨.unexpectedChar '#', ⟨1, 0⟩⟩ := by decide +kernel
  have hlenient : TokenStream.ofSource .standard "(f\n#" =
      ⟨[⟨.opening, ⟨0, 0⟩⟩, ⟨.identifier "f", ⟨0, 1⟩⟩, ⟨.plain .endLine, ⟨0, 2⟩⟩],
        .endOfInput ⟨1, 0⟩⟩ := by decide +kernel
  have hread : readProgram .standard "(f\n#" =
      .error ⟨.grammatical (.mismatch .closeParen .eof), ⟨1, 0⟩⟩ := by
    rw [readProgram_eq_readFrom, hlenient]
    rfl
  have hpoints : (TokenStream.ofSource .strict "1.2.3").ending =
      .failure ⟨.severalPoints "1.2.3", ⟨0, 0⟩⟩ := by decide +kernel
  obtain ⟨i, hstops⟩ := (readProgram_unknown true "(f\n#").1 _ _ hstrict
  refine ⟨hstops.readProgram_eq_of_end (.inr ⟨_, hread⟩), ?_⟩
  refine (readProgram_unknown true "1.2.3").2 fun c position h => ?_
  have h' := hpoints.symm.trans h
  cases h'

end SmallLisp
