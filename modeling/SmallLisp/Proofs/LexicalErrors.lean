import SmallLisp.Proofs.Places

/-!
# Lexical errors of a listing and of a reader

A listing asks for all tokens in front of it, and a reader only for the next one.  A text whose
tokens end with an error fails both, but the reader may get no further than a token it refuses.
So the two agree in this: where the listing has no error the reader has no lexical one, and where
it has one the reader reports that error in that place, or a grammatical one at a token in front of
it.

There is no fourth way for reading to end than the three of `Unfinished.readFrom_cases`.
-/

namespace SmallLisp

namespace TokenStream

variable {stream : TokenStream} {showsLineEnds : Bool}

/-- An error in a listing is the last of its answers, and ends the stream. -/
theorem ending_eq_of_listing_eq {front behind : List Scanner.Result}
    {error : Positioned LexError}
    (h : stream.listing showsLineEnds = front ++ .error error :: behind) :
    front = (stream.shown showsLineEnds).map .ok ∧ behind = [] ∧
      stream.ending = .failure error := by
  rw [listing_eq] at h
  -- Tokens are no errors, so the error can only be the answer at the very end.
  rcases behind.eq_nil_or_concat with rfl | ⟨init, last, rfl⟩
  · obtain ⟨hfront, hlast⟩ := List.append_inj' h rfl
    refine ⟨hfront.symm, rfl, ?_⟩
    cases hending : stream.ending with
    | endOfInput position => simp [hending, StreamEnd.answer] at hlast
    | failure lexError => simpa [hending, StreamEnd.answer] using hlast
  · have hlast : (stream.shown showsLineEnds).map .ok ++ [stream.ending.answer] =
        (front ++ .error error :: init) ++ [last] := by
      rw [h, List.concat_eq_append, List.append_assoc, List.cons_append]
    obtain ⟨htokens, -⟩ := List.append_inj' hlast rfl
    have hmem : Except.error error ∈ (stream.shown showsLineEnds).map .ok := by
      rw [htokens]
      exact List.mem_append_right _ List.mem_cons_self
    simp at hmem

/-- The tokens that the grammar decides on are in every listing. -/
theorem ok_mem_of_mem_significant {t : Positioned Token} (ht : t ∈ stream.significant) :
    .ok t ∈ (stream.shown showsLineEnds).map (Except.ok (ε := Positioned LexError)) := by
  obtain ⟨hmem, hkind⟩ := List.mem_filter.1 ht
  refine List.mem_map_of_mem (List.mem_filter.2 ⟨hmem, ?_⟩)
  rw [hkind, Bool.or_true]

end TokenStream

/-- **A listing and a reader agree about lexical errors.**

* If a program is read, the listing is tokens and then the end of the input.
* If the listing has an error, it is the last answer.  The reader reports the same error in the
  same place, or a grammatical one at a token listed before that is not the end of a line.
* A lexical error of the reader is the last answer of the listing. -/
theorem lexicalErrors_agree (settings : Settings) (source : String) :
    (∀ p, readProgram settings.dialect source = .ok p →
        ∃ (ts : List (Positioned Token)) (position : Position),
          (TokenStream.ofSource settings.dialect source).listing
            settings.showsLineEnds = ts.map .ok ++ [.ok ⟨.plain .eof, position⟩]) ∧
      (∀ front error behind, (TokenStream.ofSource settings.dialect source).listing
          settings.showsLineEnds = front ++ .error error :: behind →
        behind = [] ∧ (∀ answer ∈ front, ∃ t, answer = .ok t) ∧
          (readProgram settings.dialect source = .error (error.map .lexical) ∨
            ∃ t, .ok t ∈ front ∧ t.value.kind ≠ .endLine ∧ ∃ refusal,
              readProgram settings.dialect source =
                .error ⟨.grammatical refusal, t.position⟩)) ∧
      ∀ error position,
        readProgram settings.dialect source = .error ⟨.lexical error, position⟩ →
        ∃ ts : List (Positioned Token),
          (TokenStream.ofSource settings.dialect source).listing settings.showsLineEnds =
            ts.map .ok ++ [.error ⟨error, position⟩] := by
  obtain ⟨stream, hstream⟩ :
      ∃ stream, TokenStream.ofSource settings.dialect source = stream := ⟨_, rfl⟩
  have hcases := Unfinished.readFrom_cases settings.dialect.rules stream.ending .empty
    stream.significant
  rw [readProgram_eq_readFrom, hstream]
  refine ⟨?_, ?_, ?_⟩
  · intro p hp
    -- The three outcomes of the reader; the listing ends as the stream does, whichever it is.
    rcases hcases with ⟨position, q, hending, -⟩ | ⟨error, -, herror⟩ | ⟨t, -, error, herror⟩
    · exact ⟨_, position, by rw [TokenStream.listing_eq, hending, StreamEnd.answer]⟩
    · simp [herror] at hp
    · simp [herror] at hp
  · intro front error behind hlisting
    obtain ⟨rfl, hbehind, hending⟩ := TokenStream.ending_eq_of_listing_eq hlisting
    refine ⟨hbehind, ?_, ?_⟩
    · intro answer hanswer
      obtain ⟨t, -, ht⟩ := List.mem_map.1 hanswer
      exact ⟨t, ht.symm⟩
    · rcases hcases with ⟨position, q, hend, -⟩ | ⟨error', hend, herror⟩ | ⟨t, ht, refusal, herror⟩
      · simp [hending] at hend
      · rw [hending, StreamEnd.failure.injEq] at hend
        exact .inl (by rw [herror, hend])
      · rw [hending, StreamEnd.tokens, List.append_nil] at ht
        have hkind : t.value.kind ≠ .endLine := by simpa using (List.mem_filter.1 ht).2
        exact .inr ⟨t, TokenStream.ok_mem_of_mem_significant ht, hkind, refusal, herror⟩
  · intro error position hlexical
    rcases hcases with ⟨p, q, -, hread⟩ | ⟨error', hending, herror⟩ | ⟨t, -, refusal, herror⟩
    · simp [hread] at hlexical
    · rw [herror, Except.error.injEq, Positioned.map, Positioned.mk.injEq,
        SourceError.lexical.injEq] at hlexical
      obtain ⟨rfl, rfl⟩ := hlexical
      exact ⟨_, by rw [TokenStream.listing_eq, hending, StreamEnd.answer]⟩
    · simp [herror] at hlexical

/-- Where nothing is listed in front of the error, the reader reports it too. -/
theorem lexicalErrors_agree_first :
    (TokenStream.ofSource .standard "\n 1.2.3").listing false =
        [.error ⟨.severalPoints "1.2.3", ⟨1, 1⟩⟩] ∧
      readProgram .standard "\n 1.2.3" =
        .error ⟨.lexical (.severalPoints "1.2.3"), ⟨1, 1⟩⟩ := by
  have hlisting : (TokenStream.ofSource .standard "\n 1.2.3").listing false =
      [.error ⟨.severalPoints "1.2.3", ⟨1, 1⟩⟩] := by decide +kernel
  refine ⟨hlisting, ?_⟩
  rcases ((lexicalErrors_agree ⟨.standard, false⟩ _).2.1 [] _ _ hlisting).2.2 with
    hlexical | ⟨t, ht, -⟩
  · exact hlexical
  · simp at ht

end SmallLisp
