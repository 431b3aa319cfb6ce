import SmallLisp.Proofs.LineBreaks
import SmallLisp.Proofs.Places
import SmallLisp.Proofs.Tiling

/-!
# Every position says where something is

The position of a token, or of what ends the tokens, is the pair of coordinates of the text in
front of it (`Position.ofText`).  Which text that is, is said by the tiling of the source: the
lexemes of the tokens before, with the blanks in between, reach exactly to the character at which
the token begins.  Since every line break is a token of its own, the line can be counted in the
text or in the tokens.

No error of a reader has a position of its own.  It is that of the token that was refused, or that
of what ends the tokens.
-/

namespace SmallLisp

/-! ## Line breaks are tokens -/

/-- Only a line break is written as the end of a line. -/
theorem Token.Written.kind_ne_endLine {letters : List Char} {t : Token} (h : Written letters t)
    (hinline : ∀ c ∈ letters, isBreakChar c = false) : t.kind ≠ .endLine := by
  cases h with
  | newline => exact absurd (hinline '\n' (by simp)) (by decide)
  | returnNewline => exact absurd (hinline '\n' (by simp)) (by decide)
  | loneReturn => exact absurd (hinline '\r' (by simp)) (by decide)
  | @number letters n _ _ _ => cases n <;> simp
  | _ => simp

theorem Lexeme.written {lexeme rest : List Char} {t : Token} (h : Lexeme lexeme rest)
    (ht : Token.ofLexeme lexeme = .ok t) : Token.Written lexeme t := by
  rcases h.written_or_severalPoints with ⟨t', ht', hwritten⟩ | ⟨-, -, -, herror⟩
  · rw [ht, Except.ok.injEq] at ht'
    rwa [ht']
  · rw [ht] at herror
    cases herror

namespace Spells

variable {p q : Position} {front behind : List Char} {ts : List (Positioned Token)}

/-- The line breaks of a front are the ends of lines among its tokens. -/
theorem lineBreaks_eq (h : Spells p front behind ts q) :
    lineBreaks front = ts.countP fun t => t.value.kind == .endLine := by
  induction h with
  | nil p behind => rfl
  | blank hc _ ih =>
    simp only [isBlank, Bool.and_eq_true, bne_iff_ne] at hc
    rw [lineBreaks_cons_of_not_isBreakChar (by simp [isBreakChar, hc.1.1, hc.1.2]), ih]
  | @lexeme p q lexeme front behind t ts hlexeme ht _ ih =>
    rcases hlexeme.breaks_or_inline with ⟨-, -, hbreaks, hendLine⟩ | hinline
    · rw [ht, Except.ok.injEq] at hendLine
      rw [hbreaks, ih, List.countP_cons_of_pos (by rw [hendLine]; rfl)]
    · have hkind : t.kind ≠ .endLine := (hlexeme.written ht).kind_ne_endLine hinline
      rw [lineBreaks_append_of_inline hinline, ih, List.countP_cons_of_neg (by simp [hkind])]

/-- A front that spells tokens is tiled by them. -/
theorem exists_tiles (h : Spells p front behind ts q) (hbehind : EndsRun isBlank behind) :
    ∃ tiles, Tiled (front ++ behind) tiles behind ∧
      tiles.map Tile.token = ts.map (·.value) := by
  induction h with
  | nil p behind => exact ⟨[], .stop hbehind, rfl⟩
  | blank hc _ ih =>
    obtain ⟨tiles, htiled, htokens⟩ := ih hbehind
    exact ⟨tiles, htiled.blank hc, htokens⟩
  | @lexeme p q lexeme front behind t ts hlexeme ht _ ih =>
    obtain ⟨tiles, htiled, htokens⟩ := ih hbehind
    refine ⟨⟨lexeme, t⟩ :: tiles, ?_, ?_⟩
    · rw [List.append_assoc]
      exact .cons hlexeme (hlexeme.written ht) htiled
    · rw [List.map_cons, List.map_cons, htokens]

end Spells

/-! ## The text in front of an answer -/

namespace Scanner

/-- Blanks at the head of a text spell no token. -/
theorem exists_spells_blanks (text : List Char) (p : Position) :
    ∃ q, Spells p (text.takeWhile isBlank) (text.dropWhile isBlank) [] q ∧
      ∀ d, (before (text.dropWhile isBlank) q).stream d = (before text p).stream d := by
  induction text generalizing p with
  | nil => exact ⟨p, .nil p [], fun _ => rfl⟩
  | cons c text ih =>
    by_cases hc : isBlank c = true
    · obtain ⟨q, hspells, hstream⟩ := ih (p.after c)
      rw [List.takeWhile_cons_of_pos hc, List.dropWhile_cons_of_pos hc]
      refine ⟨q, .blank hc hspells, ?_⟩
      intro d
      rw [hstream, stream_before_blank hc]
    · rw [List.takeWhile_cons_of_neg hc, List.dropWhile_cons_of_neg hc]
      exact ⟨p, .nil p _, fun _ => rfl⟩

/-- A text can be cut in front of any answer: the front spells the tokens before, and what is
behind begins with no blank. -/
theorem exists_front_of_stream_eq {d : Dialect} {text : List Char} {p : Position}
    {ts us : List (Positioned Token)} {ending : StreamEnd}
    (h : (before text p).stream d = ⟨ts ++ us, ending⟩) :
    ∃ front behind q, text = front ++ behind ∧ Spells p front behind ts q ∧
      EndsRun isBlank behind ∧ (before behind q).stream d = ⟨us, ending⟩ := by
  obtain ⟨front, behind, q, rfl, hspells, hstream⟩ := exists_spells_of_stream_eq h
  obtain ⟨r, hblanks, hsame⟩ := exists_spells_blanks behind q
  refine ⟨front ++ behind.takeWhile isBlank, behind.dropWhile isBlank, r, ?_, ?_,
    endsRun_dropWhile _ _, (hsame d).trans hstream⟩
  · rw [List.append_assoc, List.takeWhile_append_dropWhile]
  · rw [← List.append_nil ts]
    refine Spells.append ?_ hblanks
    rwa [List.takeWhile_append_dropWhile]

/-- What stands at the head of a text, if a scanner answers so: a token is written there, as
far as its lexeme goes, and what ends the tokens ends them there. -/
inductive Result.StandsAt (d : Dialect) : Result → List Char → Prop
  | token {t : Positioned Token} {lexeme behind : List Char} (hlexeme : Lexeme lexeme behind)
      (hwritten : Token.Written lexeme t.value) : StandsAt d (.ok t) (lexeme ++ behind)
  | ending {ending : StreamEnd} {text : List Char} (hends : EndsAt d text ending) :
      StandsAt d ending.answer text

/-- Where a text begins with no blank, the first answer is about its head. -/
theorem exists_answer_of_endsRun (d : Dialect) {text : List Char} (h : EndsRun isBlank text)
    (p : Position) :
    ∃ (answer : Result) (later : List Result),
      ((before text p).stream d).listing true = answer :: later ∧ answer.position = p ∧
        answer.StandsAt d text := by
  rcases head_cases text with rfl | ⟨c, rest, rfl, hc⟩ | ⟨lexeme, rest, rfl, hlexeme⟩ |
    ⟨c, rest, rfl, hblank, hsplit⟩
  · rw [stream_before_nil, TokenStream.listing_eq]
    exact ⟨_, [], rfl, rfl, .ending .nil⟩
  · exact absurd (h c rfl) (by simp [hc])
  · rcases hlexeme.written_or_severalPoints with
      ⟨t, ht, hwritten⟩ | ⟨hnumber, hrun, hpoints, herror⟩
    · rw [stream_before_lexeme hlexeme ht, TokenStream.listing_eq]
      exact ⟨.ok ⟨t, p⟩, _, rfl, rfl, .token hlexeme hwritten⟩
    · rw [stream_before_bad_lexeme hlexeme herror, TokenStream.listing_eq]
      exact ⟨_, [], rfl, rfl, .ending (.severalPoints hnumber hrun hpoints)⟩
  · rw [stream_before_unknown hblank hsplit, TokenStream.listing_eq]
    refine ⟨_, [], rfl, ?_, .ending (.unknown (beginsNoLexeme_of_splitLexeme hsplit))⟩
    cases d.endsAtUnknown <;> rfl

end Scanner

/-! ## Positions of a source -/

namespace TokenStream

@[simp] theorem shown_true (stream : TokenStream) : stream.shown true = stream.tokens := by
  simp [shown]

theorem listing_true_append (ts us : List (Positioned Token)) (ending : StreamEnd) :
    (TokenStream.mk (ts ++ us) ending).listing true =
      ts.map .ok ++ (TokenStream.mk us ending).listing true := by
  rw [listing_eq, listing_eq, shown_true, shown_true, List.map_append, List.append_assoc]

/-- **The answer with number `k` stands between `front` and `behind`**: the tokens before it tile
the text up to there, and it is about the head of what is behind. -/
structure StandsBetween (d : Dialect) (source : String) (k : Nat) (answer : Scanner.Result)
    (front behind : List Char) : Prop where
  text_eq : source.toList = front ++ behind
  exists_tiles : ∃ tiles, Tiled source.toList tiles behind ∧
    tiles.map Tile.token = ((ofSource d source).tokens.take k).map (·.value)
  standsAt : answer.StandsAt d behind

theorem exists_standsBetween {d : Dialect} {source : String} {k : Nat} {answer : Scanner.Result}
    (h : ((ofSource d source).listing true)[k]? = some answer) :
    ∃ front behind, StandsBetween d source k answer front behind ∧
      answer.position = .ofText front ∧
      lineBreaks front =
        ((ofSource d source).tokens.take k).countP fun t => t.value.kind == .endLine := by
  -- The answers before number `k` are tokens, so the text that the scanner has gone through by
  -- then is what spells them.
  obtain ⟨ts, hts⟩ : ∃ ts, (ofSource d source).tokens.take k = ts := ⟨_, rfl⟩
  obtain ⟨us, hus⟩ : ∃ us, (ofSource d source).tokens.drop k = us := ⟨_, rfl⟩
  have hstream : (Scanner.before source.toList .start).stream d =
      ⟨ts ++ us, (ofSource d source).ending⟩ := by
    rw [← hts, ← hus, List.take_append_drop]
    rfl
  obtain ⟨front, behind, q, htext, hspells, hbehind, hrest⟩ :=
    Scanner.exists_front_of_stream_eq hstream
  obtain ⟨first, later, hlisting, hposition, hstands⟩ :=
    Scanner.exists_answer_of_endsRun d hbehind q
  have hfirst : first = answer := by
    have hall : (ofSource d source).listing true = ts.map .ok ++ first :: later := by
      rw [← hlisting, hrest, ← listing_true_append, ← hts, ← hus, List.take_append_drop]
    have hlength : ts.length = k := by
      have hk := (List.getElem?_eq_some_iff.1 h).1
      rw [listing_eq, shown_true, List.length_append, List.length_map, List.length_singleton] at hk
      rw [← hts, List.length_take]
      omega
    rw [hall, List.getElem?_append_right (by simp [hlength]), List.length_map, hlength,
      Nat.sub_self, List.getElem?_cons_zero] at h
    exact Option.some.inj h
  obtain ⟨tiles, htiled, htokens⟩ := hspells.exists_tiles hbehind
  rw [← htext] at htiled
  refine ⟨front, behind, ⟨htext, ⟨tiles, htiled, by rw [htokens, hts]⟩, hfirst ▸ hstands⟩, ?_, ?_⟩
  · rw [← hfirst, hposition, hspells.position_eq, Position.start_translate]
  · rw [hspells.lineBreaks_eq, hts]

end TokenStream

theorem StreamEnd.position_eq_of_mem_tokens {ending : StreamEnd} {t : Positioned Token}
    (ht : t ∈ ending.tokens) : t.position = ending.position := by
  cases ending with
  | failure error => cases ht
  | endOfInput position =>
    rw [List.mem_singleton.1 ht]
    rfl

theorem Unfinished.position_mem_of_readFrom_eq_error {rules : Rules} {ending : StreamEnd}
    {u : Unfinished} {ts : List (Positioned Token)} {error : Positioned SourceError}
    (h : u.readFrom rules ending ts = .error error) :
    error.position ∈ ts.map (·.position) ++ [ending.position] := by
  rcases readFrom_cases rules ending u ts with ⟨_, p, -, hread⟩ | ⟨lexError, rfl, hread⟩ |
    ⟨t, ht, refusal, hread⟩
  · rw [hread] at h
    cases h
  · rw [hread] at h
    cases h
    exact List.mem_append_right _ (List.mem_singleton_self _)
  · rw [hread] at h
    cases h
    rcases List.mem_append.1 ht with ht | ht
    · exact List.mem_append_left _ (List.mem_map_of_mem ht)
    · rw [StreamEnd.position_eq_of_mem_tokens ht]
      exact List.mem_append_right _ (List.mem_singleton_self _)

/-- **Positions are where things are.**  The position of every answer of a listing that shows the
ends of lines is given by the text in front of it: its line is the number of line breaks there,
which is also the number of ends of lines listed before, and its column is the number of
characters behind the last of them.  So the positions increase from each answer to the next.  The
position of an error of a reader is one of them. -/
theorem position_of_listing (d : Dialect) (source : String) :
    (∀ k (answer : Scanner.Result),
      ((TokenStream.ofSource d source).listing true)[k]? = some answer →
      ∃ front behind, TokenStream.StandsBetween d source k answer front behind ∧
        answer.position.line = lineBreaks front ∧
        answer.position.line = ((TokenStream.ofSource d source).tokens.take k).countP
          (fun t => t.value.kind == .endLine) ∧
        answer.position.column = (lastLine front).length) ∧
      (((TokenStream.ofSource d source).listing true).map Scanner.Result.position).Pairwise
        (· < ·) ∧
      ∀ error, readProgram d source = .error error →
        error.position ∈
          ((TokenStream.ofSource d source).listing true).map Scanner.Result.position := by
  refine ⟨?_, TokenStream.pairwise_position_listing d source true, ?_⟩
  · intro k answer hanswer
    obtain ⟨front, behind, hstands, hposition, hlines⟩ :=
      TokenStream.exists_standsBetween hanswer
    refine ⟨front, behind, hstands, ?_, ?_, ?_⟩
    · rw [hposition, Position.ofText]
    · rw [hposition, ← hlines, Position.ofText]
    · rw [hposition, Position.ofText]
  · intro error herror
    rw [readProgram_eq_readFrom] at herror
    have hmem := Unfinished.position_mem_of_readFrom_eq_error herror
    have hsignificant : ((TokenStream.ofSource d source).significant.map (·.position)).Sublist
        ((TokenStream.ofSource d source).tokens.map (·.position)) := List.filter_sublist.map _
    rw [TokenStream.map_position_listing, TokenStream.shown_true]
    exact (hsignificant.append (List.Sublist.refl _)).subset hmem

/-- A carriage return by itself ends a line, and one with a newline behind it does not end
another. -/
example : ((TokenStream.ofSource .strict "a\r\r\n b\n)").listing true).map
    Scanner.Result.position = [⟨0, 0⟩, ⟨0, 1⟩, ⟨1, 0⟩, ⟨2, 1⟩, ⟨2, 2⟩, ⟨3, 0⟩, ⟨3, 1⟩] := by
  decide +kernel

end SmallLisp
