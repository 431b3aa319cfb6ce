import SmallLisp.Proofs.Vocabulary

/-!
# Texts made up of lexemes

A scanner goes through a text from the front.  `Spells` says what this comes to: the front of a
text, in front of whatever stands behind it, is blanks and lexemes, and these are tokens at their
places.  What is behind only matters where a word or a number ends, so a scanner that has gone
through the front stands in front of the rest as if nothing had been before
(`Spells.stream_eq`).

The two directions are used for different things.  A text that is laid out by the program itself
is shown to spell its tokens; a text that comes from elsewhere is cut behind any of its tokens
(`exists_spells_of_stream_eq`), and something else is put behind the cut
(`Spells.before_space`).
-/

namespace SmallLisp

namespace Scanner

/-- A scanner in front of a text that begins at `p`. -/
def before (text : List Char) (p : Position) : Scanner := { rest := text, position := p }

@[simp] theorem rest_before (text : List Char) (p : Position) : (before text p).rest = text := rfl

@[simp] theorem position_before (text : List Char) (p : Position) :
    (before text p).position = p := rfl

@[simp] theorem ended_before (text : List Char) (p : Position) :
    (before text p).ended = false := rfl

variable {d : Dialect} {s s' : Scanner}

/-! ## One request and the stream -/

theorem stream_of_token {t : Positioned Token} (h : s.next d = (.ok t, s'))
    (hkind : t.value.kind ≠ .eof) :
    s.stream d = ⟨t :: (s'.stream d).tokens, (s'.stream d).ending⟩ := by
  rw [stream]
  split
  · next heq => simp [h] at heq
  · next heq =>
    rw [h, Prod.mk.injEq, Except.ok.injEq] at heq
    obtain ⟨rfl, rfl⟩ := heq
    rw [dif_neg hkind]

theorem stream_of_end {t : Positioned Token} (h : s.next d = (.ok t, s'))
    (hkind : t.value.kind = .eof) : s.stream d = ⟨[], .endOfInput t.position⟩ := by
  rw [stream]
  split
  · next heq => simp [h] at heq
  · next heq =>
    rw [h, Prod.mk.injEq, Except.ok.injEq] at heq
    obtain ⟨rfl, rfl⟩ := heq
    rw [dif_pos hkind]

theorem stream_of_failure {error : Positioned LexError} (h : s.next d = (.error error, s')) :
    s.stream d = ⟨[], .failure error⟩ := by
  rw [stream]
  split
  · next heq =>
    rw [h, Prod.mk.injEq, Except.error.injEq] at heq
    rw [heq.1]
  · next heq => simp [h] at heq

/-- Scanners that answer alike now have the same stream. -/
theorem stream_eq_of_next_eq (h : s.next d = s'.next d) : s.stream d = s'.stream d := by
  obtain ⟨⟨answer, later⟩, hs'⟩ : ∃ result, s'.next d = result := ⟨_, rfl⟩
  rw [hs'] at h
  cases answer with
  | error error => rw [stream_of_failure h, stream_of_failure hs']
  | ok t =>
    by_cases hkind : t.value.kind = .eof
    · rw [stream_of_end h hkind, stream_of_end hs' hkind]
    · rw [stream_of_token h hkind, stream_of_token hs' hkind]

/-! ## The head of a text -/

theorem skipBlanks_before_cons {c : Char} (hc : isBlank c = true) (text : List Char)
    (p : Position) : (before (c :: text) p).skipBlanks = (before text (p.after c)).skipBlanks := by
  simp [skipBlanks, before, hc]

theorem skipBlanks_before_of_endsRun {text : List Char} (h : EndsRun isBlank text)
    (p : Position) : (before text p).skipBlanks = before text p := by
  have hnone : [].all isBlank = true := rfl
  have htake : text.takeWhile isBlank = [] := takeWhile_append_of_endsRun hnone h
  have hdrop : text.dropWhile isBlank = text := dropWhile_append_of_endsRun hnone h
  simp [skipBlanks, before, htake, hdrop]

theorem next_before_blank {c : Char} (hc : isBlank c = true) (text : List Char) (p : Position) :
    (before (c :: text) p).next d = (before text (p.after c)).next d := by
  have hskip := skipBlanks_before_cons hc text p
  have hended : (before (c :: text) p).ended = (before text (p.after c)).ended := rfl
  simp only [next, hskip, hended]
  rfl

/-- A blank is passed over. -/
theorem stream_before_blank {c : Char} (hc : isBlank c = true) (text : List Char) (p : Position) :
    (before (c :: text) p).stream d = (before text (p.after c)).stream d :=
  stream_eq_of_next_eq (next_before_blank hc text p)

theorem stream_before_nil (p : Position) :
    (before [] p).stream d = ⟨[], .endOfInput p⟩ := by
  have hnext : (before [] p).next d =
      (.ok ⟨.plain .eof, p⟩, { before [] p with ended := true }) := rfl
  exact stream_of_end hnext rfl

theorem next_before_lexeme {lexeme rest : List Char} {t : Token} (hlexeme : Lexeme lexeme rest)
    (ht : Token.ofLexeme lexeme = .ok t) (p : Position) :
    (before (lexeme ++ rest) p).next d =
      (.ok ⟨t, p⟩, before rest (p.afterLexeme lexeme)) := by
  have hskip := skipBlanks_before_of_endsRun (hlexeme.endsRun_isBlank rest) p
  simp [next, hskip, splitLexeme_append hlexeme, ht]
  rfl

/-- A lexeme that is a token. -/
theorem stream_before_lexeme {lexeme rest : List Char} {t : Token} (hlexeme : Lexeme lexeme rest)
    (ht : Token.ofLexeme lexeme = .ok t) (p : Position) :
    (before (lexeme ++ rest) p).stream d =
      ⟨⟨t, p⟩ :: ((before rest (p.afterLexeme lexeme)).stream d).tokens,
        ((before rest (p.afterLexeme lexeme)).stream d).ending⟩ :=
  stream_of_token (next_before_lexeme hlexeme ht p) (hlexeme.scanned ht).kind_ne_eof

/-- A lexeme that is no token is passed over. -/
theorem next_before_bad_lexeme {lexeme rest : List Char} {error : LexError}
    (hlexeme : Lexeme lexeme rest) (herror : Token.ofLexeme lexeme = .error error)
    (p : Position) :
    (before (lexeme ++ rest) p).next d =
      (.error ⟨error, p⟩, before rest (p.afterLexeme lexeme)) := by
  have hskip := skipBlanks_before_of_endsRun (hlexeme.endsRun_isBlank rest) p
  simp [next, hskip, splitLexeme_append hlexeme, herror]
  rfl

/-- A lexeme that is no token. -/
theorem stream_before_bad_lexeme {lexeme rest : List Char} {error : LexError}
    (hlexeme : Lexeme lexeme rest) (herror : Token.ofLexeme lexeme = .error error)
    (p : Position) :
    (before (lexeme ++ rest) p).stream d = ⟨[], .failure ⟨error, p⟩⟩ :=
  stream_of_failure (next_before_bad_lexeme hlexeme herror p)

/-- An unknown character that is an error is met again by every request. -/
theorem next_before_unknown {c : Char} {rest : List Char} (hblank : isBlank c = false)
    (hsplit : splitLexeme (c :: rest) = none) (hends : d.endsAtUnknown = false) (p : Position) :
    (before (c :: rest) p).next d = (.error ⟨.unexpectedChar c, p⟩, before (c :: rest) p) := by
  have hskip := skipBlanks_before_of_endsRun (.cons hblank rest) p
  simp [next, hskip, hsplit, hends]

/-- An unknown character that is the end of the input. -/
theorem next_before_unknown_end {c : Char} {rest : List Char} (hblank : isBlank c = false)
    (hsplit : splitLexeme (c :: rest) = none) (hends : d.endsAtUnknown = true) (p : Position) :
    (before (c :: rest) p).next d =
      (.ok ⟨.plain .eof, p⟩, { before (c :: rest) p with ended := true }) := by
  have hskip := skipBlanks_before_of_endsRun (.cons hblank rest) p
  simp [next, hskip, hsplit, hends]

/-- A character that no token starts with: nothing behind it is looked at. -/
theorem stream_before_unknown {c : Char} {rest : List Char} (hblank : isBlank c = false)
    (hsplit : splitLexeme (c :: rest) = none) (p : Position) :
    (before (c :: rest) p).stream d =
      ⟨[], if d.endsAtUnknown then .endOfInput p
        else .failure ⟨.unexpectedChar c, p⟩⟩ := by
  cases hends : d.endsAtUnknown with
  | true => exact stream_of_end (next_before_unknown_end hblank hsplit hends p) rfl
  | false => exact stream_of_failure (next_before_unknown hblank hsplit hends p)

/-- **What stands at the head of a text**: nothing, a blank, a lexeme, or a character that no
token starts with. -/
theorem head_cases (text : List Char) :
    text = [] ∨ (∃ c rest, text = c :: rest ∧ isBlank c = true) ∨
      (∃ lexeme rest, text = lexeme ++ rest ∧ Lexeme lexeme rest) ∨
      ∃ c rest, text = c :: rest ∧ isBlank c = false ∧ splitLexeme text = none := by
  obtain _ | ⟨c, rest⟩ := text
  · exact .inl rfl
  · by_cases hblank : isBlank c = true
    · exact .inr (.inl ⟨c, rest, rfl, hblank⟩)
    · cases hsplit : splitLexeme (c :: rest) with
      | none => exact .inr (.inr (.inr ⟨c, rest, rfl, Bool.eq_false_iff.2 hblank, rfl⟩))
      | some result =>
        obtain ⟨lexeme, behind⟩ := result
        obtain ⟨htext, hlexeme⟩ := lexeme_of_splitLexeme hsplit
        exact .inr (.inr (.inl ⟨lexeme, behind, htext, hlexeme⟩))

/-- Induction along a text, the way a scanner goes through it. -/
@[elab_as_elim]
theorem text_induction {motive : List Char → Position → Prop} (nil : ∀ p, motive [] p)
    (blank : ∀ c rest p, isBlank c = true → motive rest (p.after c) → motive (c :: rest) p)
    (lexeme : ∀ lexeme rest p, Lexeme lexeme rest → motive rest (p.afterLexeme lexeme) →
      motive (lexeme ++ rest) p)
    (unknown : ∀ c rest p, isBlank c = false → splitLexeme (c :: rest) = none →
      motive (c :: rest) p)
    (text : List Char) (p : Position) : motive text p := by
  -- A lexeme may be longer than one character, so the induction is on the length and not on the
  -- list.
  induction hlength : text.length using Nat.strongRecOn generalizing text p with
  | ind n ih =>
    rcases head_cases text with rfl | ⟨c, rest, rfl, hc⟩ | ⟨letters, rest, rfl, hlexeme⟩ |
      ⟨c, rest, rfl, hblank, hsplit⟩
    · exact nil p
    · exact blank c rest p hc (ih rest.length (by simp [← hlength]) rest _ rfl)
    · have hshorter : rest.length < n :=
        hlength ▸ length_lt_of_splitLexeme (splitLexeme_append hlexeme)
      exact lexeme letters rest p hlexeme (ih rest.length hshorter rest _ rfl)
    · exact unknown c rest p hblank hsplit

end Scanner

/-! ## The tokens of the front of a text -/

/-- The front of a text spells tokens: from the position `p` on, `front` is blanks and lexemes
and ends at `q`, and the lexemes are the tokens `ts` at their places.  What stands behind the
front is only looked at to see that its last word or number ends there. -/
inductive Spells : Position → List Char → List Char → List (Positioned Token) → Position → Prop
  | nil (p : Position) (behind : List Char) : Spells p [] behind [] p
  | blank {p q : Position} {c : Char} {front behind : List Char} {ts : List (Positioned Token)}
      (hc : isBlank c = true) (h : Spells (p.after c) front behind ts q) :
      Spells p (c :: front) behind ts q
  | lexeme {p q : Position} {lexeme front behind : List Char} {t : Token}
      {ts : List (Positioned Token)} (hlexeme : Lexeme lexeme (front ++ behind))
      (ht : Token.ofLexeme lexeme = .ok t)
      (h : Spells (p.afterLexeme lexeme) front behind ts q) :
      Spells p (lexeme ++ front) behind (⟨t, p⟩ :: ts) q

namespace Spells

variable {p q r : Position} {front behind rest : List Char} {ts us : List (Positioned Token)}

/-- Behind a front that spells tokens, scanning goes on as if the rest were a text of its
own. -/
theorem stream_eq (h : Spells p front behind ts q) (d : Dialect) :
    (Scanner.before (front ++ behind) p).stream d =
      ⟨ts ++ ((Scanner.before behind q).stream d).tokens,
        ((Scanner.before behind q).stream d).ending⟩ := by
  induction h with
  | nil p behind => rfl
  | blank hc _ ih => rw [List.cons_append, Scanner.stream_before_blank hc, ih]
  | lexeme hlexeme ht _ ih =>
    rw [List.append_assoc, Scanner.stream_before_lexeme hlexeme ht, ih]
    rfl

/-- A source text that spells tokens to its end has these tokens and no others. -/
theorem ofSource_eq {text : List Char} (h : Spells .start text [] ts q) (d : Dialect) :
    TokenStream.ofSource d (String.ofList text) = ⟨ts, .endOfInput q⟩ := by
  have hsource : Scanner.ofSource (String.ofList text) = Scanner.before (text ++ []) .start := by
    simp [Scanner.ofSource, Scanner.before]
  rw [TokenStream.ofSource, hsource, h.stream_eq, Scanner.stream_before_nil, List.append_nil]

theorem append (h : Spells p front (rest ++ behind) ts q) (h' : Spells q rest behind us r) :
    Spells p (front ++ rest) behind (ts ++ us) r := by
  generalize hb : rest ++ behind = behind' at h
  induction h with
  | nil p behind' => exact h'
  | blank hc _ ih => exact .blank hc (ih h' hb)
  | lexeme hlexeme ht _ ih =>
    rw [List.append_assoc]
    refine .lexeme ?_ ht (ih h' hb)
    rwa [List.append_assoc, hb]

end Spells

/-- A lexeme in front of a text is one in front of any text that goes on in the same way. -/
theorem Lexeme.of_head?_eq {lexeme rest rest' : List Char} (h : Lexeme lexeme rest)
    (hhead : rest'.head? = rest.head?) : Lexeme lexeme rest' := by
  cases h with
  | newline => exact .newline _
  | returnNewline => exact .returnNewline _
  | loneReturn hrest => exact .loneReturn (hhead ▸ hrest)
  | tick => exact .tick _
  | openParen => exact .openParen _
  | closeParen => exact .closeParen _
  | word hword hrest => exact .word hword fun c hc => hrest c (hhead ▸ hc)
  | number hnumber hrest => exact .number hnumber fun c hc => hrest c (hhead ▸ hc)

/-- A lexeme may stand in front of any text that goes on with nothing that could be part of it. -/
theorem Lexeme.of_endsRun {lexeme rest rest' : List Char} (h : Lexeme lexeme rest)
    (hreturn : lexeme = ['\r'] → rest'.head? ≠ some '\n') (hword : EndsRun isWordChar rest')
    (hnumber : EndsRun isNumberChar rest') : Lexeme lexeme rest' := by
  cases h with
  | newline => exact .newline _
  | returnNewline => exact .returnNewline _
  | loneReturn => exact .loneReturn (hreturn rfl)
  | tick => exact .tick _
  | openParen => exact .openParen _
  | closeParen => exact .closeParen _
  | word hletters _ => exact .word hletters hword
  | number hdigits _ => exact .number hdigits hnumber

/-- A lexeme may stand in front of a space, whatever it stood in front of. -/
theorem Lexeme.before_space {lexeme rest : List Char} (h : Lexeme lexeme rest)
    (rest' : List Char) : Lexeme lexeme (' ' :: rest') :=
  h.of_endsRun (fun _ => by simp) (.cons (by decide +kernel) _) (.cons (by decide) _)

/-- A lexeme may stand at the end of a text. -/
theorem Lexeme.before_nil {lexeme rest : List Char} (h : Lexeme lexeme rest) :
    Lexeme lexeme [] :=
  h.of_endsRun (fun _ => by simp) (.nil _) (.nil _)

namespace Spells

variable {p q : Position} {front behind behind' : List Char} {ts : List (Positioned Token)}

/-- What stands behind a front may be replaced, if a lexeme can stand in front of it all the
same. -/
theorem replace_behind (h : Spells p front behind ts q)
    (hbehind : ∀ lexeme, Lexeme lexeme behind → Lexeme lexeme behind') :
    Spells p front behind' ts q := by
  induction h with
  | nil p behind => exact .nil p _
  | blank hc _ ih => exact .blank hc (ih hbehind)
  | @lexeme p q lexeme front behind t ts hlexeme ht _ ih =>
    refine .lexeme ?_ ht (ih hbehind)
    cases front with
    | nil => exact hbehind lexeme hlexeme
    | cons c front => exact hlexeme.of_head?_eq rfl

/-- Anything can be put behind a front that spells tokens, with a space in between. -/
theorem before_space (h : Spells p front behind ts q) (rest : List Char) :
    Spells p front (' ' :: rest) ts q :=
  h.replace_behind fun _ hlexeme => hlexeme.before_space rest

/-- A front that spells tokens does so by itself. -/
theorem before_nil (h : Spells p front behind ts q) : Spells p front [] ts q :=
  h.replace_behind fun _ hlexeme => hlexeme.before_nil

end Spells

/-- A text can be cut behind any of its tokens: the front spells the tokens before the cut,
and the rest has the others. -/
theorem Scanner.exists_spells_of_stream_eq {d : Dialect} {text : List Char} {p : Position}
    {ts us : List (Positioned Token)} {ending : StreamEnd}
    (h : (before text p).stream d = ⟨ts ++ us, ending⟩) :
    ∃ front behind q, text = front ++ behind ∧ Spells p front behind ts q ∧
      (before behind q).stream d = ⟨us, ending⟩ := by
  induction text, p using text_induction generalizing ts with
  | nil p =>
    obtain _ | ⟨t, ts⟩ := ts
    · exact ⟨[], [], p, rfl, .nil p [], h⟩
    · simp [stream_before_nil] at h
  | blank c rest p hc ih =>
    obtain _ | ⟨t, ts⟩ := ts
    · exact ⟨[], c :: rest, p, rfl, .nil p _, h⟩
    rw [stream_before_blank hc] at h
    obtain ⟨front, behind, q, rfl, hspells, hstream⟩ := ih h
    exact ⟨c :: front, behind, q, rfl, .blank hc hspells, hstream⟩
  | lexeme lexeme rest p hlexeme ih =>
    obtain _ | ⟨t, ts⟩ := ts
    · exact ⟨[], lexeme ++ rest, p, rfl, .nil p _, h⟩
    cases ht : Token.ofLexeme lexeme with
    | error error => simp [stream_before_bad_lexeme hlexeme ht] at h
    | ok t' =>
      rw [stream_before_lexeme hlexeme ht, TokenStream.mk.injEq, List.cons_append,
        List.cons.injEq] at h
      obtain ⟨⟨rfl, htokens⟩, hending⟩ := h
      have hstream : (before rest (p.afterLexeme lexeme)).stream d = ⟨ts ++ us, ending⟩ := by
        rw [← htokens, ← hending]
      obtain ⟨front, behind, q, rfl, hspells, hstream⟩ := ih hstream
      exact ⟨lexeme ++ front, behind, q, (List.append_assoc _ _ _).symm,
        .lexeme hlexeme ht hspells, hstream⟩
  | unknown c rest p hblank hsplit =>
    obtain _ | ⟨t, ts⟩ := ts
    · exact ⟨[], c :: rest, p, rfl, .nil p _, h⟩
    · simp [stream_before_unknown hblank hsplit] at h

end SmallLisp
