import SmallLisp.Proofs.TokenList

/-!
# The token a reader stands at

When a token is used up, the ends of lines behind it are passed over, and a reader stands at the
token behind those.  It is the only place where they are passed over.  Even so `Reader.consume` lets
the end of a line through, whatever is expected; if a reader ever stood at one, a line break could
be taken for a parenthesis or for a name.

It never does.  Whatever is done to a reader, as long as it succeeds, the reader stands in its
stream (`Reader.StandsIn`): behind some tokens, at one that is not the end of a line, in front of
all the others.  So the leave given to the ends of lines is of no use to them: a reader that does
not give it is the same reader (`Reader.consume_eq_consumeExactly`).
-/

namespace SmallLisp

/-- All tokens of a stream, the ends of lines and the token for the end of the input among them. -/
def TokenStream.withEnd (stream : TokenStream) : List (Positioned Token) :=
  stream.tokens ++ stream.ending.tokens

namespace Reader

/-- The tokens behind the one that a reader stands at, to the end of the stream. -/
def behind (p : Reader) : List (Positioned Token) :=
  if p.current.value.kind = .eof then [] else p.ahead ++ p.ending.tokens

/-- Uses up the current token, which has to be of the expected kind, also if it is the end of a
line. -/
def consumeExactly (expected : TokenKind) (p : Reader) :
    Except (Positioned SourceError) Reader :=
  let got := p.current.value.kind
  if got ≠ expected then .error (p.refuse (.mismatch expected got))
  else if got = .eof then .ok p
  else
    (TokenStream.fetch p.ending p.ahead).map fun (current, ahead) => { p with current, ahead }

/-! ## Fetching and using up -/

/-- Ends of lines are passed over one after the other, and nothing else is. -/
theorem exists_fetch_eq (ending : StreamEnd) (tokens : List (Positioned Token)) :
    ∃ lineEnds rest, (∀ t ∈ lineEnds, t.value.kind = .endLine) ∧ tokens = lineEnds ++ rest ∧
      TokenStream.fetch ending tokens = TokenStream.fetch ending rest ∧
      (rest = [] ∨ ∃ t ahead, rest = t :: ahead ∧ t.value.kind ≠ .endLine ∧
        TokenStream.fetch ending rest = .ok (t, ahead)) := by
  induction tokens with
  | nil => exact ⟨[], [], by simp, rfl, rfl, .inl rfl⟩
  | cons t tokens ih =>
    by_cases hline : t.value.kind = .endLine
    · obtain ⟨lineEnds, rest, hlines, htokens, hfetch, hrest⟩ := ih
      refine ⟨t :: lineEnds, rest, List.forall_mem_cons.2 ⟨hline, hlines⟩, ?_, ?_, hrest⟩
      · rw [htokens, List.cons_append]
      · rw [← hfetch, TokenStream.fetch, if_pos hline]
    · have hfetch : TokenStream.fetch ending (t :: tokens) = .ok (t, tokens) := by
        rw [TokenStream.fetch, if_neg hline]
      exact ⟨[], t :: tokens, by simp, rfl, rfl, .inr ⟨t, tokens, rfl, hline, hfetch⟩⟩

/-- What is fetched is the first token that is not the end of a line. -/
theorem exists_lineEnds_of_fetch {ending : StreamEnd} {tokens ahead : List (Positioned Token)}
    {t : Positioned Token} (heof : ∀ s ∈ tokens, s.value.kind ≠ .eof)
    (h : TokenStream.fetch ending tokens = .ok (t, ahead)) :
    t.value.kind ≠ .endLine ∧ (∀ s ∈ ahead, s.value.kind ≠ .eof) ∧
      ∃ lineEnds, (∀ s ∈ lineEnds, s.value.kind = .endLine) ∧
        tokens ++ ending.tokens = lineEnds ++
          t :: (if t.value.kind = .eof then [] else ahead ++ ending.tokens) := by
  obtain ⟨lineEnds, rest, hlines, rfl, hfetch, hrest⟩ := exists_fetch_eq ending tokens
  rw [hfetch] at h
  -- If only ends of lines are left, the token fetched is the end of the input.
  rcases hrest with rfl | ⟨s, ahead, rfl, hline, hok⟩
  · cases ending with
    | endOfInput position =>
      cases h
      refine ⟨by simp [Token.plain], by simp, lineEnds, hlines, ?_⟩
      simp [StreamEnd.tokens, Token.plain]
    | failure error => cases h
  · rw [hok] at h
    cases h
    rw [List.forall_mem_append, List.forall_mem_cons] at heof
    obtain ⟨-, hkind, hahead⟩ := heof
    refine ⟨hline, hahead, lineEnds, hlines, ?_⟩
    rw [if_neg hkind, List.append_assoc, List.cons_append]

/-- What using up a token comes to, if it is not refused: at the end of the input nothing, and
otherwise the next token. -/
theorem consume_cases {expected : TokenKind} {p q : Reader} (h : p.consume expected = .ok q) :
    (p.current.value.kind = expected ∨ p.current.value.kind = .endLine) ∧
      (p.current.value.kind = .eof ∧ q = p ∨
        p.current.value.kind ≠ .eof ∧ ∃ t ahead,
          TokenStream.fetch p.ending p.ahead = .ok (t, ahead) ∧
          q = { p with current := t, ahead := ahead }) := by
  simp only [consume] at h
  split at h
  · cases h
  · next hfits =>
    have hkind : p.current.value.kind = expected ∨ p.current.value.kind = .endLine :=
      Decidable.byContradiction fun hne => hfits (not_or.1 hne)
    refine ⟨hkind, ?_⟩
    split at h
    · next heof =>
      cases h
      exact .inl ⟨heof, rfl⟩
    · next heof =>
      cases hfetch : TokenStream.fetch p.ending p.ahead with
      | error error => simp [hfetch, Except.map] at h
      | ok result =>
        rw [hfetch] at h
        cases h
        exact .inr ⟨heof, result.1, result.2, rfl, rfl⟩

/-- Using up a token does not change what has been read. -/
theorem read_of_consume {expected : TokenKind} {p q : Reader} (h : p.consume expected = .ok q) :
    q.read = p.read := by
  obtain ⟨-, ⟨-, rfl⟩ | ⟨-, t, ahead, -, rfl⟩⟩ := consume_cases h <;> rfl

/-- Where the current token is not the end of a line, the leave given to the ends of lines makes no
difference. -/
theorem consume_eq_consumeExactly {p : Reader} (h : p.current.value.kind ≠ .endLine)
    (expected : TokenKind) : p.consume expected = p.consumeExactly expected := by
  simp only [consume, consumeExactly, ne_eq, h, not_false_eq_true, and_true]

/-! ## Standing in a stream -/

/-- A reader stands in a stream, behind the tokens of `front`. -/
structure StandsIn (stream : TokenStream) (front : List (Positioned Token)) (p : Reader) :
    Prop where
  withEnd_eq : stream.withEnd = front ++ p.current :: p.behind
  ending_eq : p.ending = stream.ending
  kind_ne_endLine : p.current.value.kind ≠ .endLine
  /-- The end of the input is nowhere but at the end. -/
  kind_ne_eof : ∀ t ∈ p.ahead, t.value.kind ≠ .eof

variable {stream : TokenStream} {front : List (Positioned Token)} {p q : Reader}

/-- A new reader stands behind the ends of lines at the beginning. -/
theorem exists_standsIn_of_start (heof : ∀ t ∈ stream.tokens, t.value.kind ≠ .eof)
    (h : Reader.start stream = .ok p) :
    ∃ lineEnds, (∀ t ∈ lineEnds, t.value.kind = .endLine) ∧ p.StandsIn stream lineEnds := by
  unfold Reader.start at h
  cases hfetch : TokenStream.fetch stream.ending stream.tokens with
  | error error => simp [hfetch, Except.map] at h
  | ok result =>
    rw [hfetch] at h
    cases h
    obtain ⟨hkind, hahead, lineEnds, hlines, htokens⟩ := exists_lineEnds_of_fetch heof hfetch
    exact ⟨lineEnds, hlines, htokens, rfl, hkind, hahead⟩

/-- What has been read is not looked at. -/
theorem StandsIn.withRead (h : p.StandsIn stream front) (read : Unfinished) :
    { p with read }.StandsIn stream front :=
  ⟨h.withEnd_eq, h.ending_eq, h.kind_ne_endLine, h.kind_ne_eof⟩

/-- Using up a token of the expected kind leads behind it and the ends of lines that follow. -/
theorem StandsIn.consume {expected : TokenKind} (hp : p.StandsIn stream front)
    (h : p.consume expected = .ok q) (hkind : expected ≠ .eof) :
    ∃ lineEnds, (∀ t ∈ lineEnds, t.value.kind = .endLine) ∧
      p.behind = lineEnds ++ q.current :: q.behind ∧
      q.StandsIn stream (front ++ p.current :: lineEnds) := by
  obtain ⟨hexpected, ⟨heof, -⟩ | ⟨heof, t, ahead, hfetch, rfl⟩⟩ := consume_cases h
  · exact absurd (hexpected.resolve_right hp.kind_ne_endLine ▸ heof) hkind
  · obtain ⟨htkind, hahead, lineEnds, hlines, htokens⟩ :=
      exists_lineEnds_of_fetch hp.kind_ne_eof hfetch
    have hbehind : p.behind = p.ahead ++ p.ending.tokens := if_neg heof
    rw [← hbehind] at htokens
    refine ⟨lineEnds, hlines, htokens, ?_, hp.ending_eq, htkind, hahead⟩
    rw [hp.withEnd_eq, htokens, List.append_assoc]
    rfl

/-- Nothing that is used up leads out of the stream. -/
theorem StandsIn.exists_of_consume {expected : TokenKind} (hp : p.StandsIn stream front)
    (h : p.consume expected = .ok q) : ∃ front', q.StandsIn stream front' := by
  by_cases hkind : expected = .eof
  · obtain ⟨hexpected, ⟨-, rfl⟩ | ⟨heof, -⟩⟩ := consume_cases h
    · exact ⟨front, hp⟩
    · exact absurd ((hexpected.resolve_right hp.kind_ne_endLine).trans hkind) heof
  · obtain ⟨lineEnds, -, -, hq⟩ := hp.consume h hkind
    exact ⟨_, hq⟩

/-! ## Everywhere a reader gets to -/

/-- What a step is made of: a move of the grammar, and the token used up that it takes. -/
theorem exists_move_of_step {rules : Rules} (h : p.step rules = .ok q) :
    ∃ expected read, p.read.move rules p.current.value = .ok (expected, read) ∧
      { p with read }.consume expected = .ok q := by
  unfold step at h
  split at h
  · cases h
  · next expected read hmove => exact ⟨expected, read, hmove, h⟩

/-- A token that the grammar takes and that is used up is of exactly the kind that is asked for,
and not the end of the input.  The reader comes to the next token that is not the end of a line. -/
theorem StandsIn.of_move {rules : Rules} {u read : Unfinished} {expected : TokenKind}
    (hp : p.StandsIn stream front) (hmove : u.move rules p.current.value = .ok (expected, read))
    (hconsume : { p with read }.consume expected = .ok q) :
    p.current.value.kind = expected ∧ expected ≠ .eof ∧
      ∃ lineEnds, (∀ t ∈ lineEnds, t.value.kind = .endLine) ∧
        p.behind = lineEnds ++ q.current :: q.behind ∧
        q.StandsIn stream (front ++ p.current :: lineEnds) := by
  have hkind : p.current.value.kind = expected :=
    (consume_cases hconsume).1.resolve_right hp.kind_ne_endLine
  have heof : expected ≠ .eof := fun heof => kind_ne_eof_of_move hmove (hkind.trans heof) heof
  exact ⟨hkind, heof, (hp.withRead read).consume hconsume heof⟩

/-- **The readers that are reached** from a new one.  Besides the steps of reading, a token may be
used up at any time, whatever kind is expected and whatever has been read by then. -/
inductive Reached (rules : Rules) (stream : TokenStream) : Reader → Prop
  | start {p : Reader} (h : Reader.start stream = .ok p) : Reached rules stream p
  | step {p q : Reader} (hp : Reached rules stream p) (h : p.step rules = .ok q) :
      Reached rules stream q
  | consume {p q : Reader} (read : Unfinished) (expected : TokenKind)
      (hp : Reached rules stream p) (h : { p with read }.consume expected = .ok q) :
      Reached rules stream q

/-- The invariant of what is reached. -/
theorem Reached.exists_standsIn {rules : Rules}
    (heof : ∀ t ∈ stream.tokens, t.value.kind ≠ .eof) (h : p.Reached rules stream) :
    ∃ front, p.StandsIn stream front := by
  induction h with
  | start h =>
    obtain ⟨lineEnds, -, hp⟩ := exists_standsIn_of_start heof h
    exact ⟨lineEnds, hp⟩
  | step _ h ih =>
    obtain ⟨front, hp⟩ := ih
    obtain ⟨expected, read, -, hconsume⟩ := exists_move_of_step h
    exact (hp.withRead read).exists_of_consume hconsume
  | consume read expected _ h ih =>
    obtain ⟨front, hp⟩ := ih
    exact (hp.withRead read).exists_of_consume h

end Reader

/-- **The end of a line stands for no other token.**  Wherever a reader of a text gets to, by any
tokens used up one after the other, it does not stand at the end of a line.  So

* it makes no difference that the ends of lines are let through where a token is used up;
* when the grammar, whatever has been read, takes a token of some kind and that token is used up,
  the current token is of exactly that kind and not the end of the input, and the reader comes to
  the next token of the text that is not the end of a line. -/
theorem reached_at_no_lineEnd (d : Dialect) (source : String) {p : Reader}
    (h : p.Reached d.rules (TokenStream.ofSource d source)) :
    p.current.value.kind ≠ .endLine ∧
      (∀ read expected,
        { p with read }.consume expected = { p with read }.consumeExactly expected) ∧
      ∀ (u : Unfinished) expected read q, u.move d.rules p.current.value = .ok (expected, read) →
        { p with read }.consume expected = .ok q →
        p.current.value.kind = expected ∧ expected ≠ .eof ∧
          q.current.value.kind ≠ .endLine ∧
          ∃ front lineEnds, (∀ t ∈ lineEnds, t.value.kind = .endLine) ∧
            (TokenStream.ofSource d source).withEnd =
              front ++ p.current :: (lineEnds ++ q.current :: q.behind) := by
  obtain ⟨front, hp⟩ := h.exists_standsIn fun t ht => Scanner.kind_ne_eof_of_mem_stream ht
  refine ⟨hp.kind_ne_endLine, fun read => Reader.consume_eq_consumeExactly hp.kind_ne_endLine, ?_⟩
  intro u expected read q hmove hconsume
  obtain ⟨hkind, heof, lineEnds, hlines, hbehind, hq⟩ := hp.of_move hmove hconsume
  exact ⟨hkind, heof, hq.kind_ne_endLine, front, lineEnds, hlines, hbehind ▸ hp.withEnd_eq⟩

/-- Behind the quoted name a line ends, and the reader comes to the parenthesis on the next one. -/
theorem reached_at_no_lineEnd_quoted :
    ∃ p q : Reader, p.Reached Dialect.standard.rules (TokenStream.ofSource .standard "('x\n)") ∧
      p.step Dialect.standard.rules = .ok q ∧ p.current = ⟨.identifier "x", ⟨0, 2⟩⟩ ∧
      q.current = ⟨.plain .closeParen, ⟨1, 0⟩⟩ ∧ p.current.value.kind = .identifier ∧
      q.current.value.kind ≠ .endLine ∧
      ∃ front lineEnds, (TokenStream.ofSource .standard "('x\n)").withEnd =
        front ++ p.current :: (lineEnds ++ q.current :: q.behind) := by
  have hstream : TokenStream.ofSource .standard "('x\n)" =
      ⟨[⟨.plain .openParen, ⟨0, 0⟩⟩, ⟨.plain (.keyword .quote), ⟨0, 1⟩⟩,
        ⟨.identifier "x", ⟨0, 2⟩⟩, ⟨.plain .endLine, ⟨0, 3⟩⟩, ⟨.plain .closeParen, ⟨1, 0⟩⟩],
        .endOfInput ⟨1, 1⟩⟩ := by decide +kernel
  let p : Reader := ⟨.within (.expecting .tick) [.head] [], ⟨.identifier "x", ⟨0, 2⟩⟩,
    [⟨.plain .endLine, ⟨0, 3⟩⟩, ⟨.plain .closeParen, ⟨1, 0⟩⟩], .endOfInput ⟨1, 1⟩⟩
  have hp : p.Reached Dialect.standard.rules (TokenStream.ofSource .standard "('x\n)") := by
    rw [hstream]
    exact .step (.step (.start rfl) rfl) rfl
  let read : Unfinished :=
    .within (.expecting (.items .plain [.quote (.identifier "x")])) [] []
  have hmove : p.read.move Dialect.standard.rules p.current.value = .ok (.identifier, read) := rfl
  obtain ⟨hkind, -, hnext, front, lineEnds, -, hbehind⟩ :=
    (reached_at_no_lineEnd .standard "('x\n)" hp).2.2 _ _ _ _ hmove rfl
  exact ⟨p, _, hp, rfl, rfl, rfl, hkind, hnext, front, lineEnds, hbehind⟩

end SmallLisp
