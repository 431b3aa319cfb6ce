import SmallLisp.Dialect
import SmallLisp.Token.Lexeme

/-!
# Scanning

A scanner goes through a source text and answers requests for tokens, one at a time.  It adds to
the lexemes what they do not have by themselves: the place in the text, the blanks in between,
and an end that is not gone beyond.
-/

namespace SmallLisp

/-- The place behind a lexeme.  This is the one place where a lone carriage return ends a
line. -/
def Position.afterLexeme (p : Position) (lexeme : List Char) : Position :=
  if lexeme = ['\r'] then p.nextLine else p.afterAll lexeme

/-- **A scanner**: the text still to be read, the place where it begins, and whether the end of
the input has been reported. -/
structure Scanner where
  rest : List Char
  position : Position := .start
  ended : Bool := false
  deriving DecidableEq, Repr

namespace Scanner

/-- A scanner at the beginning of a source text. -/
def ofSource (source : String) : Scanner := { rest := source.toList }

/-- The scanner behind the blanks in front of it. -/
def skipBlanks (s : Scanner) : Scanner :=
  { s with
    rest := s.rest.dropWhile isBlank
    position := s.position.afterAll (s.rest.takeWhile isBlank) }

/-- The result of one request for a token: the token with its place, or the lexical error and
its place. -/
abbrev Result := Except (Positioned LexError) (Positioned Token)

/-- **One request for a token**: the answer, and the scanner as it stands afterwards.

A bad number is passed over as a whole, so that scanning can go on behind it.  An unknown
character is never passed over: the next request meets it again.  Once the end has been
reported, every request reports it again, at the same place. -/
def next (d : Dialect) (s : Scanner) : Result × Scanner :=
  if s.ended then (.ok ⟨.plain .eof, s.position⟩, s)
  else
    let s := s.skipBlanks
    let atEnd := (.ok ⟨.plain .eof, s.position⟩, { s with ended := true })
    match splitLexeme s.rest with
    | some (lexeme, rest) =>
      let answer := match Token.ofLexeme lexeme with
        | .ok token => .ok ⟨token, s.position⟩
        | .error error => .error ⟨error, s.position⟩
      (answer, { s with rest, position := s.position.afterLexeme lexeme })
    | none =>
      match s.rest with
      | [] => atEnd
      | c :: _ =>
        if d.endsAtUnknown then atEnd else (.error ⟨.unexpectedChar c, s.position⟩, s)

/-- The scanner after `n` requests, whatever they answered. -/
def afterRequests (d : Dialect) : Nat → Scanner → Scanner
  | 0, s => s
  | n + 1, s => afterRequests d n (s.next d).2

/-- The answers to `n` requests. -/
def answers (d : Dialect) : Nat → Scanner → List Result
  | 0, _ => []
  | n + 1, s => (s.next d).1 :: answers d n (s.next d).2

theorem length_skipBlanks_le (s : Scanner) : s.skipBlanks.rest.length ≤ s.rest.length :=
  (List.dropWhile_sublist _).length_le

/-- A request that answers with a token other than the end of the input has used up some of the
text. -/
theorem length_next_lt {d : Dialect} {s s' : Scanner} {t : Positioned Token}
    (h : s.next d = (.ok t, s')) (hne : t.value.kind ≠ .eof) :
    s'.rest.length < s.rest.length := by
  unfold next at h
  split at h
  · simp only [Prod.mk.injEq, Except.ok.injEq] at h
    exact absurd (by rw [← h.1]; rfl) hne
  · have hskip := s.length_skipBlanks_le
    simp only at h
    split at h
    · next lexeme rest hsplit =>
      have hlt := length_lt_of_splitLexeme hsplit
      simp only [Prod.mk.injEq] at h
      rw [← h.2]
      show rest.length < s.rest.length
      omega
    · split at h
      · simp only [Prod.mk.injEq, Except.ok.injEq] at h
        exact absurd (by rw [← h.1]; rfl) hne
      · split at h
        · simp only [Prod.mk.injEq, Except.ok.injEq] at h
          exact absurd (by rw [← h.1]; rfl) hne
        · simp at h

end Scanner
end SmallLisp
