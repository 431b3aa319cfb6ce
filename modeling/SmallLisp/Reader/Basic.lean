import SmallLisp.Reader.Move
import SmallLisp.Token.Stream

/-!
# Reading expressions from tokens

A reader stands at a token of the stream and knows what has been read before it.  One step asks
the grammar what to make of that token and uses it up, which brings the next token in front of
the reader.  Ends of lines never get there: they are passed over when the next token is
fetched.  There is no other lookahead, so the error that is reported is the first one: a token
that does not fit is refused before anything behind it is looked at.

A lexical error takes the place of the token that could not be scanned.  It is reported as soon
as the reader would stand at it, that is, when the token before it has been used up.

The end of the input is a token like the others, except that it is never used up.  At the top
level it is where a program ends; anywhere else no token of its kind fits.
-/

namespace SmallLisp

/-- Fetches the next token that is not the end of a line: the token, and the tokens behind it.
Behind the last token it is the end of the input, or the lexical error that ended the stream. -/
def TokenStream.fetch (ending : StreamEnd) :
    List (Positioned Token) →
      Except (Positioned SourceError) (Positioned Token × List (Positioned Token))
  | [] =>
    match ending with
    | .endOfInput position => .ok (⟨.plain .eof, position⟩, [])
    | .failure error => .error (error.map .lexical)
  | t :: ahead =>
    if t.value.kind = .endLine then TokenStream.fetch ending ahead else .ok (t, ahead)

/-- **A reader of expressions**: what has been read, the token it stands at, and what is left of
the stream behind that token. -/
structure Reader where
  read : Unfinished
  current : Positioned Token
  ahead : List (Positioned Token)
  ending : StreamEnd
  deriving Repr

namespace Reader

/-- A reader at the first token of a stream. -/
def start (stream : TokenStream) : Except (Positioned SourceError) Reader :=
  (TokenStream.fetch stream.ending stream.tokens).map fun (current, ahead) =>
    { read := .empty, current, ahead, ending := stream.ending }

/-- The grammar's complaint about the current token. -/
def refuse (p : Reader) (error : GrammarError) : Positioned SourceError :=
  ⟨.grammatical error, p.current.position⟩

/-- **Uses up the current token**, which has to be of the expected kind.  The end of a line is
let through whatever is expected, since layout is not for the grammar to judge; the end of the
input stays where it is. -/
def consume (expected : TokenKind) (p : Reader) : Except (Positioned SourceError) Reader :=
  let got := p.current.value.kind
  if got ≠ expected ∧ got ≠ .endLine then .error (p.refuse (.mismatch expected got))
  else if got = .eof then .ok p
  else
    (TokenStream.fetch p.ending p.ahead).map fun (current, ahead) => { p with current, ahead }

/-- One step: the grammar's move on the current token, and the token used up. -/
def step (rules : Rules) (p : Reader) : Except (Positioned SourceError) Reader :=
  match p.read.move rules p.current.value with
  | .error error => .error (p.refuse error)
  | .ok (expected, read) => { p with read }.consume expected

/-- The program that has been read, once the reader stands at the end of the input with nothing
unfinished. -/
def program? (p : Reader) : Option Program :=
  match p.read, p.current.value.kind with
  | .topLevel doneRev, .eof => some ⟨doneRev.reverse⟩
  | _, _ => none

/-! ## Every step uses up a token -/

/-- The number of tokens that may still be used up. -/
def remaining (p : Reader) : Nat :=
  if p.current.value.kind = .eof then 0 else p.ahead.length + 1

theorem length_fetch_le {ending : StreamEnd} {tokens ahead : List (Positioned Token)}
    {t : Positioned Token} (h : TokenStream.fetch ending tokens = .ok (t, ahead)) :
    (if t.value.kind = .eof then 0 else ahead.length + 1) ≤ tokens.length := by
  induction tokens with
  | nil =>
    unfold TokenStream.fetch at h
    split at h
    · simp only [Except.ok.injEq, Prod.mk.injEq] at h
      rw [← h.1]
      simp [Token.plain]
    · simp at h
  | cons first tokens ih =>
    unfold TokenStream.fetch at h
    split at h
    · exact Nat.le_trans (ih h) (Nat.le_succ _)
    · simp only [Except.ok.injEq, Prod.mk.injEq] at h
      rw [← h.1, ← h.2]
      split <;> simp

/-- The grammar never takes the end of the input. -/
theorem kind_ne_eof_of_move {rules : Rules} {u v : Unfinished} {t : Token} {expected : TokenKind}
    (h : u.move rules t = .ok (expected, v)) (ht : t.kind = .eof) : expected ≠ .eof := by
  have hatom : t.atom? = none := by
    simp [Token.atom?, ht]
  have hname : t.name? = none := by
    simp [Token.name?, ht]
  have hstart : ∀ done around, Unfinished.start rules done around t =
      .error (.unexpectedToken t) := by
    intro done around
    simp [Unfinished.start, ht, hatom]
  intro he
  subst he
  unfold Unfinished.move at h
  simp only [hstart, hname, ht, Unfinished.endsSequence, Except.map] at h
  repeat' split at h
  all_goals simp_all

theorem remaining_consume_lt {expected : TokenKind} {p q : Reader}
    (h : p.consume expected = .ok q) (hne : p.current.value.kind ≠ .eof) :
    q.remaining < p.remaining := by
  unfold consume at h
  simp only [hne, if_false] at h
  split at h
  · simp at h
  · match hfetch : TokenStream.fetch p.ending p.ahead with
    | .error _ => simp [hfetch, Except.map] at h
    | .ok (current, ahead) =>
      simp only [hfetch, Except.map, Except.ok.injEq] at h
      have hle := length_fetch_le hfetch
      rw [← h]
      simp only [remaining, hne, if_false]
      omega

theorem remaining_step_lt {rules : Rules} {p q : Reader} (h : p.step rules = .ok q) :
    q.remaining < p.remaining := by
  unfold step at h
  split at h
  · simp at h
  · next expected read hmove =>
    by_cases ht : p.current.value.kind = .eof
    · have hne := kind_ne_eof_of_move hmove ht
      simp only [consume, ht] at h
      simp [Ne.symm hne] at h
    · have hlt : q.remaining < Reader.remaining { p with read } := remaining_consume_lt h ht
      exact hlt

/-! ## Running -/

/-- Steps until the program is read or a token is refused. -/
def run (rules : Rules) (p : Reader) : Except (Positioned SourceError) Program :=
  match p.program? with
  | some program => .ok program
  | none =>
    match _h : p.step rules with
    | .error error => .error error
    | .ok q => q.run rules
termination_by p.remaining
decreasing_by exact remaining_step_lt _h

end Reader

/-- The program that a stream of tokens makes up, or the first error. -/
def TokenStream.readProgram (rules : Rules) (stream : TokenStream) :
    Except (Positioned SourceError) Program :=
  match Reader.start stream with
  | .error error => .error error
  | .ok reader => reader.run rules

/-- Reads a program from what a scanner has not yet gone through. -/
def Scanner.readProgram (d : Dialect) (s : Scanner) : Except (Positioned SourceError) Program :=
  (s.stream d).readProgram d.rules

/-- **Reads a program from a source text.** -/
def readProgram (d : Dialect) (source : String) : Except (Positioned SourceError) Program :=
  (Scanner.ofSource source).readProgram d

end SmallLisp
