import Mathlib.Data.List.Nodup
import SmallLisp.Proofs.Dialects
import SmallLisp.Proofs.LexicalErrors

/-!
# Errors say what is there

A grammatical error stands in the place of a token and says something about it: which kind it is,
or the token as it is, or that it begins something.  All of that is so
(`readProgram_error_describes`).

One step could say more than that.  A move names the kind of token it takes, which might be any
kind, and refuses what is no atom, which might be anything.  But a kind that is no parenthesis is
always that of the token itself (`Unfinished.Moved`), and of the tokens that come out of a text only
a closing parenthesis starts no expression (`Token.Decisive.closes_of_atom?`).
-/

namespace SmallLisp

/-- A token that the grammar decides on: one that comes out of a text and is not the end of a line,
or the end of the input. -/
def Token.Decisive (t : Token) : Prop := t = .plain .eof ∨ t.Scanned ∧ t.kind ≠ .endLine

/-- **What an error says about a token.** -/
def GrammarError.Describes (t : Token) : GrammarError → Prop
  | .mismatch expected got =>
    got = t.kind ∧ (expected = .openParen ∨ expected = .closeParen) ∧ got ≠ expected
  | .unexpectedToken s => s = t ∧ (t.kind = .closeParen ∨ t.kind = .eof)
  | .expectedName got =>
    got = t.kind ∧ t.kind ≠ .identifier ∧ t.kind ≠ .boolean ∧
      ∀ k lexeme, t ≠ .word (.keyword k) lexeme
  | .nestingTooDeep => t.kind = .openParen ∨ t.kind = .keyword .quote

namespace Token

variable {t : Token}

/-- A token that is no atom and begins nothing closes something. -/
theorem Decisive.closes_of_atom? (ht : t.Decisive) (hbegins : t.begins = false)
    (hatom : t.atom? = none) : t.kind = .closeParen ∨ t.kind = .eof := by
  rcases ht with rfl | ⟨hscanned, hline⟩
  · exact .inr rfl
  · cases hscanned with
    | endLine => exact absurd rfl hline
    | opening => cases hbegins
    | closing => exact .inl rfl
    | tick => cases hbegins
    | @keyword k letters hword hkeyword =>
      by_cases hk : k = .quote
      · simp [begins, hk] at hbegins
      · simp [atom?, hk] at hatom
    | _ => cases hatom

/-- A token that is no name is described as such. -/
theorem Decisive.describes_expectedName (ht : t.Decisive) (hname : t.name? = none) :
    (GrammarError.expectedName t.kind).Describes t := by
  rcases ht with rfl | ⟨hscanned, -⟩
  · exact ⟨rfl, nofun, nofun, nofun⟩
  · cases hscanned with
    | boolean b => cases hname
    | identifier hword hfree => cases hname
    | @keyword k letters hword hkeyword => cases k <;> cases hname
    | _ => exact ⟨rfl, nofun, nofun, nofun⟩

end Token

namespace Unfinished

variable {rules : Rules} {doneRev : List Expr} {around : List Waiting} {u v : Unfinished}
  {t : Token} {expected : TokenKind} {error : GrammarError}

/-! ## One token -/

/-- Why a token starts no expression: it cannot, or there is no room. -/
theorem start_eq_error (h : start rules doneRev around t = .error error) :
    error = .unexpectedToken t ∧ t.begins = false ∧ t.atom? = none ∨
      error = .nestingTooDeep ∧ t.begins = true := by
  simp only [start] at h
  split at h
  · next hkind =>
    split at h
    · cases h
    · cases h
      exact .inr ⟨rfl, by simp [Token.begins, hkind]⟩
  · next hkind =>
    split at h
    · cases h
    · cases h
      exact .inr ⟨rfl, by simp [Token.begins, hkind]⟩
  · next hopen hquote =>
    split at h
    · cases h
    · next hatom =>
      cases h
      have hbegins : t.begins = false := by
        rw [Token.begins, Bool.or_eq_false_iff]
        exact ⟨beq_eq_false_iff_ne.2 hopen, beq_eq_false_iff_ne.2 hquote⟩
      exact .inl ⟨rfl, hbegins, hatom⟩

/-- What a move can be: what a start is, a kind of token taken, or the complaint that the token
is no name. -/
inductive Moved (rules : Rules) (t : Token) : Except GrammarError (TokenKind × Unfinished) → Prop
  | starts (doneRev : List Expr) (around : List Waiting) :
      Moved rules t ((start rules doneRev around t).map fun v => (t.kind, v))
  | takes {expected : TokenKind} (v : Unfinished)
      (hexpected : expected = t.kind ∨ expected = .openParen ∨ expected = .closeParen) :
      Moved rules t (.ok (expected, v))
  | noName (hname : t.name? = none) : Moved rules t (.error (.expectedName t.kind))

theorem moved_move (rules : Rules) (u : Unfinished) (t : Token) :
    Moved rules t (u.move rules t) := by
  cases u with
  | topLevel doneRev => exact .starts doneRev []
  | within innermost around doneRev =>
    cases innermost with
    | expecting w =>
      cases w with
      | head =>
        simp only [move]
        split
        · exact .takes _ (.inr (.inr rfl))
        · split
          · next hquote =>
            simp only [Token.isQuoteKeyword, Bool.and_eq_true, beq_iff_eq] at hquote
            exact .takes _ (.inl hquote.2.1.symm)
          · exact .starts doneRev (.head :: around)
      | condNo test yes =>
        simp only [move]
        split
        · exact .takes _ (.inr (.inr rfl))
        · exact .starts doneRev (.condNo test yes :: around)
      | items sequence itemsRev =>
        simp only [move]
        split
        · exact .takes _ (.inr (.inr rfl))
        · exact .starts doneRev (.items sequence itemsRev :: around)
      | _ => exact .starts doneRev (_ :: around)
    | setqName | funcName =>
      simp only [move]
      split
      · exact .takes _ (.inl rfl)
      · next hname => exact .noName hname
    | parametersOpen form => exact .takes _ (.inr (.inl rfl))
    | parameters form namesRev =>
      simp only [move]
      split
      · exact .takes _ (.inr (.inr rfl))
      · split
        · exact .takes _ (.inl rfl)
        · next hname => exact .noName hname
    | closing e => exact .takes _ (.inr (.inr rfl))

/-- The complaint that no expression starts is true. -/
theorem describes_of_start (ht : t.Decisive) (h : start rules doneRev around t = .error error) :
    error.Describes t := by
  rcases start_eq_error h with ⟨rfl, hbegins, hatom⟩ | ⟨rfl, hbegins⟩
  · exact ⟨rfl, ht.closes_of_atom? hbegins hatom⟩
  · simpa [Token.begins, GrammarError.Describes] using hbegins

/-- What the grammar says of a token that it refuses is true. -/
theorem describes_of_advance (ht : t.Decisive) (h : u.advance rules t = .error error) :
    error.Describes t := by
  have hmoved := moved_move rules u t
  rw [advance] at h
  generalize u.move rules t = outcome at h hmoved
  cases hmoved with
  | starts doneRev around =>
    cases hstart : start rules doneRev around t with
    | error error' =>
      simp only [hstart, Except.map, Except.error.injEq] at h
      exact h ▸ describes_of_start ht hstart
    | ok v => simp [hstart, Except.map] at h
  | takes v hexpected =>
    simp only at h
    split at h
    · cases h
    · next hkind =>
      cases h
      exact ⟨rfl, hexpected.resolve_left (Ne.symm hkind), hkind⟩
  | noName hname =>
    cases h
    exact ht.describes_expectedName hname

/-! ## Plain lists -/

theorem IsPlain.advanceAll {ts : List Token} (hforms : rules.readsForms = false) (hu : u.IsPlain)
    (h : u.advanceAll rules ts = .ok v) : v.IsPlain := by
  induction ts generalizing u with
  | nil =>
    cases h
    exact hu
  | cons t ts ih =>
    cases ht : u.advance rules t with
    | error error => simp [Unfinished.advanceAll, ht] at h
    | ok w =>
      rw [advanceAll_cons_of_ok ht] at h
      exact ih (hu.advance hforms ht) h

theorem advance_eq_start (doneRev : List Expr) (around : List Waiting)
    (h : u.move rules t = (start rules doneRev around t).map fun v => (t.kind, v)) :
    u.advance rules t = start rules doneRev around t := by
  rw [Unfinished.advance, h]
  cases start rules doneRev around t <;> simp [Except.map]

/-- Where plain lists are read, little can be refused: no name is ever expected, and the only
kind that is missed is the closing parenthesis, at the end of the input. -/
theorem IsPlain.advance_eq_error (hforms : rules.readsForms = false) (hu : u.IsPlain)
    (h : u.advance rules t = .error error) :
    error = .mismatch .closeParen .eof ∨ error = .unexpectedToken t ∨ error = .nestingTooDeep := by
  -- Where the move is to begin an expression, the reason is one of those for which none begins.
  have hstarts : ∀ doneRev around,
      u.move rules t = (start rules doneRev around t).map (fun v => (t.kind, v)) →
      error = .mismatch .closeParen .eof ∨ error = .unexpectedToken t ∨
        error = .nestingTooDeep := by
    intro doneRev around hmove
    rw [advance_eq_start doneRev around hmove] at h
    rcases start_eq_error h with ⟨herror, -⟩ | ⟨herror, -⟩
    · exact .inr (.inl herror)
    · exact .inr (.inr herror)
  obtain ⟨doneRev, around, rfl, haround⟩ := hu
  cases around with
  | nil => exact hstarts doneRev [] rfl
  | cons w around =>
    rw [List.forall_mem_cons] at haround
    cases w with
    | tick => exact hstarts doneRev (.tick :: around) rfl
    | head =>
      by_cases hclose : t.kind = .closeParen
      · simp [awaiting, Unfinished.advance, move, hclose] at h
      · exact hstarts doneRev (.head :: around) (by simp [awaiting, move, hclose, hforms])
    | items sequence itemsRev =>
      cases hends : endsSequence t with
      | true =>
        simp only [awaiting, Unfinished.advance, move, hends, if_true] at h
        split at h
        · cases h
        · next hclose =>
          simp only [endsSequence, Bool.or_eq_true, beq_iff_eq, hclose, false_or] at hends
          rw [hends] at h
          cases h
          exact .inl rfl
      | false =>
        exact hstarts doneRev (.items sequence itemsRev :: around)
          (by simp [awaiting, move, hends])
    | _ => exact haround.1.elim

end Unfinished

/-! ## What a reader reports -/

variable {d : Dialect} {source : String}

/-- The tokens that the grammar decides on are what a scanner answers. -/
theorem TokenStream.ok_mem_listing_of_mem_decisive {stream : TokenStream} {t : Positioned Token}
    (showsLineEnds : Bool) (ht : t ∈ stream.decisive) : .ok t ∈ stream.listing showsLineEnds := by
  rw [listing_eq, List.mem_append]
  rcases List.mem_append.1 ht with ht | ht
  · exact .inl (ok_mem_of_mem_significant ht)
  · refine .inr ?_
    cases hending : stream.ending with
    | failure error => simp [hending, StreamEnd.tokens] at ht
    | endOfInput position =>
      rw [hending, StreamEnd.tokens, List.mem_singleton] at ht
      rw [ht, StreamEnd.answer, List.mem_singleton]

theorem TokenStream.decisive_value_of_mem_decisive {t : Positioned Token}
    (ht : t ∈ (ofSource d source).decisive) : t.value.Decisive := by
  rcases List.mem_append.1 ht with ht | ht
  · have hkind : t.value.kind ≠ .endLine := by simpa using (List.mem_filter.1 ht).2
    exact .inr ⟨scanned_of_mem_significant (List.mem_map_of_mem ht), hkind⟩
  · cases hending : (ofSource d source).ending with
    | failure error => simp [hending, StreamEnd.tokens] at ht
    | endOfInput position =>
      rw [hending, StreamEnd.tokens, List.mem_singleton] at ht
      exact .inl (by rw [ht])

/-- A place in a listing says which answer is meant. -/
theorem TokenStream.eq_of_position_eq {showsLineEnds : Bool} {answer answer' : Scanner.Result}
    (h : answer ∈ (ofSource d source).listing showsLineEnds)
    (h' : answer' ∈ (ofSource d source).listing showsLineEnds)
    (hposition : answer.position = answer'.position) : answer = answer' := by
  have hnodup : (((ofSource d source).listing showsLineEnds).map Scanner.Result.position).Nodup :=
    (pairwise_position_listing d source showsLineEnds).imp ne_of_lt
  exact List.inj_on_of_nodup_map hnodup h h' hposition

/-- **Errors are truthful.**  A grammatical error stands in the place of one answer of the scanner,
which is a token and not the end of a line, and what the error says is so of that token.  Where
plain lists are read, only a closing parenthesis is ever missed, and no name. -/
theorem readProgram_error_describes {error : GrammarError} {position : Position}
    (h : readProgram d source = .error ⟨.grammatical error, position⟩) :
    ∃ t : Positioned Token, .ok t ∈ (TokenStream.ofSource d source).listing true ∧
      (∀ answer ∈ (TokenStream.ofSource d source).listing true,
        answer.position = position → answer = .ok t) ∧
      t.position = position ∧ t.value.kind ≠ .endLine ∧ error.Describes t.value ∧
      (d.readsForms = false →
        error = .mismatch .closeParen .eof ∨ error = .unexpectedToken t.value ∨
          error = .nestingTooDeep) := by
  rw [readProgram_eq_readFrom] at h
  have heof : ∀ t ∈ (TokenStream.ofSource d source).significant, t.value.kind ≠ .eof :=
    fun t ht => Scanner.kind_ne_eof_of_mem_stream (List.mem_of_mem_filter ht)
  obtain ⟨front, t, behind, u, hdecisive, rfl, hfront, hrefuses⟩ :=
    Unfinished.exists_refuses_of_readFrom_eq_error heof h
  have ht : t ∈ (TokenStream.ofSource d source).decisive := by
    rw [TokenStream.decisive, hdecisive]
    simp
  have hmem := TokenStream.ok_mem_listing_of_mem_decisive true ht
  have hvalue := TokenStream.decisive_value_of_mem_decisive ht
  refine ⟨t, hmem, ?_, rfl, ?_, Unfinished.describes_of_advance hvalue hrefuses.advance_eq, ?_⟩
  · intro answer hanswer hposition
    exact TokenStream.eq_of_position_eq hanswer hmem hposition
  · rcases hvalue with heq | ⟨-, hkind⟩
    · simp [heq]
    · exact hkind
  · intro hforms
    have hempty : Unfinished.empty.IsPlain := ⟨[], [], rfl, by simp⟩
    exact (hempty.advanceAll hforms hfront).advance_eq_error hforms hrefuses.advance_eq

/-- A tick where a name should be: of the keyword `quote` only the word is a name. -/
theorem readProgram_error_describes_tick :
    readProgram .standard "(setq\n'x 1)" =
        .error ⟨.grammatical (.expectedName (.keyword .quote)), ⟨1, 0⟩⟩ ∧
      ∃ t : Positioned Token,
        .ok t ∈ (TokenStream.ofSource .standard "(setq\n'x 1)").listing true ∧
        t.position = ⟨1, 0⟩ ∧ t.value.kind = .keyword .quote ∧
        ∀ lexeme, t.value ≠ .word (.keyword .quote) lexeme := by
  have hstream : TokenStream.ofSource .standard "(setq\n'x 1)" =
      ⟨[⟨.opening, ⟨0, 0⟩⟩, ⟨.word (.keyword .setq) "setq", ⟨0, 1⟩⟩, ⟨.plain .endLine, ⟨0, 5⟩⟩,
        ⟨.plain (.keyword .quote), ⟨1, 0⟩⟩, ⟨.identifier "x", ⟨1, 1⟩⟩,
        ⟨.number (.integer 1), ⟨1, 3⟩⟩, ⟨.closing, ⟨1, 4⟩⟩], .endOfInput ⟨1, 5⟩⟩ := by
    decide +kernel
  have hread : readProgram .standard "(setq\n'x 1)" =
      .error ⟨.grammatical (.expectedName (.keyword .quote)), ⟨1, 0⟩⟩ := by
    rw [readProgram_eq_readFrom, hstream]
    rfl
  obtain ⟨t, hmem, -, hposition, -, ⟨hkind, -, -, hword⟩, -⟩ := readProgram_error_describes hread
  exact ⟨hread, t, hmem, hposition, hkind.symm, hword .quote⟩

end SmallLisp
