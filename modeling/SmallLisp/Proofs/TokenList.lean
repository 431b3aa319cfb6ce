import SmallLisp.Reader.Basic

/-!
# Reading as a recursion on the tokens

A reader moves along a stream that also holds ends of lines, fetches one token ahead of what it
decides on, and stops at the end of the input.  For statements about whole runs all of this is in
the way.  Here the same reading is written as a recursion on the list of tokens that matter: what
has been read so far takes in the tokens one after the other.

* `Unfinished.advance`: what one token makes of what has been read, or why it does not fit.
* `Unfinished.advanceAll`: several tokens in a row.
* `Unfinished.readFrom`: everything up to the end of the stream.

The result is `readProgram_eq_readFrom`: reading a text is this recursion on the tokens of the
text that are not ends of lines.
-/

namespace SmallLisp

/-! ## The tokens that matter -/

/-- The tokens of a stream that are not ends of lines. -/
def TokenStream.significant (stream : TokenStream) : List (Positioned Token) :=
  stream.tokens.filter fun t => t.value.kind != .endLine

/-- The token for the end of the input, if that is how a stream ends. -/
def StreamEnd.tokens : StreamEnd → List (Positioned Token)
  | .endOfInput position => [⟨.plain .eof, position⟩]
  | .failure _ => []

theorem TokenStream.map_value_significant (stream : TokenStream) :
    stream.significant.map (·.value) =
      (stream.tokens.map (·.value)).filter (·.kind != .endLine) := by
  rw [significant, List.filter_map]
  rfl

/-- The tokens before the end of the input do not include the token for that end. -/
theorem Scanner.kind_ne_eof_of_mem_stream {d : Dialect} {s : Scanner} {t : Positioned Token}
    (ht : t ∈ (s.stream d).tokens) : t.value.kind ≠ .eof := by
  fun_induction Scanner.stream d s with
  | case1 s error s' h => simp at ht
  | case2 s u s' h hkind => simp at ht
  | case3 s u s' h hkind later ih =>
    rcases List.mem_cons.1 ht with rfl | ht
    · exact hkind
    · exact ih ht

namespace Unfinished

/-! ## One token -/

/-- **What a token makes of what has been read so far**, or the grammar's complaint about it. -/
def advance (rules : Rules) (u : Unfinished) (t : Token) : Except GrammarError Unfinished :=
  match u.move rules t with
  | .error error => .error error
  | .ok (expected, v) => if t.kind = expected then .ok v else .error (.mismatch expected t.kind)

/-- Where an expression is to start: at the top level, or in the innermost of what is begun. -/
def awaiting (doneRev : List Expr) : List Waiting → Unfinished
  | [] => topLevel doneRev
  | w :: around => within (.expecting w) around doneRev

/-- Where an expression is to start, the token by itself decides whether it starts one.  Excluded
are the tokens that mean something else in one of these places: those that end a sequence, and
the word `quote` at the head of a list. -/
theorem advance_awaiting {rules : Rules} {doneRev : List Expr} {around : List Waiting} {t : Token}
    (hclose : t.kind ≠ .closeParen) (heof : t.kind ≠ .eof)
    (hquote : around.head? = some .head → (rules.readsForms && t.isQuoteKeyword) = false) :
    (awaiting doneRev around).advance rules t = start rules doneRev around t := by
  have hmove : (awaiting doneRev around).move rules t =
      (start rules doneRev around t).map fun u => (t.kind, u) := by
    cases around with
    | nil => rfl
    | cons w around => cases w <;> simp_all [awaiting, move, endsSequence]
  rw [advance, hmove]
  cases start rules doneRev around t <;> simp [Except.map]

/-! ## Several tokens -/

/-- What several tokens make of what has been read so far, one after the other. -/
def advanceAll (rules : Rules) : Unfinished → List Token → Except GrammarError Unfinished
  | u, [] => .ok u
  | u, t :: ts =>
    match u.advance rules t with
    | .error error => .error error
    | .ok v => advanceAll rules v ts

@[simp] theorem advanceAll_nil (rules : Rules) (u : Unfinished) :
    u.advanceAll rules [] = .ok u := rfl

theorem advanceAll_cons_of_ok {rules : Rules} {u v : Unfinished} {t : Token}
    (h : u.advance rules t = .ok v) (ts : List Token) :
    u.advanceAll rules (t :: ts) = v.advanceAll rules ts := by
  simp only [advanceAll, h]

theorem advanceAll_append_of_ok {rules : Rules} {u v : Unfinished} {ts : List Token}
    (h : u.advanceAll rules ts = .ok v) (us : List Token) :
    u.advanceAll rules (ts ++ us) = v.advanceAll rules us := by
  induction ts generalizing u with
  | nil =>
    simp only [advanceAll, Except.ok.injEq] at h
    rw [h, List.nil_append]
  | cons t ts ih =>
    simp only [advanceAll] at h
    split at h
    · simp at h
    · next v' hv' =>
      rw [List.cons_append, advanceAll_cons_of_ok hv', ih h]

/-! ## Everything up to the end -/

/-- The complaint about the end of the input, which stands inside no list, form or quotation.
Where any number of expressions or names may stand, the closing parenthesis is what is missed. -/
def refusalAtEnd : Innermost → GrammarError
  | .expecting (.items _ _) => .mismatch .closeParen .eof
  | .expecting _ => .unexpectedToken (.plain .eof)
  | .setqName => .expectedName .eof
  | .funcName => .expectedName .eof
  | .parametersOpen _ => .mismatch .openParen .eof
  | .parameters _ _ => .mismatch .closeParen .eof
  | .closing _ => .mismatch .closeParen .eof

theorem advance_within_eof (rules : Rules) (innermost : Innermost) (around : List Waiting)
    (doneRev : List Expr) :
    (within innermost around doneRev).advance rules (.plain .eof) =
      .error (refusalAtEnd innermost) := by
  obtain ⟨readsForms, limit⟩ := rules
  -- By what the reader is in the middle of; only a head depends on the dialect.
  cases innermost with
  | expecting w =>
    cases w with
    | head => cases readsForms <;> rfl
    | _ => rfl
  | setqName => rfl
  | funcName => rfl
  | parametersOpen form => rfl
  | parameters form namesRev => rfl
  | closing e => rfl

/-- What reading comes to when the stream ends.  At the top level the program is complete;
inside anything else the end of the input is a token that does not fit. -/
def conclude : Unfinished → StreamEnd → Except (Positioned SourceError) Program
  | _, .failure error => .error (error.map .lexical)
  | topLevel doneRev, .endOfInput _ => .ok ⟨doneRev.reverse⟩
  | within innermost _ _, .endOfInput position =>
    .error ⟨.grammatical (refusalAtEnd innermost), position⟩

/-- Reading on from what has been read so far, over tokens that are not ends of lines. -/
def readFrom (rules : Rules) (ending : StreamEnd) :
    Unfinished → List (Positioned Token) → Except (Positioned SourceError) Program
  | u, [] => u.conclude ending
  | u, t :: ts =>
    match u.advance rules t.value with
    | .error error => .error ⟨.grammatical error, t.position⟩
    | .ok v => readFrom rules ending v ts

end Unfinished

/-! ## A reader does the same -/

namespace Reader

/-- A reader that goes on from what has been read so far, with the tokens that are left of the
stream, ends of lines among them. -/
def resume (rules : Rules) (ending : StreamEnd) (u : Unfinished)
    (tokens : List (Positioned Token)) : Except (Positioned SourceError) Program :=
  match TokenStream.fetch ending tokens with
  | .error error => .error error
  | .ok (current, ahead) => Reader.run rules { read := u, current, ahead, ending }

theorem program?_eq_none {p : Reader} (h : p.current.value.kind ≠ .eof) : p.program? = none := by
  unfold program?
  split
  · exact absurd (by assumption) h
  · rfl

theorem run_eq_of_program?_eq_none {rules : Rules} {p : Reader} (h : p.program? = none) :
    p.run rules =
      match p.step rules with
      | .error error => .error error
      | .ok q => q.run rules := by
  rw [run, h]
  cases p.step rules <;> simp only

/-- In front of a token that is neither the end of a line nor the end of the input, a step is
`Unfinished.advance`, and the reader goes on with the tokens behind. -/
theorem run_eq_of_significant {rules : Rules} {p : Reader}
    (hline : p.current.value.kind ≠ .endLine) (heof : p.current.value.kind ≠ .eof) :
    p.run rules =
      match p.read.advance rules p.current.value with
      | .error error => .error ⟨.grammatical error, p.current.position⟩
      | .ok v => resume rules p.ending v p.ahead := by
  rw [run_eq_of_program?_eq_none (program?_eq_none heof)]
  simp only [step, Unfinished.advance]
  cases hmove : p.read.move rules p.current.value with
  | error error => simp [refuse]
  | ok result =>
    obtain ⟨expected, v⟩ := result
    by_cases hexpected : p.current.value.kind = expected
    · subst hexpected
      simp only [consume, heof, resume, ne_eq, not_true_eq_false, false_and, if_false, if_true]
      cases TokenStream.fetch p.ending p.ahead <;> rfl
    · simp [consume, hexpected, hline, refuse]

/-- At the end of the input a reader is done, one way or the other. -/
theorem run_eq_conclude {rules : Rules} {p : Reader} {position : Position}
    (h : p.current = ⟨.plain .eof, position⟩) :
    p.run rules = p.read.conclude (.endOfInput position) := by
  cases hread : p.read with
  | topLevel doneRev =>
    rw [run]
    simp [program?, hread, h, Token.plain, Unfinished.conclude]
  | within innermost around doneRev =>
    have hnone : p.program? = none := by simp [program?, hread]
    have hadvance := Unfinished.advance_within_eof rules innermost around doneRev
    rw [run_eq_of_program?_eq_none hnone]
    simp only [step, hread, h, Unfinished.conclude]
    simp only [Unfinished.advance] at hadvance
    cases hmove : Unfinished.move rules (.within innermost around doneRev) (.plain .eof) with
    | error error =>
      rw [hmove, Except.error.injEq] at hadvance
      simp [refuse, hadvance, h]
    | ok result =>
      obtain ⟨expected, v⟩ := result
      -- No move expects the end of the input, so it is refused where the token would be used up.
      have hne : expected ≠ .eof := kind_ne_eof_of_move hmove rfl
      rw [hmove] at hadvance
      simp only [Token.plain, hne.symm, if_false, Except.error.injEq] at hadvance
      simp [consume, refuse, Token.plain, hne.symm, ← hadvance]

theorem resume_eq_readFrom {rules : Rules} {ending : StreamEnd} {u : Unfinished}
    {tokens : List (Positioned Token)} (heof : ∀ t ∈ tokens, t.value.kind ≠ .eof) :
    resume rules ending u tokens =
      u.readFrom rules ending (tokens.filter fun t => t.value.kind != .endLine) := by
  induction tokens generalizing u with
  | nil =>
    cases ending with
    | endOfInput position =>
      simp only [resume, TokenStream.fetch]
      exact run_eq_conclude rfl
    | failure error => cases u <;> rfl
  | cons t ts ih =>
    have hts : ∀ t ∈ ts, t.value.kind ≠ .eof := fun t ht => heof t (List.mem_cons_of_mem _ ht)
    -- An end of a line is passed over when it is fetched, and left out by the filter.
    by_cases hline : t.value.kind = .endLine
    · have hskip : resume rules ending u (t :: ts) = resume rules ending u ts := by
        simp [resume, TokenStream.fetch, hline]
      rw [hskip, ih hts, List.filter_cons_of_neg (by simp [hline])]
    · have hfetch : TokenStream.fetch ending (t :: ts) = .ok (t, ts) := by
        simp [TokenStream.fetch, hline]
      rw [List.filter_cons_of_pos (by simp [hline]), resume, hfetch, Unfinished.readFrom]
      simp only
      rw [run_eq_of_significant hline (heof t List.mem_cons_self)]
      cases hadvance : u.advance rules t.value with
      | error error => simp only
      | ok v => simp only [ih hts]

end Reader

/-- Whatever the rules, reading a stream is a recursion on its tokens. -/
theorem TokenStream.readProgram_ofSource (rules : Rules) (d : Dialect) (source : String) :
    (ofSource d source).readProgram rules =
      Unfinished.empty.readFrom rules (ofSource d source).ending
        (ofSource d source).significant := by
  have hresume : (ofSource d source).readProgram rules =
      Reader.resume rules (ofSource d source).ending .empty (ofSource d source).tokens := by
    simp only [readProgram, Reader.start, Reader.resume]
    cases fetch _ _ <;> rfl
  rw [hresume]
  exact Reader.resume_eq_readFrom fun t ht => Scanner.kind_ne_eof_of_mem_stream ht

/-- **Reading a text is a recursion on its tokens**: those that are not ends of lines, one after
the other, beginning with nothing read. -/
theorem readProgram_eq_readFrom (d : Dialect) (source : String) :
    readProgram d source =
      Unfinished.empty.readFrom d.rules (TokenStream.ofSource d source).ending
        (TokenStream.ofSource d source).significant :=
  TokenStream.readProgram_ofSource d.rules d source

namespace Unfinished

/-- Reading succeeds if the stream ends with the end of the input and its tokens lead back to
the top level. -/
theorem readFrom_eq_ok_iff {rules : Rules} {ending : StreamEnd} {u : Unfinished}
    {ts : List (Positioned Token)} {p : Program} :
    u.readFrom rules ending ts = .ok p ↔
      (∃ position, ending = .endOfInput position) ∧
        u.advanceAll rules (ts.map (·.value)) = .ok (topLevel p.expressions.reverse) := by
  induction ts generalizing u with
  | nil =>
    obtain ⟨es⟩ := p
    cases ending with
    | failure error => cases u <;> simp [readFrom, conclude]
    | endOfInput position =>
      cases u <;> simp [readFrom, conclude, List.reverse_eq_iff]
  | cons t ts ih =>
    simp only [readFrom, List.map_cons, advanceAll]
    split
    · simp
    · exact ih

/-- How reading ends: with a program where the input ends, with the lexical error that ends the
stream, or at a token that is refused. -/
theorem readFrom_cases (rules : Rules) (ending : StreamEnd) (u : Unfinished)
    (ts : List (Positioned Token)) :
    (∃ position p, ending = .endOfInput position ∧ u.readFrom rules ending ts = .ok p) ∨
      (∃ error, ending = .failure error ∧
        u.readFrom rules ending ts = .error (error.map .lexical)) ∨
      ∃ t ∈ ts ++ ending.tokens, ∃ error,
        u.readFrom rules ending ts = .error ⟨.grammatical error, t.position⟩ := by
  induction ts generalizing u with
  | nil =>
    cases ending with
    | failure error =>
      refine .inr (.inl ⟨error, rfl, ?_⟩)
      cases u <;> rfl
    | endOfInput position =>
      cases u with
      | topLevel doneRev => exact .inl ⟨position, _, rfl, rfl⟩
      | within innermost around doneRev =>
        exact .inr (.inr ⟨⟨.plain .eof, position⟩, List.mem_singleton_self _, _, rfl⟩)
  | cons t ts ih =>
    rw [readFrom]
    cases u.advance rules t.value with
    | error error => exact .inr (.inr ⟨t, List.mem_cons_self, error, rfl⟩)
    | ok v =>
      rcases ih v with hread | hlexical | ⟨s, hs, error, hrefused⟩
      · exact .inl hread
      · exact .inr (.inl hlexical)
      · exact .inr (.inr ⟨s, List.mem_cons_of_mem _ hs, error, hrefused⟩)

end Unfinished
end SmallLisp
