import SmallLisp.Proofs.EarliestError
import SmallLisp.Proofs.LineBreaks

/-!
# Reading one text behind another

Put one text behind another, each on lines of its own, and what is read is what is read from the
one and then what is read from the other.  Three things make this so.

A scanner keeps nothing but its place.  Behind the line break in between it has the tokens of the
second text, with the places translated (`Scanner.stream_before_translate`).  The line break is a
newline, and if the first text ends in a carriage return the two become one lexeme, which is the
end of one line all the same (`Spells.append_newline`).

A reader that is back at the top level keeps nothing but the finished expressions, and never looks
at them again (`Unfinished.advance_behind`).

No position is looked at in reading, so that translating the tokens translates the error
(`Unfinished.readFrom_mapPosition`).

The first text has to be read to its end.  Where an unknown character is the end of the input, what
stands behind it is not read, so for the first text it has to be an error.
-/

namespace SmallLisp

/-! ## The same tokens elsewhere -/

/-- Puts a thing somewhere else. -/
def Positioned.mapPosition {α : Type} (f : Position → Position) (x : Positioned α) :
    Positioned α :=
  ⟨x.value, f x.position⟩

@[simp] theorem Positioned.value_mapPosition {α : Type} (f : Position → Position)
    (x : Positioned α) : (x.mapPosition f).value = x.value := rfl

/-- Puts the end of a stream somewhere else. -/
def StreamEnd.mapPosition (f : Position → Position) : StreamEnd → StreamEnd
  | .endOfInput position => .endOfInput (f position)
  | .failure error => .failure (error.mapPosition f)

/-- Puts the tokens of a stream and its end somewhere else. -/
def TokenStream.mapPosition (f : Position → Position) (stream : TokenStream) : TokenStream :=
  ⟨stream.tokens.map (·.mapPosition f), stream.ending.mapPosition f⟩

theorem TokenStream.significant_mapPosition (f : Position → Position) (stream : TokenStream) :
    (stream.mapPosition f).significant = stream.significant.map (·.mapPosition f) := by
  rw [significant, significant, mapPosition, List.filter_map]
  rfl

/-- A scanner does not look at its place: a text that begins elsewhere has the same tokens, at
the places translated. -/
theorem Scanner.stream_before_translate (d : Dialect) (o : Position) (text : List Char)
    (p : Position) :
    (before text (o.translate p)).stream d =
      ((before text p).stream d).mapPosition o.translate := by
  -- Along the recursion of the scanner, which never compares a place with anything.
  induction text, p using text_induction with
  | nil p =>
    rw [stream_before_nil, stream_before_nil]
    rfl
  | blank c rest p hc ih =>
    rw [stream_before_blank hc, stream_before_blank hc, Position.translate_after, ih]
  | lexeme lexeme rest p hlexeme ih =>
    cases ht : Token.ofLexeme lexeme with
    | error error =>
      rw [stream_before_bad_lexeme hlexeme ht, stream_before_bad_lexeme hlexeme ht]
      rfl
    | ok t =>
      rw [stream_before_lexeme hlexeme ht, stream_before_lexeme hlexeme ht,
        Position.translate_afterLexeme, ih]
      rfl
  | unknown c rest p hblank hsplit =>
    rw [stream_before_unknown hblank hsplit, stream_before_unknown hblank hsplit]
    cases d.endsAtUnknown <;> rfl

/-! ## A text that is scanned to its end -/

/-- Where an unknown character is an error, the end of the input is the end of the text. -/
theorem Scanner.spells_of_ending_eq {d : Dialect} (hends : d.endsAtUnknown = false)
    {text : List Char} {p q : Position}
    (h : ((before text p).stream d).ending = .endOfInput q) :
    Spells p text [] ((before text p).stream d).tokens q := by
  induction text, p using text_induction with
  | nil p =>
    rw [stream_before_nil] at h ⊢
    cases h
    exact .nil _ []
  | blank c rest p hc ih =>
    rw [stream_before_blank hc] at h ⊢
    exact .blank hc (ih h)
  | lexeme lexeme rest p hlexeme ih =>
    cases ht : Token.ofLexeme lexeme with
    | error error =>
      rw [stream_before_bad_lexeme hlexeme ht] at h
      cases h
    | ok t =>
      rw [stream_before_lexeme hlexeme ht] at h ⊢
      refine .lexeme ?_ ht (ih h)
      rwa [List.append_nil]
  | unknown c rest p hblank hsplit =>
    rw [stream_before_unknown hblank hsplit, hends] at h
    cases h

/-- A lexeme may stand in front of a newline, unless the newline would be part of it. -/
theorem Lexeme.before_newline {lexeme rest : List Char} (h : Lexeme lexeme rest)
    (hreturn : lexeme ≠ ['\r']) (rest' : List Char) : Lexeme lexeme ('\n' :: rest') :=
  h.of_endsRun (fun heq => absurd heq hreturn) (.cons (by decide +kernel) _) (.cons (by decide) _)

namespace Spells

variable {p q : Position} {front rest : List Char} {ts : List (Positioned Token)}

theorem eq_nil_of_front_eq_nil (h : Spells p front rest ts q) (hfront : front = []) : ts = [] := by
  cases h with
  | nil => rfl
  | blank => cases hfront
  | lexeme hlexeme => exact absurd (List.append_eq_nil_iff.1 hfront).1 hlexeme.ne_nil

/-- Behind a newline anything can stand.  The newline is the end of a line by itself, or it
belongs to the end of a line that is there already. -/
theorem append_newline (h : Spells p front rest ts q) (behind : List Char) :
    ∃ us r, Spells p (front ++ ['\n']) behind us r ∧
      (us.filter fun t => t.value.kind != .endLine) =
        ts.filter fun t => t.value.kind != .endLine := by
  induction h with
  | nil p rest =>
    have hnewline : Spells p (['\n'] ++ []) behind [⟨.plain .endLine, p⟩] p.nextLine :=
      .lexeme (.newline _) rfl (.nil _ behind)
    exact ⟨_, _, hnewline, rfl⟩
  | blank hc _ ih =>
    obtain ⟨us, r, hspells, hus⟩ := ih
    exact ⟨us, r, .blank hc hspells, hus⟩
  | @lexeme p q lexeme front rest t ts hlexeme ht h ih =>
    -- Only a carriage return at the very end of the first text can take up the newline.
    by_cases hreturn : lexeme = ['\r'] ∧ front = []
    · obtain ⟨rfl, rfl⟩ := hreturn
      obtain rfl := h.eq_nil_of_front_eq_nil rfl
      cases ht
      have hboth : Spells p (['\r', '\n'] ++ []) behind [⟨.plain .endLine, p⟩] p.nextLine :=
        .lexeme (.returnNewline _) rfl (.nil _ behind)
      exact ⟨_, _, hboth, rfl⟩
    · have hnewline : Lexeme lexeme ((front ++ ['\n']) ++ behind) := by
        obtain _ | ⟨c, front⟩ := front
        · exact hlexeme.before_newline (fun heq => hreturn ⟨heq, rfl⟩) behind
        · exact hlexeme.of_head?_eq rfl
      obtain ⟨us, r, hspells, hus⟩ := ih
      refine ⟨⟨t, p⟩ :: us, r, ?_, ?_⟩
      · rw [List.append_assoc]
        exact .lexeme hnewline ht hspells
      · rw [List.filter_cons, List.filter_cons, hus]

end Spells

namespace Unfinished

/-! ## Finished expressions are not looked at again -/

/-- What has been read, behind other expressions that were finished before, last first. -/
def behind (frontRev : List Expr) : Unfinished → Unfinished
  | topLevel doneRev => topLevel (doneRev ++ frontRev)
  | within innermost around doneRev => within innermost around (doneRev ++ frontRev)

variable (rules : Rules) (frontRev : List Expr)

theorem finish_behind (readsForms : Bool) (doneRev : List Expr) (around : List Waiting) (e : Expr) :
    finish readsForms (doneRev ++ frontRev) around e =
      (finish readsForms doneRev around e).behind frontRev := by
  induction around generalizing e with
  | nil => rfl
  | cons w around ih =>
    rw [finish, finish]
    cases w.take readsForms e with
    | inl finished => exact ih finished
    | inr innermost => rfl

theorem start_behind (doneRev : List Expr) (around : List Waiting) (t : Token) :
    start rules (doneRev ++ frontRev) around t =
      (start rules doneRev around t).map (·.behind frontRev) := by
  unfold start
  simp only [finish_behind]
  split
  · split <;> rfl
  · split <;> rfl
  · cases t.atom? <;> rfl

/-- The same move is made, whatever was finished before. -/
theorem move_behind (u : Unfinished) (t : Token) :
    (u.behind frontRev).move rules t =
      (u.move rules t).map fun result => (result.1, result.2.behind frontRev) := by
  -- Every move begins an expression, or finishes one, or stays inside; only the first two touch
  -- what is finished at the top level.
  have hstarted : ∀ doneRev around,
      ((start rules (doneRev ++ frontRev) around t).map fun u => (t.kind, u)) =
        ((start rules doneRev around t).map fun u => (t.kind, u)).map
          fun result => (result.1, result.2.behind frontRev) := by
    intro doneRev around
    rw [start_behind]
    cases start rules doneRev around t <;> rfl
  cases u with
  | topLevel doneRev => exact hstarted doneRev []
  | within innermost around doneRev =>
    cases innermost with
    | expecting w =>
      have hother := hstarted doneRev (w :: around)
      cases w with
      | head =>
        simp only [behind, move, finish_behind]
        split
        · rfl
        · split
          · rfl
          · exact hother
      | condNo test yes =>
        simp only [behind, move, finish_behind]
        split
        · rfl
        · exact hother
      | items sequence itemsRev =>
        simp only [behind, move, finish_behind]
        split
        · rfl
        · exact hother
      | _ => exact hother
    | setqName =>
      simp only [behind, move]
      cases t.name? <;> rfl
    | funcName =>
      simp only [behind, move]
      cases t.name? <;> rfl
    | parametersOpen form => rfl
    | parameters form namesRev =>
      simp only [behind, move]
      split
      · rfl
      · cases t.name? <;> rfl
    | closing e =>
      simp only [behind, move, finish_behind]
      rfl

/-- A token is taken in the same way, whatever was finished before. -/
theorem advance_behind (u : Unfinished) (t : Token) :
    (u.behind frontRev).advance rules t = (u.advance rules t).map (·.behind frontRev) := by
  rw [advance, advance, move_behind]
  cases u.move rules t with
  | error error => rfl
  | ok result =>
    simp only [Except.map]
    split <;> rfl

/-- Reading goes on from finished expressions as if nothing had been read, and they come first
in the program. -/
theorem readFrom_behind (ending : StreamEnd) (u : Unfinished) (ts : List (Positioned Token)) :
    (u.behind frontRev).readFrom rules ending ts =
      (u.readFrom rules ending ts).map fun p => ⟨frontRev.reverse ++ p.expressions⟩ := by
  induction ts generalizing u with
  | nil =>
    cases ending with
    | failure error => cases u <;> rfl
    | endOfInput position =>
      cases u with
      | topLevel doneRev =>
        simp only [behind, readFrom, conclude, Except.map, List.reverse_append]
      | within innermost around doneRev => rfl
  | cons t ts ih =>
    rw [readFrom, readFrom, advance_behind]
    cases u.advance rules t.value with
    | error error => rfl
    | ok v => exact ih v

/-! ## Positions are not looked at -/

/-- Tokens that stand elsewhere are read in the same way, and an error stands where its token
does. -/
theorem readFrom_mapPosition (f : Position → Position) (ending : StreamEnd) (u : Unfinished)
    (ts : List (Positioned Token)) :
    u.readFrom rules (ending.mapPosition f) (ts.map (·.mapPosition f)) =
      (u.readFrom rules ending ts).mapError (·.mapPosition f) := by
  induction ts generalizing u with
  | nil => cases ending <;> cases u <;> rfl
  | cons t ts ih =>
    rw [List.map_cons, readFrom, readFrom, Positioned.value_mapPosition]
    cases u.advance rules t.value with
    | error error => rfl
    | ok v => exact ih v

end Unfinished

/-! ## One text behind the other -/

/-- The tokens of two texts, the second on lines of its own: those of the first, which is scanned
to its end, and those of the second, further down. -/
theorem TokenStream.ofSource_append_newline {d : Dialect} {source : String} {position : Position}
    (hends : (ofSource { d with endsAtUnknown := false } source).ending = .endOfInput position)
    (source' : String) :
    (ofSource d (source ++ "\n" ++ source')).significant =
        (ofSource { d with endsAtUnknown := false } source).significant ++
          ((ofSource d source').mapPosition
            (Position.translate ⟨lineBreaks (source ++ "\n").toList, 0⟩)).significant ∧
      (ofSource d (source ++ "\n" ++ source')).ending =
        (ofSource d source').ending.mapPosition
          (Position.translate ⟨lineBreaks (source ++ "\n").toList, 0⟩) := by
  have hspells := Scanner.spells_of_ending_eq rfl hends
  obtain ⟨us, r, hspells', hus⟩ := hspells.append_newline source'.toList
  have hplace : r = ⟨lineBreaks (source ++ "\n").toList, 0⟩ := by
    rw [hspells'.position_eq, Position.start_translate, Position.ofText, lastLine_append_newline,
      String.toList_append]
    rfl
  have htext : (source ++ "\n" ++ source').toList =
      (source.toList ++ ['\n']) ++ source'.toList := by
    rw [String.toList_append, String.toList_append]
    rfl
  have hstream : ofSource d (source ++ "\n" ++ source') =
      ⟨us ++ ((ofSource d source').mapPosition r.translate).tokens,
        ((ofSource d source').mapPosition r.translate).ending⟩ := by
    have hbefore : Scanner.ofSource (source ++ "\n" ++ source') =
        Scanner.before ((source.toList ++ ['\n']) ++ source'.toList) .start := by
      rw [← htext]
      rfl
    have hrest := Scanner.stream_before_translate d r source'.toList .start
    rw [Position.translate_start] at hrest
    rw [ofSource, hbefore, hspells'.stream_eq, hrest]
    rfl
  rw [← hplace, hstream]
  refine ⟨?_, rfl⟩
  rw [significant, List.filter_append, hus]
  rfl

/-- **Reading is additive.**  If a text is read to its end, then a text that stands behind it, on
lines of its own, is read as it is by itself: its expressions come behind those of the first text,
and its error, if it has one, is the same error, further down by the line breaks in front of
it. -/
theorem readProgram_append_newline {d : Dialect} {source : String} {p : Program}
    (h : readProgram { d with endsAtUnknown := false } source = .ok p) (source' : String) :
    readProgram d (source ++ "\n" ++ source') =
      match readProgram d source' with
      | .ok q => .ok ⟨p.expressions ++ q.expressions⟩
      | .error error =>
        .error ⟨error.value,
          ⟨error.position.line + lineBreaks (source ++ "\n").toList, error.position.column⟩⟩ := by
  rw [readProgram_eq_readFrom, Unfinished.readFrom_eq_ok_iff] at h
  obtain ⟨⟨position, hends⟩, htokens⟩ := h
  obtain ⟨hsignificant, hending⟩ := TokenStream.ofSource_append_newline hends source'
  -- What an unknown character means is for the scanner to say; the rules of the reader are the
  -- same.
  have hfront : Unfinished.empty.advanceAll d.rules
      ((TokenStream.ofSource { d with endsAtUnknown := false } source).significant.map (·.value)) =
        .ok (Unfinished.empty.behind p.expressions.reverse) := htokens
  rw [readProgram_eq_readFrom, hsignificant, hending, Unfinished.readFrom_append_of_ok hfront,
    Unfinished.readFrom_behind, TokenStream.significant_mapPosition,
    Unfinished.readFrom_mapPosition, ← readProgram_eq_readFrom]
  cases readProgram d source' with
  | ok q => simp only [Except.mapError, Except.map, List.reverse_reverse]
  | error error =>
    simp only [Except.mapError, Except.map, Positioned.mapPosition,
      Position.translate_of_column_eq_zero, Nat.add_comm]

/-- The two line breaks in between are one, because the first text ends in a carriage return. -/
theorem readProgram_append_newline_of_return :
    readProgram .strict "x 'y\r" = .ok ⟨[.identifier "x", .quote (.identifier "y")]⟩ ∧
      readProgram .standard ("x 'y\r" ++ "\n" ++ "z\n )") =
        .error ⟨.grammatical (.unexpectedToken .closing), ⟨2, 1⟩⟩ := by
  have hstream : TokenStream.ofSource .strict "x 'y\r" =
      ⟨[⟨.identifier "x", ⟨0, 0⟩⟩, ⟨.plain (.keyword .quote), ⟨0, 2⟩⟩, ⟨.identifier "y", ⟨0, 3⟩⟩,
        ⟨.plain .endLine, ⟨0, 4⟩⟩], .endOfInput ⟨1, 0⟩⟩ := by decide +kernel
  have hother : TokenStream.ofSource .standard "z\n )" =
      ⟨[⟨.identifier "z", ⟨0, 0⟩⟩, ⟨.plain .endLine, ⟨0, 1⟩⟩, ⟨.closing, ⟨1, 1⟩⟩],
        .endOfInput ⟨1, 2⟩⟩ := by decide +kernel
  have hread : readProgram .strict "x 'y\r" =
      .ok ⟨[.identifier "x", .quote (.identifier "y")]⟩ := by
    rw [readProgram_eq_readFrom, hstream]
    rfl
  have herror : readProgram .standard "z\n )" =
      .error ⟨.grammatical (.unexpectedToken .closing), ⟨1, 1⟩⟩ := by
    rw [readProgram_eq_readFrom, hother]
    rfl
  have happend := readProgram_append_newline (d := .standard) hread "z\n )"
  rw [herror] at happend
  exact ⟨hread, happend⟩

end SmallLisp
