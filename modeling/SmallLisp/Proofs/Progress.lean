import SmallLisp.Proofs.Lookahead
import SmallLisp.Proofs.NodeCount
import SmallLisp.Proofs.Resumption

/-!
# Scanning and reading come to an end

An unknown character is never passed over, and the end of the input is never used up, so a scanner
can be asked for ever and get nowhere.  What gets on is told from the answers: a token other than
the end of the input has used up text, and so has a bad number (`Scanner.Result.UsesText`).

A reader gets on by one token a step, and the ends of lines do not count (`Reader.unread`).  This is
what bounds everything that is repeated.  An expression takes one step at least, so the loops that
read one expression or one name after the other, as long as they go on, have not gone round more
often than there were steps: what they have collected is kept in `Unfinished`, and a step adds one
thing at most (`Unfinished.Step.collected_le`).
-/

namespace SmallLisp

/-! ## Requests -/

namespace Scanner

variable {d : Dialect} {s s' : Scanner} {answer : Result}

/-- An answer for which text is used up: a token other than the end of the input, or a number
with several points, which is passed over as a whole. -/
def Result.UsesText : Result → Prop
  | .ok t => t.value.kind ≠ .eof
  | .error error => ∃ lexeme, error.value = .severalPoints lexeme

/-- Whether a listing shows an answer. -/
def Result.isShown (showsLineEnds : Bool) : Result → Bool
  | .ok t => showsLineEnds || t.value.kind != .endLine
  | .error _ => true

theorem Request.exists_front {p : Position} {text : List Char} (h : Request d p text answer s')
    (hanswer : answer.UsesText) : ∃ front, front ≠ [] ∧ text = front ++ s'.rest := by
  cases h with
  | token hlexeme ht => exact ⟨_, hlexeme.ne_nil, rfl⟩
  | badLexeme hlexeme herror => exact ⟨_, hlexeme.ne_nil, rfl⟩
  | ending => exact absurd rfl hanswer
  | unknown =>
    obtain ⟨lexeme, hlexeme⟩ := hanswer
    cases hlexeme

/-- A request uses up text if it is answered in one of these ways. -/
theorem exists_front_of_usesText (h : (s.next d).1.UsesText) :
    ∃ front, front ≠ [] ∧ s.rest = front ++ (s.next d).2.rest := by
  cases hs : s.ended with
  | true =>
    rw [next_of_ended hs] at h
    exact absurd rfl h
  | false =>
    obtain ⟨blanks, rest, q, hrest, -, hrequest⟩ := exists_request (d := d) hs
    obtain ⟨front, hfront, htext⟩ := hrequest.exists_front h
    exact ⟨blanks ++ front, by simp [hfront], by rw [hrest, htext, List.append_assoc]⟩

/-- Several such requests in a row use up as many characters at least. -/
theorem add_length_le_of_usesText {k : Nat} (h : ∀ answer ∈ answers d k s, answer.UsesText) :
    k + (afterRequests d k s).rest.length ≤ s.rest.length := by
  induction k generalizing s with
  | zero => exact Nat.le_of_eq (Nat.zero_add _)
  | succ k ih =>
    rw [answers, List.forall_mem_cons] at h
    obtain ⟨front, hfront, hrest⟩ := exists_front_of_usesText h.1
    have hlength := congrArg List.length hrest
    have hpos := List.length_pos_iff.2 hfront
    have hle : k + (afterRequests d (k + 1) s).rest.length ≤ (s.next d).2.rest.length := ih h.2
    rw [List.length_append] at hlength
    omega

/-- A text has no more tokens than characters. -/
theorem length_stream_le (d : Dialect) (s : Scanner) :
    (s.stream d).tokens.length ≤ s.rest.length := by
  fun_induction Scanner.stream d s with
  | case1 s error s' h => exact Nat.zero_le _
  | case2 s t s' h hkind => exact Nat.zero_le _
  | case3 s t s' h hkind later ih =>
    have hlt := length_next_lt h hkind
    have hlater : later.tokens.length ≤ s'.rest.length := ih
    rw [List.length_cons]
    omega

/-- Requests get on in a text. -/
structure GetsOn (d : Dialect) (source : String) : Prop where
  /-- A request that is answered with a token, or with a bad number, uses up text. -/
  exists_front : ∀ k, ((afterRequests d k (ofSource source)).next d).1.UsesText →
    ∃ front, front ≠ [] ∧ (afterRequests d k (ofSource source)).rest =
      front ++ (afterRequests d (k + 1) (ofSource source)).rest
  /-- So there are no more of them in a row than there are characters left, for instance of those
  that are answered with the end of a line. -/
  le_length : ∀ j k,
    (∀ answer ∈ answers d k (afterRequests d j (ofSource source)), answer.UsesText) →
    k ≤ (afterRequests d j (ofSource source)).rest.length

theorem getsOn (d : Dialect) (source : String) : GetsOn d source where
  exists_front k h := by
    rw [afterRequests_succ]
    exact exists_front_of_usesText h
  le_length j k h := by
    have hle := add_length_le_of_usesText h
    omega

end Scanner

/-! ## Listings -/

namespace TokenStream

/-- A listing that leaves out the ends of lines has the other answers, in order. -/
theorem listing_eq_filter (showsLineEnds : Bool) (stream : TokenStream) :
    stream.listing showsLineEnds =
      (stream.listing true).filter (Scanner.Result.isShown showsLineEnds) := by
  have hlast : stream.ending.answer.isShown showsLineEnds = true := by
    cases stream.ending <;> simp [StreamEnd.answer, Scanner.Result.isShown, Token.plain]
  rw [listing_eq, listing_eq, List.filter_append, List.filter_map, List.filter_singleton, hlast]
  simp only [shown, Bool.true_or, List.filter_true]
  rfl

/-- A listing of a text comes to an end. -/
structure ListingEnds (d : Dialect) (source : String) (showsLineEnds : Bool) : Prop where
  /-- It is finished after one request more than the text has characters, or earlier. -/
  exists_requests : ∃ k ≤ source.length + 1, (ofSource d source).listing showsLineEnds =
    (Scanner.answers d k (Scanner.ofSource source)).filter (Scanner.Result.isShown showsLineEnds)
  length_le : ((ofSource d source).listing showsLineEnds).length ≤ source.length + 1
  /-- The end of the input or an error is its last item, and only that. -/
  exists_last : ∃ (ts : List (Positioned Token)) (last : Scanner.Result),
    (ofSource d source).listing showsLineEnds = ts.map .ok ++ [last] ∧
      (∀ t ∈ ts, t.value.kind ≠ .eof) ∧ (last.IsEnd ∨ ∃ error, last = .error error)

theorem listingEnds (d : Dialect) (source : String) (showsLineEnds : Bool) :
    ListingEnds d source showsLineEnds where
  exists_requests := by
    have hlength : (ofSource d source).tokens.length ≤ source.length :=
      Scanner.length_stream_le d (Scanner.ofSource source)
    have hanswers := Scanner.answers_eq_listing d (Scanner.ofSource source)
    exact ⟨_, Nat.succ_le_succ hlength, hanswers ▸ listing_eq_filter showsLineEnds _⟩
  length_le := by
    have hlength : (ofSource d source).tokens.length ≤ source.length :=
      Scanner.length_stream_le d (Scanner.ofSource source)
    have hshown : ((ofSource d source).shown showsLineEnds).length ≤
        (ofSource d source).tokens.length := List.length_filter_le _ _
    rw [listing_eq, List.length_append, List.length_map, List.length_singleton]
    omega
  exists_last := by
    refine ⟨_, _, listing_eq showsLineEnds _, ?_, ?_⟩
    · exact fun t ht => Scanner.kind_ne_eof_of_mem_stream (List.mem_of_mem_filter ht)
    · cases (ofSource d source).ending with
      | endOfInput position => exact .inl ⟨position, rfl⟩
      | failure error => exact .inr ⟨error, rfl⟩

end TokenStream

/-! ## What is collected -/

/-- The expressions that something waiting has collected. -/
def Waiting.collected : Waiting → Nat
  | .items _ itemsRev => itemsRev.length
  | _ => 0

/-- The expressions that everything waiting has collected. -/
def Waiting.collectedAll : List Waiting → Nat
  | [] => 0
  | w :: around => w.collected + collectedAll around

/-- The expressions or names that the innermost thing begun has collected. -/
def Innermost.collected : Innermost → Nat
  | .expecting w => w.collected
  | .parameters _ namesRev => namesRev.length
  | _ => 0

/-- A head is the first expression that a plain list collects. -/
theorem Innermost.collected_ofHead_le (readsForms : Bool) (e : Expr) :
    (ofHead readsForms e).collected ≤ 1 := by
  unfold ofHead
  repeat' split
  all_goals simp [collected, Waiting.collected]

/-- What waits for an expression and gets one has collected one more at most. -/
theorem Waiting.collected_le_of_take {readsForms : Bool} {w : Waiting} {e : Expr}
    {innermost : Innermost} (h : w.take readsForms e = .inr innermost) :
    innermost.collected ≤ w.collected + 1 := by
  cases w with
  | tick => cases h
  | head =>
    cases h
    exact Innermost.collected_ofHead_le readsForms e
  | items sequence itemsRev =>
    cases h
    exact Nat.le_refl _
  | _ =>
    cases h
    exact Nat.zero_le _

namespace Unfinished

variable {rules : Rules} {u v : Unfinished} {t : Token}

/-- How much has been collected in all that is begun, and at the top level. -/
def collected : Unfinished → Nat
  | topLevel doneRev => doneRev.length
  | within innermost around doneRev =>
    innermost.collected + Waiting.collectedAll around + doneRev.length

theorem collected_awaiting (doneRev : List Expr) (around : List Waiting) :
    (awaiting doneRev around).collected =
      Waiting.collectedAll around + doneRev.length := by
  cases around with
  | nil => exact (Nat.zero_add _).symm
  | cons w around => rfl

/-- A finished expression is collected once.  A tick collects nothing and is finished with it, so
the induction is on what is around. -/
theorem collected_finish_le (readsForms : Bool) (doneRev : List Expr) (around : List Waiting)
    (e : Expr) :
    (finish readsForms doneRev around e).collected ≤
      Waiting.collectedAll around + doneRev.length + 1 := by
  induction around generalizing e with
  | nil => simp [finish, collected]
  | cons w around ih =>
    rw [Waiting.collectedAll]
    cases htake : w.take readsForms e with
    | inl finished =>
      have hle := ih finished
      simp only [finish, htake]
      omega
    | inr innermost =>
      have hle := Waiting.collected_le_of_take htake
      simp only [finish, htake, collected]
      omega

/-- A token adds one thing at most to what has been collected. -/
theorem Step.collected_le (h : Step rules u t v) : v.collected ≤ u.collected + 1 := by
  -- An atom, a name and a closing parenthesis may add one; the other moves only change what is
  -- awaited.
  cases h with
  | opening doneRev hroom =>
    simp only [collected_awaiting, Waiting.collectedAll, Waiting.collected]
    omega
  | quotation doneRev hq hfits hroom =>
    simp only [collected_awaiting, Waiting.collectedAll, Waiting.collected]
    omega
  | atom doneRev hatom hfits =>
    rw [collected_awaiting]
    exact collected_finish_le _ _ _ _
  | closes doneRev around hcloses =>
    have hle := collected_finish_le rules.readsForms doneRev around
    refine (hle _).trans ?_
    simp only [collected]
    omega
  | parametersClose form namesRev doneRev around =>
    cases form <;> simp [collected, Parametric.afterParameters, Innermost.collected,
      Waiting.collected] <;> omega
  | parameter form namesRev doneRev around hname =>
    simp only [collected, Innermost.collected, List.length_cons]
    omega
  | _ => simp [collected, awaiting, Innermost.collected, Waiting.collected]

/-- A loop has gone round `n` times and goes on: so many more expressions at the top level or in
a list, or so many more names of parameters. -/
inductive GoesRound : Nat → Unfinished → Unfinished → Prop
  | topLevel (doneRev es : List Expr) :
      GoesRound es.length (.topLevel doneRev) (.topLevel (es ++ doneRev))
  | items (sequence : OpenEnded) (itemsRev es : List Expr) (around : List Waiting)
      (doneRev : List Expr) :
      GoesRound es.length (awaiting doneRev (.items sequence itemsRev :: around))
        (awaiting doneRev (.items sequence (es ++ itemsRev) :: around))
  | parameters (form : Parametric) (namesRev names : List String) (around : List Waiting)
      (doneRev : List Expr) :
      GoesRound names.length (within (.parameters form namesRev) around doneRev)
        (within (.parameters form (names ++ namesRev)) around doneRev)

/-- What a loop goes round for is collected. -/
theorem GoesRound.collected_eq {n : Nat} (h : GoesRound n u v) :
    v.collected = u.collected + n := by
  cases h with
  | topLevel doneRev es =>
    simp only [collected, List.length_append]
    omega
  | items sequence itemsRev es around doneRev =>
    simp only [collected_awaiting, Waiting.collectedAll, Waiting.collected,
      List.length_append]
    omega
  | parameters form namesRev names around doneRev =>
    simp only [collected, Innermost.collected, List.length_append]
    omega

/-- A list or quotation begun waits for something else, once it gets what it waits for. -/
theorem ne_expecting_of_take {readsForms : Bool} {w : Waiting} {e : Expr} {innermost : Innermost}
    (h : w.take readsForms e = .inr innermost) : innermost ≠ .expecting w := by
  cases w with
  | tick => cases h
  | head =>
    cases h
    unfold Innermost.ofHead
    repeat' split
    all_goals simp
  | _ =>
    cases h
    simp

theorem depth_finish_le (readsForms : Bool) (doneRev : List Expr) (around : List Waiting)
    (e : Expr) : (finish readsForms doneRev around e).depth ≤ around.length := by
  induction around generalizing e with
  | nil => exact Nat.le_refl 0
  | cons w around ih =>
    cases htake : w.take readsForms e with
    | inl finished =>
      simp only [finish, htake]
      exact (ih finished).trans (Nat.le_succ _)
    | inr innermost =>
      simp only [finish, htake]
      exact Nat.le_refl _

/-- The place where an expression starts is not the place behind it. -/
theorem finish_ne_awaiting (readsForms : Bool) (doneRev : List Expr) (around : List Waiting)
    (e : Expr) : finish readsForms doneRev around e ≠ awaiting doneRev around := by
  intro heq
  cases around with
  | nil => simp [finish, awaiting] at heq
  | cons w around =>
    cases htake : w.take readsForms e with
    | inl finished =>
      -- A finished quotation leads out of the place, and what is less deep is not the same place.
      have hdepth := depth_finish_le readsForms doneRev around finished
      simp only [finish, htake] at heq
      rw [heq] at hdepth
      exact absurd hdepth (Nat.not_succ_le_self _)
    | inr innermost =>
      simp only [finish, htake, awaiting, within.injEq] at heq
      exact ne_expecting_of_take htake heq.1

end Unfinished

/-! ## Steps -/

/-- Whether a token can be used up: it is neither the end of a line nor the end of the input. -/
def Token.matters (t : Token) : Bool := t.kind != .endLine && t.kind != .eof

theorem TokenStream.filter_matters_withEnd {stream : TokenStream}
    (hstream : ∀ t ∈ stream.tokens, t.value.Scanned) :
    stream.withEnd.filter (fun t => t.value.matters) = stream.significant := by
  have hlast : stream.ending.tokens.filter (fun t => t.value.matters) = [] := by
    cases stream.ending <;> rfl
  rw [withEnd, List.filter_append, hlast, List.append_nil, significant]
  refine List.filter_congr fun t ht => ?_
  simp [Token.matters, (hstream t ht).kind_ne_eof]

namespace Reader

variable {rules : Rules} {stream : TokenStream} {front : List (Positioned Token)} {p q : Reader}

/-- The reader after `k` steps, if none of them fails. -/
def afterSteps (rules : Rules) : Nat → Reader → Except (Positioned SourceError) Reader
  | 0, p => .ok p
  | k + 1, p =>
    match p.step rules with
    | .error error => .error error
    | .ok q => q.afterSteps rules k

/-- The tokens that a reader has not used up, without ends of lines and the end of the input. -/
def unread (p : Reader) : List (Positioned Token) :=
  (p.current :: p.behind).filter fun t => t.value.matters

/-- **How reading ends** where a reader has come to: with the program that has been read, or because
no step is possible. -/
def Ends (rules : Rules) (p : Reader) (result : Except (Positioned SourceError) Program) : Prop :=
  (∃ program, p.program? = some program ∧ result = .ok program) ∨
    p.program? = none ∧ ∃ error, p.step rules = .error error ∧ result = .error error

theorem filter_matters_lineEnds {lineEnds : List (Positioned Token)}
    (h : ∀ t ∈ lineEnds, t.value.kind = .endLine) :
    lineEnds.filter (fun t => t.value.matters) = [] :=
  List.filter_eq_nil_iff.2 fun t ht => by simp [Token.matters, h t ht]

/-- What a new reader has not used up is all that matters of its stream. -/
theorem unread_of_start (hstream : ∀ t ∈ stream.tokens, t.value.Scanned)
    (h : Reader.start stream = .ok p) : p.unread = stream.significant := by
  have hkind : ∀ t ∈ stream.tokens, t.value.kind ≠ .eof :=
    fun t ht => (hstream t ht).kind_ne_eof
  obtain ⟨lineEnds, hlines, hp⟩ := exists_standsIn_of_start hkind h
  rw [← TokenStream.filter_matters_withEnd hstream, hp.withEnd_eq, List.filter_append,
    filter_matters_lineEnds hlines]
  rfl

/-- A step uses up the current token, which is one that matters, for what the grammar makes of
it. -/
theorem StandsIn.of_step (hp : p.StandsIn stream front) (h : p.step rules = .ok q) :
    p.current.value.kind ≠ .eof ∧ p.read.advance rules p.current.value = .ok q.read ∧
      p.unread = p.current :: q.unread := by
  obtain ⟨expected, read, hmove, hconsume⟩ := exists_move_of_step h
  obtain ⟨hkind, hexpected, lineEnds, hlines, hbehind, -⟩ := hp.of_move hmove hconsume
  have heof : p.current.value.kind ≠ .eof := hkind.trans_ne hexpected
  have hread : q.read = read := read_of_consume hconsume
  have hcurrent : p.current.value.matters = true := by
    simp [Token.matters, hp.kind_ne_endLine, heof]
  refine ⟨heof, ?_, ?_⟩
  · rw [Unfinished.advance, hmove, hread]
    exact if_pos hkind
  · rw [unread, hbehind, List.filter_cons, if_pos hcurrent, List.filter_append,
      filter_matters_lineEnds hlines]
    rfl

/-- The token that a reader stands at comes out of a text, unless it is the end of the input. -/
theorem StandsIn.scanned (hp : p.StandsIn stream front)
    (hstream : ∀ t ∈ stream.tokens, t.value.Scanned) (heof : p.current.value.kind ≠ .eof) :
    p.current.value.Scanned := by
  have hmem : p.current ∈ stream.withEnd := by
    rw [hp.withEnd_eq]
    exact List.mem_append_right front List.mem_cons_self
  rcases List.mem_append.1 hmem with htoken | hend
  · exact hstream _ htoken
  · cases hending : stream.ending with
    | failure error => simp [hending, StreamEnd.tokens] at hend
    | endOfInput position =>
      rw [hending, StreamEnd.tokens, List.mem_singleton] at hend
      rw [hend] at heof
      exact absurd rfl heof

/-- What a run of steps uses up: one token a step.  It collects no more than that. -/
theorem Reached.uses {k : Nat} (hp : p.Reached rules stream)
    (hstream : ∀ t ∈ stream.tokens, t.value.Scanned) (h : p.afterSteps rules k = .ok q) :
    (∃ used : List (Positioned Token), used.length = k ∧ p.unread = used ++ q.unread) ∧
      q.read.collected ≤ p.read.collected + k := by
  induction k generalizing p with
  | zero =>
    cases h
    exact ⟨⟨[], rfl, rfl⟩, Nat.le_refl _⟩
  | succ k ih =>
    rw [Reader.afterSteps] at h
    split at h
    · cases h
    · next p' hstep =>
      -- The first step uses up the current token, and the induction is about the steps behind it.
      obtain ⟨⟨used, hlength, hunread⟩, hcollected⟩ := ih (hp.step hstep) h
      obtain ⟨front, hstands⟩ := hp.exists_standsIn fun t ht => (hstream t ht).kind_ne_eof
      obtain ⟨heof, hadvance, hfirst⟩ := hstands.of_step hstep
      have hscanned := hstands.scanned hstream heof
      have hle := (Unfinished.step_of_advance hscanned hadvance).collected_le
      refine ⟨⟨p.current :: used, by rw [List.length_cons, hlength], ?_⟩, by omega⟩
      rw [hfirst, hunread]
      rfl

/-- Every run has an end. -/
theorem exists_ends (rules : Rules) (p : Reader) :
    ∃ k q, p.afterSteps rules k = .ok q ∧ q.Ends rules (p.run rules) := by
  fun_induction Reader.run rules p with
  | case1 p program hprogram => exact ⟨0, p, rfl, .inl ⟨program, hprogram, rfl⟩⟩
  | case2 p hprogram error hstep => exact ⟨0, p, rfl, .inr ⟨hprogram, error, hstep, rfl⟩⟩
  | case3 p hprogram q hstep ih =>
    obtain ⟨k, q', hsteps, hends⟩ := ih
    exact ⟨k + 1, q', by rw [Reader.afterSteps, hstep]; exact hsteps, hends⟩

/-- Reading gets on in a stream. -/
structure GetsOn (rules : Rules) (stream : TokenStream) : Prop where
  /-- Ends of lines are passed over up to another token or to the end of the stream. -/
  exists_lineEnds : ∀ ending tokens, ∃ lineEnds rest,
    (∀ t ∈ lineEnds, t.value.kind = .endLine) ∧ tokens = lineEnds ++ rest ∧
      TokenStream.fetch ending tokens = TokenStream.fetch ending rest ∧
      (rest = [] ∨ ∃ t ahead, rest = t :: ahead ∧ t.value.kind ≠ .endLine ∧
        TokenStream.fetch ending rest = .ok (t, ahead))
  /-- A run of steps uses up one token a step, so it has no more steps than there are tokens
  left. -/
  exists_used : ∀ (p q : Reader) k, p.Reached rules stream → p.afterSteps rules k = .ok q →
    ∃ used : List (Positioned Token), used.length = k ∧ p.unread = used ++ q.unread
  /-- An expression that is read from its beginning to its end uses up a token at least. -/
  expression : ∀ (p q : Reader) k doneRev around e, p.Reached rules stream →
    p.read = .awaiting doneRev around → p.afterSteps rules k = .ok q →
    q.read = .finish rules.readsForms doneRev around e →
    ∃ used, used ≠ [] ∧ p.unread = used ++ q.unread
  /-- A loop goes round once a token at most. -/
  loops : ∀ (p q : Reader) k n, p.Reached rules stream → p.afterSteps rules k = .ok q →
    p.read.GoesRound n q.read → n ≤ k
  /-- From everywhere reading comes to an end, before it has run out of tokens. -/
  ends : ∀ p : Reader, p.Reached rules stream → ∃ k q, k ≤ p.unread.length ∧
    p.afterSteps rules k = .ok q ∧ q.Ends rules (p.run rules)

theorem getsOn (rules : Rules) {stream : TokenStream}
    (hstream : ∀ t ∈ stream.tokens, t.value.Scanned) : GetsOn rules stream where
  exists_lineEnds := exists_fetch_eq
  exists_used p q k hp h := (hp.uses hstream h).1
  expression p q k doneRev around e hp hstart h hfinish := by
    obtain ⟨⟨used, hlength, hunread⟩, -⟩ := hp.uses hstream h
    refine ⟨used, ?_, hunread⟩
    rintro rfl
    obtain rfl : 0 = k := hlength
    cases h
    exact Unfinished.finish_ne_awaiting _ _ _ _ (hfinish.symm.trans hstart)
  loops p q k n hp h hloop := by
    obtain ⟨-, hcollected⟩ := hp.uses hstream h
    rw [hloop.collected_eq] at hcollected
    omega
  ends p hp := by
    obtain ⟨k, q, hsteps, hends⟩ := exists_ends rules p
    obtain ⟨⟨used, hlength, hunread⟩, -⟩ := hp.uses hstream hsteps
    refine ⟨k, q, ?_, hsteps, hends⟩
    rw [hunread, List.length_append, hlength]
    exact Nat.le_add_right _ _

end Reader

/-- **Scanning and reading come to an end**, whatever the text.

* A request for a token uses up text, unless it is answered with the end of the input or with an
  unknown character.
* A listing has one item more than the text has characters at most.  The last one, and no other, is
  the end of the input or an error.
* A reader uses up a token a step, a token at least for an expression, and goes round no loop more
  often than that.
* So reading comes to its result before it has run out of tokens, and a program has no more
  expressions in it than the text has tokens. -/
theorem scanning_and_reading_end (settings : Settings) (source : String) :
    Scanner.GetsOn settings.dialect source ∧
      TokenStream.ListingEnds settings.dialect source settings.showsLineEnds ∧
      Reader.GetsOn settings.dialect.rules (TokenStream.ofSource settings.dialect source) ∧
      ((∃ error, Reader.start (TokenStream.ofSource settings.dialect source) = .error error ∧
          readProgram settings.dialect source = .error error) ∨
        ∃ p k q, Reader.start (TokenStream.ofSource settings.dialect source) = .ok p ∧
          k ≤ (TokenStream.ofSource settings.dialect source).significant.length ∧
          p.afterSteps settings.dialect.rules k = .ok q ∧
          q.Ends settings.dialect.rules (readProgram settings.dialect source)) ∧
      ∀ program, readProgram settings.dialect source = .ok program →
        program.nodes ≤ (TokenStream.ofSource settings.dialect source).significant.length := by
  have hstream : ∀ t ∈ (TokenStream.ofSource settings.dialect source).tokens, t.value.Scanned :=
    fun t ht => Scanner.scanned_of_mem_stream ht
  have hreader := Reader.getsOn settings.dialect.rules hstream
  refine ⟨Scanner.getsOn _ _, TokenStream.listingEnds _ _ _, hreader, ?_, ?_⟩
  · cases hstart : Reader.start (TokenStream.ofSource settings.dialect source) with
    | error error =>
      have hread : readProgram settings.dialect source = .error error := by
        rw [readProgram, Scanner.readProgram, TokenStream.readProgram]
        exact hstart ▸ rfl
      exact .inl ⟨error, rfl, hread⟩
    | ok p =>
      have hread : readProgram settings.dialect source = p.run settings.dialect.rules := by
        rw [readProgram, Scanner.readProgram, TokenStream.readProgram]
        exact hstart ▸ rfl
      obtain ⟨k, q, hk, hsteps, hends⟩ := hreader.ends p (.start hstart)
      rw [Reader.unread_of_start hstream hstart] at hk
      exact .inr ⟨p, k, q, rfl, hk, hsteps, hread ▸ hends⟩
  · exact fun program hprogram => nodes_le_of_readProgram hprogram

/-- A text that breaks off.  The quotation in it is read; then there is nothing left to go by. -/
theorem scanning_and_reading_end_unclosed :
    (∃ (p q : Reader) (used : List (Positioned Token)),
        p.Reached Dialect.standard.rules (TokenStream.ofSource .standard "('x") ∧
        p.read = .awaiting [] [.head] ∧ p.afterSteps Dialect.standard.rules 2 = .ok q ∧
        q.read = .finish true [] [.head] (.quote (.identifier "x")) ∧ used ≠ [] ∧
        p.unread = used ++ q.unread) ∧
      ∃ (p : Reader) (k : Nat) (q : Reader),
        Reader.start (TokenStream.ofSource .standard "('x") = .ok p ∧ k ≤ 3 ∧
        p.afterSteps Dialect.standard.rules k = .ok q ∧
        q.step Dialect.standard.rules =
          .error ⟨.grammatical (.mismatch .closeParen .eof), ⟨0, 3⟩⟩ := by
  have hstream : TokenStream.ofSource .standard "('x" =
      ⟨[⟨.opening, ⟨0, 0⟩⟩, ⟨.plain (.keyword .quote), ⟨0, 1⟩⟩, ⟨.identifier "x", ⟨0, 2⟩⟩],
        .endOfInput ⟨0, 3⟩⟩ := by decide +kernel
  have hread : readProgram .standard "('x" =
      .error ⟨.grammatical (.mismatch .closeParen .eof), ⟨0, 3⟩⟩ := by
    rw [readProgram_eq_readFrom, hstream]
    rfl
  obtain ⟨-, -, hreader, hends, -⟩ := scanning_and_reading_end ⟨.standard, false⟩ "('x"
  constructor
  · let p : Reader := ⟨.awaiting [] [.head], ⟨.plain (.keyword .quote), ⟨0, 1⟩⟩,
      [⟨.identifier "x", ⟨0, 2⟩⟩], .endOfInput ⟨0, 3⟩⟩
    have hp : p.Reached Dialect.standard.rules (TokenStream.ofSource .standard "('x") := by
      rw [hstream]
      exact .step (.start rfl) rfl
    obtain ⟨used, hused, hunread⟩ :=
      hreader.expression p _ 2 [] [.head] (.quote (.identifier "x")) hp rfl rfl rfl
    exact ⟨p, _, used, hp, rfl, rfl, rfl, hused, hunread⟩
  · rw [hread, hstream] at hends
    obtain ⟨error, hstart, -⟩ | ⟨p, k, q, hstart, hk, hsteps, hends⟩ := hends
    · cases hstart
    · obtain ⟨program, -, hok⟩ | ⟨-, error, hstep, herror⟩ := hends
      · cases hok
      · cases herror
        exact ⟨p, k, q, hstream ▸ hstart, hk, hsteps, hstep⟩

end SmallLisp
