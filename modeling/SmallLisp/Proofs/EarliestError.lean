import SmallLisp.Proofs.Indifference
import SmallLisp.Proofs.Places
import SmallLisp.Proofs.ReadBack

/-!
# Errors are reported as early as they can be

A token is refused where nothing can save the text any more, and not one token later.  That is two
statements.

*Everything before the refused token can still become a program.*  Whatever has been read, it can
be completed: what is innermost is given the parts it misses, closed, and then what is around it is
innermost.  No list or quotation has to be begun for that, so there is always room
(`Unfinished.completable`).

*Nothing behind the refused token could have changed the outcome.*  The grammar decides on each
token when it gets there, so a text that agrees up to the refused token is refused in the same way
(`readProgram_eq_error_of_same`).

Both are about the tokens that the grammar decides on, among which the end of the input is the
last.
-/

namespace SmallLisp

/-! ## The refused token -/

/-- The tokens that the grammar decides on: those that are not ends of lines, and the end of
the input if the stream gets there. -/
def TokenStream.decisive (stream : TokenStream) : List (Positioned Token) :=
  stream.significant ++ stream.ending.tokens

theorem StreamEnd.eq_nil_of_tokens_eq {ending : StreamEnd} {front behind : List (Positioned Token)}
    {t : Positioned Token} (h : ending.tokens = front ++ t :: behind) : front = [] := by
  cases ending with
  | failure error => simp [tokens] at h
  | endOfInput position =>
    obtain _ | ⟨first, front⟩ := front
    · rfl
    · simp [tokens] at h

namespace Unfinished

/-- A token is refused.  The end of the input is not refused at the top level, where it is the
end of a program. -/
structure Refuses (rules : Rules) (u : Unfinished) (t : Token) (error : GrammarError) : Prop where
  advance_eq : u.advance rules t = .error error
  depth_pos : t.kind = .eof → 0 < u.depth

variable {rules : Rules} {ending : StreamEnd} {u : Unfinished} {ts : List (Positioned Token)}
  {error : GrammarError} {position : Position}

/-- Reading goes on from what some of the tokens have led to. -/
theorem readFrom_append_of_ok {v : Unfinished} (h : u.advanceAll rules (ts.map (·.value)) = .ok v)
    (rest : List (Positioned Token)) :
    u.readFrom rules ending (ts ++ rest) = v.readFrom rules ending rest := by
  induction ts generalizing u with
  | nil =>
    cases h
    rfl
  | cons t ts ih =>
    simp only [List.map_cons, advanceAll] at h
    simp only [List.cons_append, readFrom]
    cases ht : u.advance rules t.value with
    | error error => rw [ht] at h; cases h
    | ok w =>
      rw [ht] at h
      exact ih h

/-- Where the stream ends, the token that is refused is the end of the input. -/
theorem Refuses.readFrom_nil_eq {t : Positioned Token} {behind : List (Positioned Token)}
    (h : u.Refuses rules t.value error) (hending : ending.tokens = t :: behind) :
    u.readFrom rules ending [] = .error ⟨.grammatical error, t.position⟩ := by
  cases ending with
  | failure lexError => cases hending
  | endOfInput position =>
    cases hending
    cases u with
    | topLevel doneRev => exact absurd (h.depth_pos rfl) (lt_irrefl 0)
    | within innermost around doneRev =>
      have hrefusal := h.advance_eq
      rw [advance_within_eof, Except.error.injEq] at hrefusal
      rw [readFrom, conclude, hrefusal]

/-- Reading fails at a token that is refused, if what is before it can be read. -/
theorem readFrom_eq_error_of_refuses {front behind : List (Positioned Token)}
    {t : Positioned Token} {v : Unfinished} (hts : ts ++ ending.tokens = front ++ t :: behind)
    (hfront : u.advanceAll rules (front.map (·.value)) = .ok v)
    (ht : v.Refuses rules t.value error) :
    u.readFrom rules ending ts = .error ⟨.grammatical error, t.position⟩ := by
  rcases List.append_eq_append_iff.1 hts with ⟨us, rfl, hending⟩ | ⟨us, rfl, hbehind⟩
  · obtain rfl := StreamEnd.eq_nil_of_tokens_eq hending
    rw [List.append_nil] at hfront
    rw [← List.append_nil ts, readFrom_append_of_ok hfront]
    exact ht.readFrom_nil_eq hending
  · rw [readFrom_append_of_ok hfront]
    cases us with
    | nil => exact ht.readFrom_nil_eq hbehind.symm
    | cons first us =>
      cases hbehind
      rw [readFrom, ht.advance_eq]

/-- Tokens that differ in their reals only are refused together. -/
theorem Refuses.of_mapReals_eq {f : Binary64 → Binary64} {v : Unfinished} {s t : Token}
    (h : u.Refuses rules t error) (hv : v.mapReals f = u.mapReals f)
    (hst : s.mapReals f = t.mapReals f) : v.Refuses rules s error := by
  refine ⟨advance_eq_error_of_mapReals_eq hv hst h.advance_eq, ?_⟩
  intro heof
  have hkind : t.kind = .eof := by rw [← Token.kind_mapReals f, ← hst, Token.kind_mapReals, heof]
  have hdepth : v.depth = u.depth := by rw [← depth_mapReals f, hv, depth_mapReals]
  rw [hdepth]
  exact h.depth_pos hkind

/-- If reading fails for a grammatical reason, then at a token that is refused, and what is before
it can be read. -/
theorem exists_refuses_of_readFrom_eq_error (hts : ∀ t ∈ ts, t.value.kind ≠ .eof)
    (h : u.readFrom rules ending ts = .error ⟨.grammatical error, position⟩) :
    ∃ front t behind v, ts ++ ending.tokens = front ++ t :: behind ∧ t.position = position ∧
      u.advanceAll rules (front.map (·.value)) = .ok v ∧ v.Refuses rules t.value error := by
  induction ts generalizing u with
  | nil =>
    cases ending with
    | failure lexError => cases h
    | endOfInput p =>
      cases u with
      | topLevel doneRev => cases h
      | within innermost around doneRev =>
        -- What is unfinished refuses the end of the input, which is the one token that is not in
        -- the list.
        cases h
        exact ⟨[], ⟨.plain .eof, position⟩, [], _, rfl, rfl, rfl,
          ⟨advance_within_eof rules innermost around doneRev, fun _ => Nat.succ_pos _⟩⟩
  | cons t ts ih =>
    simp only [readFrom] at h
    cases ht : u.advance rules t.value with
    | error error' =>
      rw [ht] at h
      cases h
      have hkind := hts t List.mem_cons_self
      exact ⟨[], t, ts ++ ending.tokens, u, rfl, rfl, rfl, ht, fun heof => absurd heof hkind⟩
    | ok v =>
      rw [ht] at h
      obtain ⟨front, t', behind, w, hbehind, hposition, hfront, hrefuses⟩ :=
        ih (fun t ht => hts t (List.mem_cons_of_mem _ ht)) h
      refine ⟨t :: front, t', behind, w, ?_, hposition, ?_, hrefuses⟩
      · rw [List.cons_append, hbehind, List.cons_append]
      · rw [List.map_cons, advanceAll_cons_of_ok ht, hfront]

/-! ## What has been read can be completed -/

/-- Some pieces of a text lead back to the top level. -/
def Completable (rules : Rules) (u : Unfinished) : Prop :=
  ∃ ps : List Piece, (∀ p ∈ ps, p.Spelled) ∧
    ∃ doneRev, u.advanceAll rules (ps.map Piece.token) = .ok (topLevel doneRev)

theorem Completable.of_advance {v : Unfinished} {p : Piece} {t : Token} (hp : p.Spelled)
    (ht : p.token = t) (h : u.advance rules t = .ok v) (hv : v.Completable rules) :
    u.Completable rules := by
  obtain ⟨ps, hps, doneRev, hread⟩ := hv
  refine ⟨p :: ps, List.forall_mem_cons.2 ⟨hp, hps⟩, doneRev, ?_⟩
  rw [List.map_cons, ht, advanceAll_cons_of_ok h, hread]

/-- The piece that stands for a missing expression or name. -/
def filler : Piece := .ofString "x"

theorem isFreeWord_filler : isFreeWord "x" = true := by decide +kernel

theorem spelled_filler : filler.Spelled := .word (by decide +kernel)

theorem token_filler : filler.token = .identifier "x" := Piece.token_of_isFreeWord isFreeWord_filler

section

variable {doneRev : List Expr} {around : List Waiting}

theorem completable_of_filler {w : Waiting}
    (h : (finish rules.readsForms doneRev (w :: around) (.identifier "x")).Completable rules) :
    (awaiting doneRev (w :: around)).Completable rules := by
  apply Completable.of_advance spelled_filler token_filler (advance_atom rfl)
  exact h

/-! What is innermost can be completed if what is around it can be, once there is an expression
in the place of the innermost. -/

variable (hfinish : ∀ e, (finish rules.readsForms doneRev around e).Completable rules)

include hfinish

theorem completable_closing (e : Expr) :
    (within (.closing e) around doneRev).Completable rules := by
  apply Completable.of_advance .closing rfl (advance_closing_closing e)
  exact hfinish e

theorem completable_items (sequence : OpenEnded) (itemsRev : List Expr) :
    (awaiting doneRev (.items sequence itemsRev :: around)).Completable rules := by
  apply Completable.of_advance .closing rfl (advance_items_closing sequence itemsRev)
  exact hfinish _

theorem completable_condNo (test yes : Expr) :
    (awaiting doneRev (.condNo test yes :: around)).Completable rules := by
  apply Completable.of_advance .closing rfl (advance_condNo_closing test yes)
  exact hfinish _

/-- Every place where an expression is to start: the filler takes it, unless the sequence that is
being read may end there. -/
theorem completable_awaiting (w : Waiting) :
    (awaiting doneRev (w :: around)).Completable rules := by
  cases w with
  | tick => exact completable_of_filler (hfinish _)
  | head =>
    apply Completable.of_advance .closing rfl advance_head_closing
    exact hfinish _
  | quoted => exact completable_of_filler (completable_closing hfinish _)
  | setqValue name => exact completable_of_filler (completable_closing hfinish _)
  | condTest =>
    apply completable_of_filler
    exact completable_of_filler (completable_condNo hfinish _ _)
  | condYes test => exact completable_of_filler (completable_condNo hfinish test _)
  | condNo test yes => exact completable_condNo hfinish test yes
  | lambdaBody parameters => exact completable_of_filler (completable_closing hfinish _)
  | whileCondition => exact completable_of_filler (completable_items hfinish _ _)
  | items sequence itemsRev => exact completable_items hfinish sequence itemsRev

theorem completable_parameters (form : Parametric) (namesRev : List String) :
    (within (.parameters form namesRev) around doneRev).Completable rules := by
  have hclose : (within (.parameters form namesRev) around doneRev).advance rules .closing =
      .ok (within (form.afterParameters namesRev.reverse) around doneRev) := rfl
  apply Completable.of_advance .closing rfl hclose
  cases form with
  | func name => exact completable_items hfinish _ _
  | lambda => exact completable_awaiting hfinish _
  | prog => exact completable_items hfinish _ _

theorem completable_parametersOpen (form : Parametric) :
    (within (.parametersOpen form) around doneRev).Completable rules := by
  apply Completable.of_advance .opening rfl rfl
  exact completable_parameters hfinish form []

theorem completable_within (innermost : Innermost) :
    (within innermost around doneRev).Completable rules := by
  cases innermost with
  | expecting w => exact completable_awaiting hfinish w
  | setqName =>
    apply Completable.of_advance spelled_filler token_filler (advance_setqName (.identifier "x"))
    exact completable_awaiting hfinish _
  | funcName =>
    apply Completable.of_advance spelled_filler token_filler (advance_funcName (.identifier "x"))
    exact completable_parametersOpen hfinish _
  | parametersOpen form => exact completable_parametersOpen hfinish form
  | parameters form namesRev => exact completable_parameters hfinish form namesRev
  | closing e => exact completable_closing hfinish e

end

theorem completable_finish (doneRev : List Expr) (around : List Waiting) (e : Expr) :
    (finish rules.readsForms doneRev around e).Completable rules := by
  induction around generalizing e with
  | nil => exact ⟨[], by simp, _, rfl⟩
  | cons w around ih =>
    rw [finish]
    cases w.take rules.readsForms e with
    | inl finished => exact ih finished
    | inr innermost => exact completable_within ih innermost

/-- **Whatever has been read can be completed.**  The induction is on what is begun around the
innermost, and no piece that is needed begins a list or a quotation, so the nesting limit plays no
part. -/
theorem completable (rules : Rules) (u : Unfinished) : u.Completable rules := by
  cases u with
  | topLevel doneRev => exact ⟨[], by simp, doneRev, rfl⟩
  | within innermost around doneRev =>
    exact completable_within (completable_finish doneRev around) innermost

end Unfinished

/-! ## Texts with the same beginning -/

variable {d : Dialect} {source : String}

theorem TokenStream.map_position_decisive_sublist (stream : TokenStream) :
    (stream.decisive.map (·.position)).Sublist stream.positions := by
  rw [decisive, List.map_append, positions]
  have hsignificant : (stream.significant.map (·.position)).Sublist
      (stream.tokens.map (·.position)) := List.filter_sublist.map _
  refine hsignificant.append ?_
  cases stream.ending with
  | endOfInput position => exact List.Sublist.refl _
  | failure error => exact List.nil_sublist _

/-- A place says which token is meant. -/
theorem TokenStream.eq_of_position_decisive_eq {i j : Nat} {position : Position}
    (hi : (ofSource d source).decisive[i]?.map (·.position) = some position)
    (hj : (ofSource d source).decisive[j]?.map (·.position) = some position) : i = j := by
  have hincreasing := (pairwise_positions_ofSource d source).sublist
    (ofSource d source).map_position_decisive_sublist
  exact (getElem?_map_position_iff hincreasing hj i).1 hi

/-- What has been read from the beginning of a text can be made a program: there is a text that
begins with the same tokens and is read. -/
theorem exists_readProgram_of_advanceAll {front rest : List (Positioned Token)} {u : Unfinished}
    (hsignificant : (TokenStream.ofSource d source).significant = front ++ rest)
    (hfront : Unfinished.empty.advanceAll d.rules (front.map (·.value)) = .ok u) :
    ∃ source' p, (TokenStream.ofSource d source').decisive.take front.length = front ∧
      readProgram d source' = .ok p := by
  obtain ⟨ts, us, htokens, hts, -⟩ := List.filter_eq_append_iff.1 hsignificant
  have hstream : (Scanner.before source.toList .start).stream d =
      ⟨ts ++ us, (TokenStream.ofSource d source).ending⟩ := by
    rw [← htokens]
    rfl
  obtain ⟨text, behind, q, -, hspells, -⟩ := Scanner.exists_spells_of_stream_eq hstream
  -- Whatever is unfinished can be finished.  A blank comes first, so that the last token of the
  -- front stays as it is.
  obtain ⟨ps, hps, doneRev, hcomplete⟩ := Unfinished.completable d.rules u
  obtain ⟨ws, b, hws, hvalues⟩ :=
    Piece.exists_spells_strokes hps (EndsRun.nil _) (EndsRun.nil _) (q.after ' ')
  have hall := (hspells.before_space _).append (.blank (by decide) hws)
  have hsource := hall.ofSource_eq d
  let stream : TokenStream := ⟨ts ++ ws, .endOfInput b⟩
  let added := (TokenStream.mk ws (.endOfInput b)).significant
  have hadded : added.map (·.value) = ps.map Piece.token := by
    rw [TokenStream.map_value_significant, hvalues, Piece.filter_map_token hps]
  have hstream' : stream.significant = front ++ added := by
    rw [TokenStream.significant, List.filter_append, hts]
    rfl
  refine ⟨String.ofList (text ++ ' ' :: (Piece.strokes ps).flatten), ⟨doneRev.reverse⟩, ?_, ?_⟩
  · rw [hsource, TokenStream.decisive, hstream', List.append_assoc, List.take_left]
  · rw [readProgram_eq_readFrom, hsource, hstream', Unfinished.readFrom_eq_ok_iff, List.map_append,
      Unfinished.advanceAll_append_of_ok hfront, hadded, hcomplete, List.reverse_reverse]
    exact ⟨⟨b, rfl⟩, rfl⟩

/-- Equal tokens in the same place. -/
structure Positioned.Same (s t : Positioned Token) : Prop where
  value_same : s.value.same t.value = true
  position_eq : s.position = t.position

/-- The tokens that the grammar decides on carry a real only if they are one. -/
theorem TokenStream.kind_eq_real_of_mem_decisive {t : Positioned Token}
    (ht : t ∈ (ofSource d source).decisive) {x : Binary64}
    (hx : t.value.literal = some (.number (.real x))) : t.value.kind = .real := by
  rcases List.mem_append.1 ht with ht | ht
  · exact (scanned_of_mem_significant (List.mem_map_of_mem ht)).kind_eq_real hx
  · cases hending : (ofSource d source).ending with
    | failure error => simp [hending, StreamEnd.tokens] at ht
    | endOfInput position =>
      rw [hending, StreamEnd.tokens, List.mem_singleton] at ht
      rw [ht] at hx
      cases hx

theorem Token.map_mapReals_eq_of_forall₂_same {ss ts : List (Positioned Token)}
    (h : List.Forall₂ Positioned.Same ss ts)
    (hss : ∀ s ∈ ss, ∀ x, s.value.literal = some (.number (.real x)) → s.value.kind = .real) :
    (ss.map (·.value)).map (·.mapReals Binary64.dropZeroSign) =
      (ts.map (·.value)).map (·.mapReals Binary64.dropZeroSign) := by
  induction h with
  | nil => rfl
  | @cons s t ss ts hst hrest ih =>
    have hfirst := Token.mapReals_eq_of_same (hss s List.mem_cons_self) hst.value_same
    have hrest := ih fun s hs => hss s (List.mem_cons_of_mem _ hs)
    simp only [List.map_cons, hfirst, hrest]

/-- Where a list agrees with another one up to some place, it has something in that place. -/
theorem exists_append_of_forall₂_take {α β : Type} {R : α → β → Prop} {l : List α}
    {front : List β} {b : β} (h : List.Forall₂ R (l.take (front.length + 1)) (front ++ [b])) :
    ∃ front' a behind, l = front' ++ a :: behind ∧ List.Forall₂ R front' front ∧ R a b := by
  have hfront := List.forall₂_take_append _ front [b] h
  obtain ⟨a, rest, hab, hrest, hlast⟩ :=
    List.forall₂_cons_right_iff.1 (List.forall₂_drop_append _ front [b] h)
  rw [List.forall₂_nil_right_iff.1 hrest] at hlast
  refine ⟨_, a, l.drop (front.length + 1), ?_, hfront, hab⟩
  rw [List.append_cons, ← hlast, List.take_append_drop, List.take_append_drop]

/-- What is behind a refused token makes no difference: every text that has equal tokens in the
same places, up to the refused one, fails in the same way. -/
theorem readProgram_eq_error_of_same {front : List (Positioned Token)} {t : Positioned Token}
    {u : Unfinished} {error : GrammarError}
    (hfront : Unfinished.empty.advanceAll d.rules (front.map (·.value)) = .ok u)
    (hrefuses : u.Refuses d.rules t.value error)
    (hsame : List.Forall₂ Positioned.Same
      ((TokenStream.ofSource d source).decisive.take (front.length + 1)) (front ++ [t])) :
    readProgram d source = .error ⟨.grammatical error, t.position⟩ := by
  obtain ⟨front', t', behind, hdecisive, hfront', ht⟩ := exists_append_of_forall₂_take hsame
  have hreals : ∀ s ∈ front' ++ t' :: behind, ∀ x,
      s.value.literal = some (.number (.real x)) → s.value.kind = .real :=
    fun s hs x hx => TokenStream.kind_eq_real_of_mem_decisive (hdecisive ▸ hs) hx
  have hmap := Token.map_mapReals_eq_of_forall₂_same hfront' fun s hs =>
    hreals s (List.mem_append_left _ hs)
  obtain ⟨v, hv, hvu⟩ := Unfinished.exists_advanceAll_of_mapReals_eq hmap hfront
  have htmap := Token.mapReals_eq_of_same (hreals t' (by simp)) ht.value_same
  rw [readProgram_eq_readFrom, ← ht.position_eq]
  exact Unfinished.readFrom_eq_error_of_refuses hdecisive hv (hrefuses.of_mapReals_eq hvu htmap)

/-- **A grammatical error is reported at the earliest token where there is one.**  It stands at a
certain token, say the one numbered `k`.  The tokens before that are the beginning of a text that
is read, and no text that also has the token numbered `k` is read, whatever follows. -/
theorem readProgram_error_earliest {error : GrammarError} {position : Position}
    (h : readProgram d source = .error ⟨.grammatical error, position⟩) :
    ∃ k, (∀ j, (TokenStream.ofSource d source).decisive[j]?.map (·.position) = some position ↔
        j = k) ∧
      (∃ source' p, (TokenStream.ofSource d source').decisive.take k =
          (TokenStream.ofSource d source).decisive.take k ∧ readProgram d source' = .ok p) ∧
      ∀ source', List.Forall₂ Positioned.Same
          ((TokenStream.ofSource d source').decisive.take (k + 1))
          ((TokenStream.ofSource d source).decisive.take (k + 1)) →
        readProgram d source' = .error ⟨.grammatical error, position⟩ := by
  rw [readProgram_eq_readFrom] at h
  have heof : ∀ t ∈ (TokenStream.ofSource d source).significant, t.value.kind ≠ .eof :=
    fun t ht => Scanner.kind_ne_eof_of_mem_stream (List.mem_of_mem_filter ht)
  obtain ⟨front, t, behind, u, hdecisive, rfl, hfront, hrefuses⟩ :=
    Unfinished.exists_refuses_of_readFrom_eq_error heof h
  have hdecisive' : (TokenStream.ofSource d source).decisive = front ++ t :: behind := hdecisive
  refine ⟨front.length, ?_, ?_, ?_⟩
  · intro j
    have ht : (TokenStream.ofSource d source).decisive[front.length]?.map (·.position) =
        some t.position := by
      rw [hdecisive', List.getElem?_append_right (le_refl _), Nat.sub_self]
      rfl
    constructor
    · intro hj
      exact TokenStream.eq_of_position_decisive_eq hj ht
    · rintro rfl
      exact ht
  · obtain ⟨rest, hrest⟩ : ∃ rest, (TokenStream.ofSource d source).significant = front ++ rest := by
      rcases List.append_eq_append_iff.1 hdecisive with ⟨us, hus, hending⟩ | ⟨us, hus, -⟩
      · obtain rfl := StreamEnd.eq_nil_of_tokens_eq hending
        exact ⟨[], by rw [hus, List.append_nil, List.append_nil]⟩
      · exact ⟨us, hus⟩
    obtain ⟨source', p, htake, hread⟩ := exists_readProgram_of_advanceAll hrest hfront
    exact ⟨source', p, by rw [htake, hdecisive', List.take_left], hread⟩
  · intro source' hsame
    refine readProgram_eq_error_of_same hfront hrefuses ?_
    rwa [hdecisive', List.take_length_add_append, List.take_succ_cons, List.take_zero] at hsame

/-- A number where a name should be.  Up to there the text is fine, and nothing behind the number
changes that it is not. -/
theorem readProgram_error_earliest_setq :
    readProgram .standard "(setq 1 2)" = .error ⟨.grammatical (.expectedName .integer), ⟨0, 6⟩⟩ ∧
      (∃ source p, (TokenStream.ofSource .standard source).decisive.take 2 =
          [⟨.opening, ⟨0, 0⟩⟩, ⟨.word (.keyword .setq) "setq", ⟨0, 1⟩⟩] ∧
        readProgram .standard source = .ok p) ∧
      readProgram .standard "(setq 1 1.2.3" =
        .error ⟨.grammatical (.expectedName .integer), ⟨0, 6⟩⟩ := by
  have hstream : TokenStream.ofSource .standard "(setq 1 2)" =
      ⟨[⟨.opening, ⟨0, 0⟩⟩, ⟨.word (.keyword .setq) "setq", ⟨0, 1⟩⟩, ⟨.number (.integer 1), ⟨0, 6⟩⟩,
        ⟨.number (.integer 2), ⟨0, 8⟩⟩, ⟨.closing, ⟨0, 9⟩⟩], .endOfInput ⟨0, 10⟩⟩ := by
    decide +kernel
  have hother : TokenStream.ofSource .standard "(setq 1 1.2.3" =
      ⟨[⟨.opening, ⟨0, 0⟩⟩, ⟨.word (.keyword .setq) "setq", ⟨0, 1⟩⟩, ⟨.number (.integer 1), ⟨0, 6⟩⟩],
        .failure ⟨.severalPoints "1.2.3", ⟨0, 8⟩⟩⟩ := by decide +kernel
  have hread : readProgram .standard "(setq 1 2)" =
      .error ⟨.grammatical (.expectedName .integer), ⟨0, 6⟩⟩ := by
    rw [readProgram_eq_readFrom, hstream]
    rfl
  obtain ⟨k, hk, ⟨source, p, hsource, hp⟩, hsame⟩ := readProgram_error_earliest hread
  rw [hstream] at hk hsource hsame
  obtain rfl : 2 = k := (hk 2).1 rfl
  refine ⟨hread, ⟨source, p, hsource, hp⟩, hsame _ ?_⟩
  rw [hother]
  exact .cons ⟨rfl, rfl⟩ (.cons ⟨rfl, rfl⟩ (.cons ⟨rfl, rfl⟩ .nil))

end SmallLisp
