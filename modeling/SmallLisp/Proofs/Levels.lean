import SmallLisp.Proofs.Dialects
import SmallLisp.Proofs.Soundness

/-!
# How many levels inside a token stands

A token stands inside the lists and quotations that are begun in front of it and not finished.  Which
ones these are is said here by the grammar alone.  The tokens in front are cut into segments, one
for each list or quotation begun and one in front of them all (`Inside`).  A segment consists of the
tokens that begin something, and of parts of it that are finished: a head, a name, parameters,
expressions, however many and however deeply nested (`Waiting.Begun`).  Only the number of the
segments is the level; what is finished is inside of them and adds nothing to it.

A reader without a limit gets to exactly these places (`exists_advanceAll_eq_awaiting_iff`).  One
direction is an invariant of reading, kept token by token; in the other, every segment is a path
through the states of the reader.
-/

namespace SmallLisp

variable {readsForms : Bool} {ts us vs : List Token}

/-! ## Segments -/

/-- The beginning of a list that takes any number of expressions, up to where they go, and the
first of them if it is already there: a plain list is begun by its head. -/
inductive OpenEnded.Begun (readsForms : Bool) : List Token → OpenEnded → List Expr → Prop
  | plain {ts : List Token} {head : Expr}
      (hplain : readsForms = true → beginsWithQuoteWord ts = false ∧ head.headsForm = false)
      (hhead : Derives readsForms ts head) :
      Begun readsForms (Token.opening :: ts) .plain [head]
  | call {k : Keyword} (lexeme : String) (hforms : readsForms = true)
      (hk : k ∈ Keyword.builtInFunctions) :
      Begun readsForms [Token.opening, .word (.keyword k) lexeme] (.call k.word) []
  | lambdaCall {ts : List Token} {parameters : List String} {body : Expr}
      (hforms : readsForms = true) (hhead : Derives readsForms ts (.lambda parameters body)) :
      Begun readsForms (Token.opening :: ts) (.lambdaCall parameters body) []
  | func {t : Token} {ps : List Token} {name : String} {parameters : List String}
      (lexeme : String) (hforms : readsForms = true) (hname : t.Names name)
      (hparameters : ParameterList ps parameters) :
      Begun readsForms (Token.opening :: .word (.keyword .func) lexeme :: t :: ps)
        (.func name parameters) []
  | prog {ps : List Token} {parameters : List String} (lexeme : String)
      (hforms : readsForms = true) (hparameters : ParameterList ps parameters) :
      Begun readsForms (Token.opening :: .word (.keyword .prog) lexeme :: ps)
        (.prog parameters) []
  | whileLoop {ts : List Token} {condition : Expr} (lexeme : String) (hforms : readsForms = true)
      (hcondition : Derives readsForms ts condition) :
      Begun readsForms (Token.opening :: .word (.keyword .whileLoop) lexeme :: ts)
        (.whileLoop condition) []

/-- The beginning of a list or quotation, up to a place where an expression of it starts.  All
that it has in front of that place is finished. -/
inductive Waiting.Begun (readsForms : Bool) : List Token → Waiting → Prop
  | tick {q : Token} (hq : q.kind = .keyword .quote) : Begun readsForms [q] .tick
  | head : Begun readsForms [Token.opening] .head
  | quoted (lexeme : String) (hforms : readsForms = true) :
      Begun readsForms [Token.opening, .word (.keyword .quote) lexeme] .quoted
  | setqValue {t : Token} {name : String} (lexeme : String) (hforms : readsForms = true)
      (hname : t.Names name) :
      Begun readsForms [Token.opening, .word (.keyword .setq) lexeme, t] (.setqValue name)
  | condTest (lexeme : String) (hforms : readsForms = true) :
      Begun readsForms [Token.opening, .word (.keyword .cond) lexeme] .condTest
  | condYes {ts : List Token} {test : Expr} (lexeme : String) (hforms : readsForms = true)
      (htest : Derives readsForms ts test) :
      Begun readsForms (Token.opening :: .word (.keyword .cond) lexeme :: ts) (.condYes test)
  | condNo {ts us : List Token} {test yes : Expr} (lexeme : String) (hforms : readsForms = true)
      (htest : Derives readsForms ts test) (hyes : Derives readsForms us yes) :
      Begun readsForms (Token.opening :: .word (.keyword .cond) lexeme :: (ts ++ us))
        (.condNo test yes)
  | lambdaBody {ps : List Token} {parameters : List String} (lexeme : String)
      (hforms : readsForms = true) (hparameters : ParameterList ps parameters) :
      Begun readsForms (Token.opening :: .word (.keyword .lambda) lexeme :: ps)
        (.lambdaBody parameters)
  | whileCondition (lexeme : String) (hforms : readsForms = true) :
      Begun readsForms [Token.opening, .word (.keyword .whileLoop) lexeme] .whileCondition
  | items {ts us : List Token} {sequence : OpenEnded} {first items : List Expr}
      (hsequence : sequence.Begun readsForms ts first) (hitems : DerivesAll readsForms us items) :
      Begun readsForms (ts ++ us) (.items sequence (items.reverse ++ first))

/-- The tokens in front of a place where an expression starts inside `around`: finished
expressions at the top level, and a segment for everything that is around the place.  In a dialect
with forms the word `quote` does not begin the head of a list, because it makes the list a
quotation. -/
inductive Inside (readsForms : Bool) : List Waiting → List Token → Prop
  | topLevel {ts : List Token} {es : List Expr} (hes : DerivesAll readsForms ts es) :
      Inside readsForms [] ts
  | within {around : List Waiting} {ts us : List Token} {w : Waiting}
      (haround : Inside readsForms around ts) (hfits : FitsInside readsForms around us)
      (hw : w.Begun readsForms us) : Inside readsForms (w :: around) (ts ++ us)

/-- **A token begins a list or a quotation inside `n` others**, given the tokens in front of it. -/
structure Token.BeginsInside (readsForms : Bool) (n : Nat) (ts : List Token) (t : Token) :
    Prop where
  begins : t.begins = true
  exists_inside : ∃ around, around.length = n ∧ Inside readsForms around ts ∧
    FitsInside readsForms around [t]

/-! ## What is begun and waits for something else -/

/-- The beginning of a form up to its parameters. -/
def Parametric.Begun (readsForms : Bool) (ts : List Token) : Parametric → Prop
  | .func name => ∃ t lexeme, readsForms = true ∧ t.Names name ∧
      ts = [Token.opening, .word (.keyword .func) lexeme, t]
  | .lambda => ∃ lexeme, readsForms = true ∧
      ts = [Token.opening, .word (.keyword .lambda) lexeme]
  | .prog => ∃ lexeme, readsForms = true ∧
      ts = [Token.opening, .word (.keyword .prog) lexeme]

/-- The beginning of what is innermost. -/
def Innermost.Begun (readsForms : Bool) (ts : List Token) : Innermost → Prop
  | .expecting w => w.Begun readsForms ts
  | .setqName => ∃ lexeme, readsForms = true ∧
      ts = [Token.opening, .word (.keyword .setq) lexeme]
  | .funcName => ∃ lexeme, readsForms = true ∧
      ts = [Token.opening, .word (.keyword .func) lexeme]
  | .parametersOpen form => form.Begun readsForms ts
  | .parameters form namesRev => ∃ us vs, ts = us ++ Token.opening :: vs ∧
      form.Begun readsForms us ∧ List.Forall₂ Token.Names vs namesRev.reverse
  | .closing e => Derives readsForms (ts ++ [Token.closing]) e

/-- The place behind the beginning of a list is one where an expression of it starts. -/
theorem OpenEnded.Begun.items {sequence : OpenEnded} {first : List Expr}
    (h : sequence.Begun readsForms ts first) :
    (Waiting.items sequence first).Begun readsForms ts := by
  simpa using Waiting.Begun.items h .nil

/-- There is one expression at most in the beginning of a list. -/
theorem OpenEnded.Begun.reverse_eq {sequence : OpenEnded} {first : List Expr}
    (h : sequence.Begun readsForms ts first) : first.reverse = first := by
  cases h <;> rfl

/-- Behind its parameters a form goes on with expressions. -/
theorem Parametric.Begun.afterParameters {form : Parametric} {names : List String}
    (h : form.Begun readsForms ts) (hparameters : ParameterList us names) :
    (form.afterParameters names).Begun readsForms (ts ++ us) := by
  cases form with
  | func name =>
    obtain ⟨t, lexeme, hforms, hname, rfl⟩ := h
    exact (OpenEnded.Begun.func lexeme hforms hname hparameters).items
  | lambda =>
    obtain ⟨lexeme, hforms, rfl⟩ := h
    exact .lambdaBody lexeme hforms hparameters
  | prog =>
    obtain ⟨lexeme, hforms, rfl⟩ := h
    exact (OpenEnded.Begun.prog lexeme hforms hparameters).items

/-- A list of any number of expressions is finished by its closing parenthesis. -/
theorem OpenEnded.Begun.derives_close {sequence : OpenEnded} {first items : List Expr}
    (h : sequence.Begun readsForms ts first) (hitems : DerivesAll readsForms us items) :
    Derives readsForms (ts ++ us ++ [Token.closing]) (sequence.close (first ++ items)) := by
  cases h with
  | plain hplain hhead =>
    simpa [Token.parenthesized, OpenEnded.close] using Derives.list hplain hhead hitems
  | call lexeme hforms hk =>
    simpa [Token.parenthesized, OpenEnded.close] using Derives.call lexeme hforms hk hitems
  | lambdaCall hforms hhead =>
    simpa [Token.parenthesized, OpenEnded.close] using Derives.lambdaCall hforms hhead hitems
  | func lexeme hforms hname hparameters =>
    simpa [Token.parenthesized, OpenEnded.close] using
      Derives.func lexeme hforms hname hparameters hitems
  | prog lexeme hforms hparameters =>
    simpa [Token.parenthesized, OpenEnded.close] using
      Derives.prog lexeme hforms hparameters hitems
  | whileLoop lexeme hforms hcondition =>
    simpa [Token.parenthesized, OpenEnded.close] using
      Derives.whileLoop lexeme hforms hcondition hitems

/-- How a list is begun by its head, which decides how it goes on. -/
theorem begun_ofHead {e : Expr} (he : Derives readsForms us e)
    (hquote : readsForms = true → beginsWithQuoteWord us = false) :
    (Innermost.ofHead readsForms e).Begun readsForms (Token.opening :: us) := by
  by_cases hform : readsForms = true ∧ e.headsForm = true
  · obtain ⟨rfl, hhead⟩ := hform
    cases e with
    | identifier name =>
      obtain ⟨k, lexeme, hk, rfl, rfl⟩ := he.eq_word_of_headsForm hhead
      rcases Keyword.mem_specialForms_or_mem_builtInFunctions k with hspecial | hbuiltIn
      · simp only [Keyword.specialForms, List.mem_cons, List.not_mem_nil, or_false] at hspecial
        rcases hspecial with rfl | rfl | rfl | rfl | rfl | rfl | rfl
        · exact absurd rfl hk
        · rw [Innermost.ofHead_setq]
          exact ⟨lexeme, rfl, rfl⟩
        · rw [Innermost.ofHead_cond]
          exact .condTest lexeme rfl
        · rw [Innermost.ofHead_func]
          exact ⟨lexeme, rfl, rfl⟩
        · rw [Innermost.ofHead_lambda]
          exact ⟨lexeme, rfl, rfl⟩
        · rw [Innermost.ofHead_prog]
          exact ⟨lexeme, rfl, rfl⟩
        · rw [Innermost.ofHead_whileLoop]
          exact .whileCondition lexeme rfl
      · rw [Innermost.ofHead_builtIn hbuiltIn]
        exact (OpenEnded.Begun.call lexeme rfl hbuiltIn).items
    | lambda parameters body => exact (OpenEnded.Begun.lambdaCall rfl he).items
    | _ => simp [Expr.headsForm] at hhead
  · have hplain : readsForms = true → e.headsForm = false := by
      intro hforms
      rw [Bool.eq_false_iff]
      exact fun hhead => hform ⟨hforms, hhead⟩
    rw [Innermost.ofHead_plain hplain]
    exact (OpenEnded.Begun.plain (fun hforms => ⟨hquote hforms, hplain hforms⟩) he).items

/-- What is begun and gets one of its expressions has that expression finished in it. -/
theorem begun_of_take {w : Waiting} {e : Expr} {innermost : Innermost}
    (hw : w.Begun readsForms ts) (he : Derives readsForms us e)
    (hquote : w = .head → readsForms = true → beginsWithQuoteWord us = false)
    (htake : w.take readsForms e = .inr innermost) :
    innermost.Begun readsForms (ts ++ us) := by
  cases hw with
  | tick hq => simp [Waiting.take] at htake
  | head =>
    cases htake
    exact begun_ofHead he (hquote rfl)
  | quoted lexeme hforms =>
    cases htake
    simpa [Innermost.Begun, Token.parenthesized] using Derives.quoteForm lexeme hforms he
  | setqValue lexeme hforms hname =>
    cases htake
    simpa [Innermost.Begun, Token.parenthesized] using Derives.setq lexeme hforms hname he
  | condTest lexeme hforms =>
    cases htake
    exact .condYes lexeme hforms he
  | condYes lexeme hforms htest =>
    cases htake
    exact .condNo lexeme hforms htest he
  | condNo lexeme hforms htest hyes =>
    cases htake
    simpa [Innermost.Begun, Token.parenthesized] using
      Derives.condThree lexeme hforms htest hyes he
  | lambdaBody lexeme hforms hparameters =>
    cases htake
    simpa [Innermost.Begun, Token.parenthesized] using
      Derives.lambda lexeme hforms hparameters he
  | whileCondition lexeme hforms =>
    cases htake
    exact (OpenEnded.Begun.whileLoop lexeme hforms he).items
  | @items ts us' sequence first items hsequence hitems =>
    cases htake
    simpa [Innermost.Begun] using Waiting.Begun.items hsequence (hitems.snoc he)

/-! ## What adds to the level -/

/-- Finished expressions add nothing to the level, at the top level or in a list that takes any
number of them. -/
theorem Inside.append_derivesAll {around : List Waiting} {es : List Expr}
    (h : Inside readsForms around ts) (hes : DerivesAll readsForms us es)
    (hwaits : ∀ w ∈ around.head?, ∃ sequence itemsRev, w = .items sequence itemsRev) :
    ∃ around', around'.length = around.length ∧ Inside readsForms around' (ts ++ us) := by
  cases h with
  | topLevel hdone => exact ⟨[], rfl, .topLevel (hdone.append hes)⟩
  | @within around ts vs w haround hfits hw =>
    obtain ⟨sequence, itemsRev, rfl⟩ := hwaits w rfl
    cases hw with
    | items hsequence hitems =>
      have hitems' := Waiting.Begun.items hsequence (hitems.append hes)
      have hfits' := hfits.append us
      rw [List.append_assoc] at hfits'
      rw [List.append_assoc, List.append_assoc]
      exact ⟨_, List.length_cons, .within haround hfits' hitems'⟩

/-- Parameters add nothing to the level: behind them, the form itself is all that is added to
what is around it. -/
theorem Inside.append_parameterList {around : List Waiting} {form : Parametric}
    {names : List String} (h : Inside readsForms around ts)
    (hfits : FitsInside readsForms around us) (hform : form.Begun readsForms us)
    (hparameters : ParameterList vs names) :
    ∃ w, Inside readsForms (w :: around) (ts ++ (us ++ vs)) := by
  have hbegun := hform.afterParameters hparameters
  cases form with
  | func name => exact ⟨_, .within h (hfits.append vs) hbegun⟩
  | lambda => exact ⟨_, .within h (hfits.append vs) hbegun⟩
  | prog => exact ⟨_, .within h (hfits.append vs) hbegun⟩

/-- A segment begins with a token that begins a list or a quotation. -/
theorem Waiting.Begun.exists_cons {w : Waiting} (h : w.Begun readsForms ts) :
    ∃ t rest, ts = t :: rest ∧ t.begins = true := by
  have hopening : Token.opening.begins = true := rfl
  cases h with
  | tick hq => exact ⟨_, [], rfl, by simp [Token.begins, hq]⟩
  | items hsequence hitems =>
    cases hsequence <;> exact ⟨_, _, rfl, hopening⟩
  | _ => exact ⟨_, _, rfl, hopening⟩

theorem FitsInside.of_append {around : List Waiting} {t : Token}
    (h : FitsInside readsForms around (t :: ts)) : FitsInside readsForms around [t] :=
  ⟨List.cons_ne_nil t [], h.2⟩

/-- No level is left out: in front of a place there is a token that begins a list or quotation on
every level above. -/
theorem Inside.exists_beginsInside {around : List Waiting} {n : Nat}
    (h : Inside readsForms around ts) (hn : n < around.length) :
    ∃ k, ∃ t : Token, ts[k]? = some t ∧ t.BeginsInside readsForms n (ts.take k) := by
  induction h with
  | topLevel hes => exact absurd hn (Nat.not_lt_zero n)
  | @within around ts us w haround hfits hw ih =>
    rcases Nat.lt_succ_iff_lt_or_eq.1 hn with hlt | rfl
    · obtain ⟨k, t, ht, hbegins⟩ := ih hlt
      have hk : k < ts.length := (List.getElem?_eq_some_iff.1 ht).1
      refine ⟨k, t, by rwa [List.getElem?_append_left hk], ?_⟩
      rwa [List.take_append_of_le_length (Nat.le_of_lt hk)]
    · obtain ⟨t, rest, rfl, hbegins⟩ := hw.exists_cons
      exact ⟨ts.length, t, by simp, hbegins, around, rfl, by simpa using haround, hfits.of_append⟩

/-! ## The invariant of reading -/

/-- The tokens that have been read to come to a state, cut into segments. -/
def Unfinished.Begun (readsForms : Bool) (ts : List Token) : Unfinished → Prop
  | topLevel _ => Inside readsForms [] ts
  | within innermost around _ => ∃ us vs, ts = us ++ vs ∧ Inside readsForms around us ∧
      FitsInside readsForms around vs ∧ innermost.Begun readsForms vs

namespace Unfinished

variable {rules : Rules} {doneRev : List Expr} {around : List Waiting}

/-- A token goes deeper if it begins a list or a quotation that fits there. -/
theorem enters_awaiting_iff {t : Token} :
    (awaiting doneRev around).enters readsForms t = true ↔
      t.begins = true ∧ FitsInside readsForms around [t] := by
  constructor
  · intro h
    have hbegins : t.begins = true := by
      by_contra hne
      rw [enters_eq_false_of_begins (Bool.eq_false_iff.2 hne)] at h
      cases h
    refine ⟨hbegins, List.cons_ne_nil t [], ?_⟩
    intro hhead hforms
    obtain _ | ⟨w, around⟩ := around
    · cases hhead
    · cases hhead
      simpa [awaiting, enters, hbegins, hforms, beginsWithQuoteWord] using h
  · rintro ⟨hbegins, hfits⟩
    rw [enters_awaiting hfits.isQuoteKeyword_eq_false, hbegins]

theorem begun_awaiting_iff :
    (awaiting doneRev around).Begun readsForms ts ↔ Inside readsForms around ts := by
  cases around with
  | nil => exact Iff.rfl
  | cons w around =>
    constructor
    · rintro ⟨us, vs, rfl, haround, hfits, hw⟩
      exact .within haround hfits hw
    · rintro (_ | ⟨haround, hfits, hw⟩)
      exact ⟨_, _, rfl, haround, hfits, hw⟩

/-- Tokens that only change what is innermost. -/
theorem Begun.within_append {innermost innermost' : Innermost}
    (h : (within innermost around doneRev).Begun readsForms ts) (us : List Token)
    (hbegun : ∀ vs, innermost.Begun readsForms vs → innermost'.Begun readsForms (vs ++ us)) :
    (within innermost' around doneRev).Begun readsForms (ts ++ us) := by
  obtain ⟨vs, vs', rfl, haround, hfits, hi⟩ := h
  exact ⟨vs, vs' ++ us, List.append_assoc vs vs' us, haround, hfits.append us, hbegun _ hi⟩

/-- Finishing an expression joins its tokens to the segment around it.  A tick is finished with the
expression behind it, so the induction is on what is around. -/
theorem begun_finish {e : Expr} (haround : Inside readsForms around us)
    (hfits : FitsInside readsForms around vs) (he : Derives readsForms vs e) :
    (finish readsForms doneRev around e).Begun readsForms (us ++ vs) := by
  induction around generalizing us vs e with
  | nil =>
    obtain ⟨hes⟩ := haround
    exact .topLevel (hes.snoc he)
  | cons w around ih =>
    obtain _ | ⟨haround, hfits', hw⟩ := haround
    rw [List.append_assoc]
    have hquote : w = .head → readsForms = true → beginsWithQuoteWord vs = false :=
      fun hhead => hfits.2 (by rw [hhead]; rfl)
    cases htake : w.take readsForms e with
    | inr innermost =>
      simp only [finish, htake]
      exact ⟨_, _, rfl, haround, hfits'.append vs, begun_of_take hw he hquote htake⟩
    | inl finished =>
      simp only [finish, htake]
      -- Of all that waits for an expression only a tick is finished by it.
      cases hw with
      | tick hq =>
        cases htake
        exact ih haround (hfits'.append vs) (.quotation hq he)
      | _ => simp [Waiting.take] at htake

/-- What a closing parenthesis can finish is an expression with it. -/
theorem derives_of_closes {innermost : Innermost} {e : Expr} (h : innermost.Closes e)
    (hi : innermost.Begun readsForms ts) : Derives readsForms (ts ++ [Token.closing]) e := by
  cases h with
  | head =>
    cases hi
    exact .emptyList
  | condNo test yes =>
    cases hi with
    | condNo lexeme hforms htest hyes => exact .condTwo lexeme hforms htest hyes
  | items sequence itemsRev =>
    cases hi with
    | items hsequence hitems =>
      rw [List.reverse_append, List.reverse_reverse, hsequence.reverse_eq]
      exact hsequence.derives_close hitems
  | closing e => exact hi

/-- One token keeps the segments. -/
theorem Begun.advance {u v : Unfinished} {t : Token} (hu : u.Begun rules.readsForms ts)
    (ht : t.Scanned) (h : u.advance rules t = .ok v) : v.Begun rules.readsForms (ts ++ [t]) := by
  -- One case for each kind of move.  Only an atom and a closing parenthesis finish something; the
  -- other moves add their token to the innermost segment.
  cases step_of_advance ht h with
  | opening doneRev hroom =>
    exact ⟨ts, _, rfl, begun_awaiting_iff.1 hu, ⟨by simp, fun _ _ => rfl⟩, .head⟩
  | quotation doneRev hq hfits hroom =>
    exact ⟨ts, _, rfl, begun_awaiting_iff.1 hu, hfits, .tick hq⟩
  | @atom around t e doneRev hatom hfits =>
    have he : DerivesWithin rules.readsForms 0 [t] e := ht.derivesWithin hatom
    exact begun_finish (begun_awaiting_iff.1 hu) hfits he.derives
  | headQuote doneRev around lexeme hforms =>
    refine Begun.within_append hu _ ?_
    rintro _ ⟨⟩
    exact .quoted lexeme hforms
  | setqName doneRev around hname =>
    refine Begun.within_append hu _ ?_
    rintro _ ⟨lexeme, hforms, rfl⟩
    exact .setqValue lexeme hforms hname
  | funcName doneRev around hname =>
    refine Begun.within_append hu _ ?_
    rintro _ ⟨lexeme, hforms, rfl⟩
    exact ⟨t, lexeme, hforms, hname, rfl⟩
  | parametersOpen form doneRev around =>
    exact Begun.within_append hu _ fun vs hvs => ⟨vs, [], rfl, hvs, .nil⟩
  | parameter form namesRev doneRev around hname =>
    refine Begun.within_append hu _ ?_
    rintro _ ⟨us', vs', rfl, hform, hnames⟩
    refine ⟨us', vs' ++ [t], by simp, hform, ?_⟩
    rw [List.reverse_cons]
    exact List.rel_append hnames (.cons hname .nil)
  | parametersClose form namesRev doneRev around =>
    refine Begun.within_append hu _ ?_
    rintro _ ⟨us', vs', rfl, hform, hnames⟩
    simpa [Token.parenthesized] using hform.afterParameters ⟨vs', rfl, hnames⟩
  | closes doneRev around hcloses =>
    obtain ⟨us, vs, rfl, haround, hfits, hi⟩ := hu
    rw [List.append_assoc]
    exact begun_finish haround (hfits.append _) (derives_of_closes hcloses hi)

/-- Whatever is read consists of segments, as many as there are lists and quotations around the
place where the reader is. -/
theorem Begun.advanceAll {u v : Unfinished} (hu : u.Begun rules.readsForms ts)
    (hus : ∀ t ∈ us, t.Scanned) (h : u.advanceAll rules us = .ok v) :
    v.Begun rules.readsForms (ts ++ us) := by
  induction us generalizing u ts with
  | nil =>
    cases h
    rwa [List.append_nil]
  | cons t us ih =>
    cases hstep : u.advance rules t with
    | error error => simp [Unfinished.advanceAll, hstep] at h
    | ok w =>
      rw [advanceAll_cons_of_ok hstep] at h
      have hw := hu.advance (hus t List.mem_cons_self) hstep
      rw [List.append_cons]
      exact ih hw (fun t ht => hus t (List.mem_cons_of_mem _ ht)) h

theorem inside_of_advanceAll (hts : ∀ t ∈ ts, t.Scanned)
    (h : Unfinished.empty.advanceAll rules ts = .ok (awaiting doneRev around)) :
    Inside rules.readsForms around ts := by
  have hempty : Unfinished.empty.Begun rules.readsForms [] := Inside.topLevel .nil
  exact begun_awaiting_iff.1 (hempty.advanceAll hts h)

end Unfinished

/-! ## Every segment is read -/

/-- Without a limit there is always room. -/
theorem Rules.hasRoom_of_nestingLimit_eq_none {rules : Rules} (h : rules.nestingLimit = none)
    (n : Nat) : rules.HasRoom n := by
  intro limit hlimit
  rw [h] at hlimit
  cases hlimit

theorem Rules.allows_of_nestingLimit_eq_none {rules : Rules} (h : rules.nestingLimit = none)
    (depth : Nat) : rules.allows depth = true := by
  simp [allows, h]

namespace Unfinished

variable {rules : Rules} (hlimit : rules.nestingLimit = none) {doneRev : List Expr}
  {around : List Waiting}

include hlimit

/-- A parenthesis where an expression is to start begins a list. -/
theorem advanceAll_opening_cons (ts : List Token) :
    (awaiting doneRev around).advanceAll rules (.opening :: ts) =
      (awaiting doneRev (.head :: around)).advanceAll rules ts :=
  advanceAll_cons_of_ok (advance_opening (Rules.allows_of_nestingLimit_eq_none hlimit _)) ts

/-- A keyword behind it begins a form. -/
theorem advanceAll_opening_keyword {k : Keyword} {innermost : Innermost} (hk : k ≠ .quote)
    (hforms : rules.readsForms = true)
    (h : Innermost.ofHead true (.identifier k.word) = innermost) (lexeme : String)
    (ts : List Token) :
    (awaiting doneRev around).advanceAll rules
        (.opening :: .word (.keyword k) lexeme :: ts) =
      (within innermost around doneRev).advanceAll rules ts := by
  rw [advanceAll_opening_cons hlimit]
  exact advanceAll_cons_of_ok (advance_headKeyword hk hforms h lexeme) ts

theorem advanceAll_expression {e : Expr} {w : Waiting} {innermost : Innermost}
    (he : Derives rules.readsForms ts e)
    (hquote : w = .head → rules.readsForms = true → beginsWithQuoteWord ts = false)
    (htake : w.take rules.readsForms e = .inr innermost) :
    (awaiting doneRev (w :: around)).advanceAll rules ts =
      .ok (within innermost around doneRev) := by
  have hread : (awaiting doneRev (w :: around)).advanceAll rules ts =
      .ok (finish rules.readsForms doneRev (w :: around) e) :=
    advanceAll_of_derives he (w :: around)
      (Rules.hasRoom_of_nestingLimit_eq_none hlimit _) (by simpa using hquote)
  rw [hread, finish, htake]

/-- The beginning of a list leads to where its expressions go. -/
theorem advanceAll_of_begun_sequence {sequence : OpenEnded} {first : List Expr}
    (h : sequence.Begun rules.readsForms ts first) :
    (awaiting doneRev around).advanceAll rules ts =
      .ok (awaiting doneRev (.items sequence first :: around)) := by
  -- Without a limit there is always room, so each beginning is read as the grammar has it.
  cases h with
  | plain hplain hhead =>
    have htake := Innermost.ofHead_plain fun hforms => (hplain hforms).2
    rw [advanceAll_opening_cons hlimit]
    exact advanceAll_expression hlimit hhead (fun _ hforms => (hplain hforms).1)
      (congrArg Sum.inr htake)
  | @call k lexeme hforms hk =>
    have hquote : k ≠ .quote := by
      rintro rfl
      simp [Keyword.builtInFunctions] at hk
    rw [advanceAll_opening_keyword hlimit hquote hforms (Innermost.ofHead_builtIn hk)]
    rfl
  | @lambdaCall ts parameters body hforms hhead =>
    have hquote : beginsWithQuoteWord ts = false := by
      cases hhead
      rfl
    rw [advanceAll_opening_cons hlimit]
    exact advanceAll_expression hlimit hhead (fun _ _ => hquote)
      (by simp [Waiting.take, Innermost.ofHead, hforms])
  | @func t ps name parameters lexeme hforms hname hparameters =>
    rw [advanceAll_opening_keyword hlimit (by decide) hforms Innermost.ofHead_func,
      advanceAll_cons_of_ok (advance_funcName hname), ← List.append_nil ps,
      advanceAll_parameterList hparameters]
    rfl
  | @prog ps parameters lexeme hforms hparameters =>
    rw [advanceAll_opening_keyword hlimit (by decide) hforms Innermost.ofHead_prog,
      ← List.append_nil ps, advanceAll_parameterList hparameters]
    rfl
  | whileLoop lexeme hforms hcondition =>
    rw [advanceAll_opening_keyword hlimit (by decide) hforms Innermost.ofHead_whileLoop]
    exact advanceAll_expression hlimit (w := .whileCondition) hcondition (by simp) rfl

/-- A segment leads one level further in. -/
theorem advanceAll_of_begun {w : Waiting} (hw : w.Begun rules.readsForms ts)
    (hfits : FitsInside rules.readsForms around ts) :
    (awaiting doneRev around).advanceAll rules ts =
      .ok (awaiting doneRev (w :: around)) := by
  cases hw with
  | tick hq =>
    have hallows := Rules.allows_of_nestingLimit_eq_none hlimit around.length
    exact advanceAll_singleton (advance_quotation hq hallows hfits.isQuoteKeyword_eq_false)
  | head => exact advanceAll_opening_cons hlimit []
  | quoted lexeme hforms =>
    rw [advanceAll_opening_cons hlimit]
    exact advanceAll_singleton (advance_headQuote hforms lexeme)
  | setqValue lexeme hforms hname =>
    rw [advanceAll_opening_keyword hlimit (by decide) hforms Innermost.ofHead_setq]
    exact advanceAll_singleton (advance_setqName hname)
  | condTest lexeme hforms =>
    rw [advanceAll_opening_keyword hlimit (by decide) hforms Innermost.ofHead_cond]
    rfl
  | condYes lexeme hforms htest =>
    rw [advanceAll_opening_keyword hlimit (by decide) hforms Innermost.ofHead_cond]
    exact advanceAll_expression hlimit (w := .condTest) htest (by simp) rfl
  | @condNo ts us test yes lexeme hforms htest hyes =>
    have hfirst : (awaiting doneRev (.condTest :: around)).advanceAll rules ts =
        .ok (awaiting doneRev (.condYes test :: around)) :=
      advanceAll_expression hlimit (w := .condTest) htest (by simp) rfl
    have hsecond : (awaiting doneRev (.condYes test :: around)).advanceAll rules us =
        .ok (awaiting doneRev (.condNo test yes :: around)) :=
      advanceAll_expression hlimit (w := .condYes test) hyes (by simp) rfl
    rw [advanceAll_opening_keyword hlimit (by decide) hforms Innermost.ofHead_cond]
    exact (advanceAll_append_of_ok hfirst us).trans hsecond
  | @lambdaBody ps parameters lexeme hforms hparameters =>
    rw [advanceAll_opening_keyword hlimit (by decide) hforms Innermost.ofHead_lambda,
      ← List.append_nil ps, advanceAll_parameterList hparameters]
    rfl
  | whileCondition lexeme hforms =>
    rw [advanceAll_opening_keyword hlimit (by decide) hforms Innermost.ofHead_whileLoop]
    rfl
  | @items ts us sequence first items hsequence hitems =>
    rw [advanceAll_append_of_ok (advanceAll_of_begun_sequence hlimit hsequence)]
    exact advanceAll_items_of_derivesAll hitems around sequence first
      (Rules.hasRoom_of_nestingLimit_eq_none hlimit _)

/-- The places where an expression starts are reached.  The induction is on the segments. -/
theorem exists_advanceAll_of_inside (h : Inside rules.readsForms around ts) :
    ∃ doneRev, Unfinished.empty.advanceAll rules ts = .ok (awaiting doneRev around) := by
  induction h with
  | @topLevel ts es hes =>
    exact ⟨_, advanceAll_topLevel_of_derivesAll hes []
      (Rules.hasRoom_of_nestingLimit_eq_none hlimit _)⟩
  | within haround hfits hw ih =>
    obtain ⟨doneRev, hread⟩ := ih
    exact ⟨doneRev, (advanceAll_append_of_ok hread _).trans (advanceAll_of_begun hlimit hw hfits)⟩

/-- A reader without a limit is where the tokens say it is. -/
theorem exists_advanceAll_eq_awaiting_iff (hts : ∀ t ∈ ts, t.Scanned) :
    (∃ doneRev, Unfinished.empty.advanceAll rules ts = .ok (awaiting doneRev around)) ↔
      Inside rules.readsForms around ts := by
  constructor
  · rintro ⟨doneRev, hread⟩
    exact inside_of_advanceAll hts hread
  · exact exists_advanceAll_of_inside hlimit

/-- **A token begins a list or quotation inside `n` others** exactly if a reader without a limit
goes deeper with it, from a state of depth `n`. -/
theorem beginsInside_iff {n : Nat} {t : Token} (hts : ∀ t ∈ ts, t.Scanned) :
    t.BeginsInside rules.readsForms n ts ↔
      ∃ u, Unfinished.empty.advanceAll rules ts = .ok u ∧
        u.enters rules.readsForms t = true ∧ u.depth = n := by
  constructor
  · rintro ⟨hbegins, around, rfl, hinside, hfits⟩
    obtain ⟨doneRev, hread⟩ := (exists_advanceAll_eq_awaiting_iff hlimit hts).2 hinside
    exact ⟨_, hread, enters_awaiting_iff.2 ⟨hbegins, hfits⟩, depth_awaiting⟩
  · rintro ⟨u, hread, henters, rfl⟩
    obtain ⟨doneRev, around, rfl⟩ := exists_eq_awaiting_of_enters henters
    obtain ⟨hbegins, hfits⟩ := enters_awaiting_iff.1 henters
    have hinside := (exists_advanceAll_eq_awaiting_iff hlimit hts).1 ⟨doneRev, hread⟩
    exact ⟨hbegins, around, depth_awaiting.symm, hinside, hfits⟩

end Unfinished

end SmallLisp
