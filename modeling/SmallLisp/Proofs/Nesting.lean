import SmallLisp.Proofs.Acceptance

/-!
# The nesting limit

A list or quotation is refused if too many are begun and unfinished around it.  That is all the
limit does: one step with a limit is the step without one, or the refusal
(`Unfinished.advance_eq_ite`), and so is a whole run (`Unfinished.readFrom_eq_or_nestingTooDeep`).

How many are begun and unfinished can also be told from the tokens, without looking at what they
mean.  An opening parenthesis and a tick open something; a quotation is closed by the end of the
expression in it, everything else by its closing parenthesis.  `Unfinished.openings` is what is
open in a state, and a token does to it what `Token.openings` says, in every dialect
(`Unfinished.openings_of_advance`).  Only the word `quote` has to be kept out, which may or may
not open a quotation.  The parenthesis in front of parameters counts here, although the nesting
limit leaves it out.
-/

namespace SmallLisp

/-! ## What the limit refuses -/

/-- Whether a token begins a list or a quotation where an expression is to start. -/
def Token.begins (t : Token) : Bool := t.kind == .openParen || t.kind == .keyword .quote

/-- The same rules without a limit. -/
def Rules.unlimited (rules : Rules) : Rules := { rules with nestingLimit := none }

namespace Unfinished

/-- Whether a token goes one level deeper: it begins a list or a quotation, and an expression is
to start.  In a dialect with forms the word `quote` at the head of a list makes the list a
quotation, and that list has begun already. -/
def enters (readsForms : Bool) (t : Token) : Unfinished → Bool
  | topLevel _ => t.begins
  | within (.expecting .head) _ _ => t.begins && !(readsForms && t.isQuoteKeyword)
  | within (.expecting _) _ _ => t.begins
  | within _ _ _ => false

variable {rules : Rules} {doneRev : List Expr} {around : List Waiting} {u v : Unfinished}
  {t : Token}

theorem start_eq_ite :
    start rules doneRev around t =
      if t.begins && !rules.allows around.length then .error .nestingTooDeep
      else start rules.unlimited doneRev around t := by
  obtain ⟨kind, literal⟩ := t
  have hunlimited : rules.unlimited.allows around.length = true := rfl
  have hforms : rules.unlimited.readsForms = rules.readsForms := rfl
  cases hallows : rules.allows around.length with
  | true => simp [start, hallows, hunlimited, hforms]
  | false =>
    cases kind with
    | keyword k => cases k <;> simp [start, Token.begins, hallows, hforms]
    | _ => simp [start, Token.begins, hallows, hforms]

theorem start_unlimited_ne_nestingTooDeep :
    start rules.unlimited doneRev around t ≠ .error .nestingTooDeep := by
  have hunlimited : rules.unlimited.allows around.length = true := rfl
  simp only [start, hunlimited, if_true]
  split
  · simp
  · simp
  · split <;> simp

/-- Apart from where an expression starts, the limit is not asked for. -/
theorem advance_eq_of_start_eq
    (h : ∀ doneRev around, start rules doneRev around t = start rules.unlimited doneRev around t) :
    u.advance rules t = u.advance rules.unlimited t := by
  simp only [advance, move, h]
  rfl

@[simp] theorem depth_awaiting : (awaiting doneRev around).depth = around.length := by
  cases around <;> rfl

theorem enters_awaiting {readsForms : Bool}
    (hhead : around.head? = some .head → (readsForms && t.isQuoteKeyword) = false) :
    (awaiting doneRev around).enters readsForms t = t.begins := by
  cases around with
  | nil => rfl
  | cons w around =>
    cases w with
    | head =>
      change (t.begins && !(readsForms && t.isQuoteKeyword)) = t.begins
      rw [hhead rfl, Bool.not_false, Bool.and_true]
    | _ => rfl

theorem enters_eq_false_of_begins {readsForms : Bool} (h : t.begins = false) :
    u.enters readsForms t = false := by
  unfold enters
  split <;> simp [h]

/-- Where an expression is to start, the limit is asked for a list or a quotation. -/
theorem advance_awaiting_eq_ite (hbegins : t.begins = true)
    (hhead : around.head? = some .head → (rules.readsForms && t.isQuoteKeyword) = false) :
    (awaiting doneRev around).advance rules t =
      if rules.allows around.length then (awaiting doneRev around).advance rules.unlimited t
      else .error .nestingTooDeep := by
  have hkind : t.kind = .openParen ∨ t.kind = .keyword .quote := by
    simpa [Token.begins] using hbegins
  have hclose : t.kind ≠ .closeParen := by rcases hkind with h | h <;> simp [h]
  have heof : t.kind ≠ .eof := by rcases hkind with h | h <;> simp [h]
  have hunlimited : (awaiting doneRev around).advance rules.unlimited t =
      start rules.unlimited doneRev around t := advance_awaiting hclose heof hhead
  rw [hunlimited, advance_awaiting hclose heof hhead, start_eq_ite, hbegins, Bool.true_and]
  cases rules.allows around.length <;> rfl

/-- A step with a limit is a step without one, or the refusal to go deeper. -/
theorem advance_eq_ite :
    u.advance rules t =
      if u.enters rules.readsForms t && !rules.allows u.depth then .error .nestingTooDeep
      else u.advance rules.unlimited t := by
  -- A token that begins nothing is not affected by a limit, and one that begins something only
  -- where an expression is to start.
  cases hbegins : t.begins with
  | false =>
    have hstart : ∀ doneRev around,
        start rules doneRev around t = start rules.unlimited doneRev around t := by
      intro doneRev around
      rw [start_eq_ite, hbegins]
      rfl
    rw [enters_eq_false_of_begins hbegins, advance_eq_of_start_eq hstart]
    rfl
  | true =>
    have hawaiting : ∀ doneRev around,
        (around.head? = some .head → (rules.readsForms && t.isQuoteKeyword) = false) →
        (awaiting doneRev around).advance rules t =
          if (awaiting doneRev around).enters rules.readsForms t &&
              !rules.allows (awaiting doneRev around).depth then .error .nestingTooDeep
          else (awaiting doneRev around).advance rules.unlimited t := by
      intro doneRev around hhead
      rw [advance_awaiting_eq_ite hbegins hhead, enters_awaiting hhead, hbegins, depth_awaiting]
      cases rules.allows around.length <;> rfl
    cases u with
    | topLevel doneRev => exact hawaiting doneRev [] (by simp)
    | within innermost around doneRev =>
      cases innermost with
      | expecting w =>
        -- Behind an opening parenthesis the word `quote` names the form, which is inside already.
        by_cases hquote : w = .head ∧ (rules.readsForms && t.isQuoteKeyword) = true
        · obtain ⟨rfl, hquote⟩ := hquote
          have henters : (within (.expecting .head) around doneRev).enters rules.readsForms t =
              false := by rw [enters, hquote, Bool.not_true, Bool.and_false]
          have hmove : (within (.expecting .head) around doneRev).advance rules t =
              (within (.expecting .head) around doneRev).advance rules.unlimited t := by
            have hquote' : (rules.unlimited.readsForms && t.isQuoteKeyword) = true := hquote
            simp only [advance, move, hquote, hquote', if_true]
            rfl
          rw [henters, hmove]
          rfl
        · refine hawaiting doneRev (w :: around) fun hhead => Bool.eq_false_iff.2 fun h => ?_
          exact hquote ⟨by simpa using hhead, h⟩
      | _ => rfl

/-- Nothing is nested too deep without a limit. -/
theorem advance_unlimited_ne_nestingTooDeep :
    u.advance rules.unlimited t ≠ .error .nestingTooDeep := by
  have hstarted : ∀ doneRev around,
      (start rules.unlimited doneRev around t).map (fun u => (t.kind, u)) ≠
        .error .nestingTooDeep := by
    intro doneRev around h
    cases hstart : start rules.unlimited doneRev around t with
    | ok v => simp [hstart, Except.map] at h
    | error error =>
      rw [hstart] at h
      cases h
      exact start_unlimited_ne_nestingTooDeep hstart
  intro h
  have hmove : u.move rules.unlimited t = .error .nestingTooDeep := by
    unfold advance at h
    split at h
    · next herror =>
      cases h
      exact herror
    · split at h <;> simp at h
  unfold move at hmove
  repeat' split at hmove
  all_goals first
    | exact hstarted _ _ hmove
    | simp at hmove

/-- What is refused as nested too deep is a list or a quotation in a place that has no room for
one. -/
theorem advance_eq_nestingTooDeep_iff :
    u.advance rules t = .error .nestingTooDeep ↔
      u.enters rules.readsForms t = true ∧ rules.allows u.depth = false := by
  rw [advance_eq_ite]
  constructor
  · intro h
    split at h
    · next hrefused => simpa using hrefused
    · exact absurd h advance_unlimited_ne_nestingTooDeep
  · rintro ⟨henters, hallows⟩
    rw [henters, hallows]
    rfl

theorem advance_eq_unlimited (h : u.advance rules t ≠ .error .nestingTooDeep) :
    u.advance rules t = u.advance rules.unlimited t := by
  rw [advance_eq_ite] at h ⊢
  split at h
  · exact absurd rfl h
  · next hroom => rw [if_neg hroom]

/-- A run with a limit is a run without one, or it ends with the refusal to go deeper. -/
theorem readFrom_eq_or_nestingTooDeep (rules : Rules) (ending : StreamEnd) (u : Unfinished)
    (ts : List (Positioned Token)) :
    u.readFrom rules ending ts = u.readFrom rules.unlimited ending ts ∨
      ∃ position, u.readFrom rules ending ts = .error ⟨.grammatical .nestingTooDeep, position⟩ := by
  induction ts generalizing u with
  | nil => exact .inl rfl
  | cons t ts ih =>
    by_cases hdeep : u.advance rules t.value = .error .nestingTooDeep
    · exact .inr ⟨t.position, by rw [readFrom, hdeep]⟩
    · rw [readFrom, readFrom, advance_eq_unlimited hdeep]
      cases u.advance rules.unlimited t.value with
      | error error => exact .inl rfl
      | ok v => exact ih v

end Unfinished

/-- **What the grammar derives from the tokens of a text is read**, or it is nested too deep. -/
theorem readProgram_eq_ok_or_nestingTooDeep {d : Dialect} {source : String} {p : Program}
    (hending : ∃ position, (TokenStream.ofSource d source).ending = .endOfInput position)
    (hderives : DerivesAll d.readsForms
      ((TokenStream.ofSource d source).significant.map (·.value)) p.expressions) :
    readProgram d source = .ok p ∨
      ∃ position, readProgram d source = .error ⟨.grammatical .nestingTooDeep, position⟩ := by
  rw [readProgram_eq_readFrom]
  have hunlimited : Unfinished.empty.readFrom d.rules.unlimited
      (TokenStream.ofSource d source).ending (TokenStream.ofSource d source).significant =
        .ok p := by
    have hroom : d.rules.unlimited.HasRoom (Expr.depthAll p.expressions) := by
      intro limit hlimit
      cases hlimit
    have hall := Unfinished.advanceAll_topLevel_of_derivesAll hderives [] hroom
    rw [List.append_nil] at hall
    exact Unfinished.readFrom_eq_ok_iff.2 ⟨hending, hall⟩
  have hcases := Unfinished.readFrom_eq_or_nestingTooDeep d.rules
    (TokenStream.ofSource d source).ending .empty (TokenStream.ofSource d source).significant
  rwa [hunlimited] at hcases

/-! ## What is open -/

/-- Whether something begun is a quotation, which is closed by the end of the expression in it. -/
def Waiting.isTick : Waiting → Bool
  | .tick => true
  | _ => false

/-- What the innermost list, form or quotation has open.  Parameters are inside a form. -/
def Innermost.openings : Innermost → List Bool
  | .expecting w => [w.isTick]
  | .parameters _ _ => [false, false]
  | _ => [false]

/-- What is open in a state, from the inside out: quotations, and everything that is closed by a
parenthesis. -/
def Unfinished.openings : Unfinished → List Bool
  | topLevel _ => []
  | within innermost around _ => innermost.openings ++ around.map Waiting.isTick

/-- What is open behind a token, given what is open in front of it.  The quotations that are
innermost are closed by the end of an expression. -/
def Token.openings (t : Token) (opened : List Bool) : List Bool :=
  match t.kind with
  | .openParen => false :: opened
  | .keyword .quote => true :: opened
  | .closeParen => opened.tail.dropWhile id
  | _ => opened.dropWhile id

/-- A list goes on behind its head with one parenthesis to be closed. -/
theorem Innermost.openings_ofHead (readsForms : Bool) (e : Expr) :
    (ofHead readsForms e).openings = [false] := by
  unfold ofHead
  repeat' split
  all_goals rfl

/-- What takes in an expression and goes on has one parenthesis to be closed, before and after. -/
theorem Waiting.openings_of_take {readsForms : Bool} {w : Waiting} {e : Expr}
    {innermost : Innermost} (h : w.take readsForms e = .inr innermost) :
    innermost.openings = [false] ∧ w.isTick = false := by
  cases w with
  | tick => simp [take] at h
  | head =>
    cases h
    exact ⟨Innermost.openings_ofHead readsForms e, rfl⟩
  | _ =>
    cases h
    exact ⟨rfl, rfl⟩

theorem Waiting.isTick_of_take {readsForms : Bool} {w : Waiting} {e finished : Expr}
    (h : w.take readsForms e = .inl finished) : w.isTick = true := by
  cases w with
  | tick => rfl
  | _ => simp [take] at h

namespace Token

variable {t : Token}

/-- An atom ends an expression. -/
theorem openings_of_atom? {e : Expr} (h : t.atom? = some e) (opened : List Bool) :
    t.openings opened = opened.dropWhile id := by
  obtain ⟨kind, literal⟩ := t
  cases kind with
  | keyword k => cases k <;> simp_all [openings, atom?]
  | _ => simp_all [openings, atom?]

/-- So does a name, where it is an expression. -/
theorem openings_of_name? {name : String} (h : t.name? = some name)
    (hquote : t.isQuoteKeyword = false) (opened : List Bool) :
    t.openings opened = opened.dropWhile id := by
  obtain ⟨kind, literal⟩ := t
  cases kind with
  | keyword k => cases k <;> cases literal <;> simp_all [openings, name?, isQuoteKeyword]
  | _ => simp_all [openings, name?]

end Token

namespace Unfinished

variable {rules : Rules} {doneRev : List Expr} {around : List Waiting} {u v : Unfinished}
  {t : Token}

/-- The end of an expression closes the quotations around it. -/
theorem openings_finish (readsForms : Bool) (e : Expr) :
    (finish readsForms doneRev around e).openings = (around.map Waiting.isTick).dropWhile id := by
  induction around generalizing e with
  | nil => rfl
  | cons w around ih =>
    rw [finish, List.map_cons]
    cases htake : w.take readsForms e with
    | inl finished =>
      rw [Waiting.isTick_of_take htake, List.dropWhile_cons_of_pos rfl]
      exact ih finished
    | inr innermost =>
      obtain ⟨hopenings, htick⟩ := Waiting.openings_of_take htake
      rw [htick, List.dropWhile_cons_of_neg (by decide)]
      simp [openings, hopenings]

theorem openings_awaiting : (awaiting doneRev around).openings = around.map Waiting.isTick := by
  cases around <;> rfl

theorem openings_of_start (h : start rules doneRev around t = .ok v) :
    v.openings = t.openings (around.map Waiting.isTick) := by
  simp only [start] at h
  split at h
  · next hkind =>
    split at h
    · cases h
      simp [openings, Innermost.openings, Waiting.isTick, Token.openings, hkind]
    · cases h
  · next hkind =>
    split at h
    · cases h
      simp [openings, Innermost.openings, Waiting.isTick, Token.openings, hkind]
    · cases h
  · split at h
    · next e hatom =>
      cases h
      rw [openings_finish, Token.openings_of_atom? hatom]
    · cases h

theorem kind_ne_eof_of_advance (h : u.advance rules t = .ok v) : t.kind ≠ .eof := by
  intro heof
  unfold advance at h
  split at h
  · cases h
  · next expected w hmove =>
    have hne := Reader.kind_ne_eof_of_move hmove heof
    rw [heof, if_neg hne.symm] at h
    cases h

/-- No expression starts with a closing parenthesis. -/
theorem start_of_kind_eq_closeParen (hclose : t.kind = .closeParen) (doneRev : List Expr)
    (around : List Waiting) : start rules doneRev around t = .error (.unexpectedToken t) := by
  simp [start, Token.atom?, hclose]

/-- A closing parenthesis closes what is innermost, and the expression that it ends closes the
quotations around. -/
theorem openings_of_advance_closing (hclose : t.kind = .closeParen)
    (h : u.advance rules t = .ok v) : v.openings = u.openings.tail.dropWhile id := by
  -- Where an expression has to start, a closing parenthesis is refused.
  have hstart : ∀ doneRev around, start rules doneRev around t = .error (.unexpectedToken t) :=
    start_of_kind_eq_closeParen hclose
  have hname : t.name? = none := by simp [Token.name?, hclose]
  cases u with
  | topLevel doneRev => simp [advance, move, hstart, Except.map] at h
  | within innermost around doneRev =>
    cases innermost with
    | expecting w =>
      cases w with
      | head =>
        simp only [advance, move, hclose, if_true, Except.ok.injEq] at h
        rw [← h, openings_finish]
        rfl
      | condNo test yes =>
        simp only [advance, move, hclose, if_true, Except.ok.injEq] at h
        rw [← h, openings_finish]
        rfl
      | items sequence itemsRev =>
        have hends : endsSequence t = true := by simp [endsSequence, hclose]
        simp only [advance, move, hclose, hends, if_true, Except.ok.injEq] at h
        rw [← h, openings_finish]
        rfl
      | _ => simp [advance, move, hstart, Except.map] at h
    | parameters form namesRev =>
      have hends : endsSequence t = true := by simp [endsSequence, hclose]
      simp only [advance, move, hclose, hends, if_true, Except.ok.injEq] at h
      rw [← h]
      cases form <;> rfl
    | closing e =>
      simp only [advance, move, hclose, if_true, Except.ok.injEq] at h
      rw [← h, openings_finish]
      rfl
    | _ => simp [advance, move, hname, hclose] at h

/-- A token opens and closes the same in every dialect. -/
theorem openings_of_advance (hquote : t.isQuoteKeyword = false)
    (h : u.advance rules t = .ok v) : v.openings = t.openings u.openings := by
  by_cases hclose : t.kind = .closeParen
  · rw [openings_of_advance_closing hclose h, Token.openings, hclose]
  have heof := kind_ne_eof_of_advance h
  have hends : endsSequence t = false := by simp [endsSequence, hclose, heof]
  -- Where an expression is to start the token opens what it opens; elsewhere only names and
  -- parameter lists go on, which open nothing that is counted.
  have hawaiting : ∀ doneRev around, (awaiting doneRev around).advance rules t = .ok v →
      v.openings = t.openings (awaiting doneRev around).openings := by
    intro doneRev around h
    rw [advance_awaiting hclose heof (by simp [hquote])] at h
    rw [openings_awaiting, openings_of_start h]
  cases u with
  | topLevel doneRev => exact hawaiting doneRev [] h
  | within innermost around doneRev =>
    cases innermost with
    | expecting w => exact hawaiting doneRev (w :: around) h
    | parametersOpen form =>
      by_cases hopen : t.kind = .openParen
      · simp only [advance, move, hopen, if_true, Except.ok.injEq] at h
        rw [← h, Token.openings, hopen]
        rfl
      · simp [advance, move, hopen] at h
    | closing e => simp [advance, move, hclose] at h
    | setqName =>
      cases hname : t.name? with
      | none => simp [advance, move, hname] at h
      | some name =>
        simp only [advance, move, hname, if_true, Except.ok.injEq] at h
        rw [← h, Token.openings_of_name? hname hquote]
        rfl
    | funcName =>
      cases hname : t.name? with
      | none => simp [advance, move, hname] at h
      | some name =>
        simp only [advance, move, hname, if_true, Except.ok.injEq] at h
        rw [← h, Token.openings_of_name? hname hquote]
        rfl
    | parameters form namesRev =>
      cases hname : t.name? with
      | none => simp [advance, move, hends, hname] at h
      | some name =>
        simp only [advance, move, hends, hname, Bool.false_eq_true, if_false, if_true,
          Except.ok.injEq] at h
        rw [← h, Token.openings_of_name? hname hquote]
        rfl

end Unfinished

end SmallLisp
