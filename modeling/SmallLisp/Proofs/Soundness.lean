import SmallLisp.Proofs.Acceptance
import SmallLisp.Proofs.Vocabulary

/-!
# Everything that is read is in the grammar

What has been read so far is a prefix of something, and the invariant of reading says of what: the
tokens of each list, form or quotation begun, followed by the tokens that are still to come, will
derive an expression.  `Waiting.Promises` and `Innermost.Promises` say this for each kind of
thing begun, `Unfinished.Reads` for everything together, and one token keeps it
(`Unfinished.Reads.advance`).  What one token can do is said once, by `Unfinished.Step`, and the
invariant has one case for each of these things.

Two things ride along.  An expression `k` levels inside is nested at most `limit - k` deep, since
a list or quotation is only begun while there is room.  And where the head of a list is being
read in a dialect with forms, its first token was not the word `quote`, because that word would
have made the list a quotation.
-/

namespace SmallLisp

/-- The tokens of an expression that is nested at most `room` deep. -/
structure DerivesWithin (readsForms : Bool) (room : Nat) (ts : List Token) (e : Expr) : Prop where
  derives : Derives readsForms ts e
  depth_le : e.depth ≤ room

/-- The tokens of a sequence of expressions that are nested at most `room` deep. -/
structure DerivesAllWithin (readsForms : Bool) (room : Nat) (ts : List Token) (es : List Expr) :
    Prop where
  derives : DerivesAll readsForms ts es
  depth_le : Expr.depthAll es ≤ room

variable {readsForms : Bool} {room limit : Nat} {ts us vs : List Token}

theorem DerivesAllWithin.nil : DerivesAllWithin readsForms room [] [] :=
  ⟨.nil, Nat.zero_le _⟩

theorem DerivesAllWithin.cons {e : Expr} {es : List Expr}
    (he : DerivesWithin readsForms room ts e) (hes : DerivesAllWithin readsForms room us es) :
    DerivesAllWithin readsForms room (ts ++ us) (e :: es) :=
  ⟨.cons he.derives hes.derives, Nat.max_le.2 ⟨he.depth_le, hes.depth_le⟩⟩

theorem DerivesAllWithin.snoc {e : Expr} {es : List Expr}
    (hes : DerivesAllWithin readsForms room ts es) (he : DerivesWithin readsForms room us e) :
    DerivesAllWithin readsForms room (ts ++ us) (es ++ [e]) := by
  refine ⟨hes.derives.snoc he.derives, ?_⟩
  rw [Expr.depthAll_append]
  exact Nat.max_le.2 ⟨hes.depth_le, Nat.max_le.2 ⟨he.depth_le, Nat.zero_le _⟩⟩

/-! ## What is promised -/

/-- With a closing parenthesis behind them, the tokens derive an expression. -/
def ClosesTo (readsForms : Bool) (room : Nat) (ts : List Token) (e : Expr) : Prop :=
  DerivesWithin readsForms (room + 1) (ts ++ [Token.closing]) e

theorem ClosesTo.of_parenthesized {e : Expr} (h : Derives readsForms (Token.parenthesized us) e)
    (hdepth : e.depth ≤ room + 1) (hts : ts = Token.opening :: us) :
    ClosesTo readsForms room ts e := by
  subst hts
  exact ⟨h, hdepth⟩

/-- What the tokens of something begun promise, if it waits for an expression: whichever
expression within the room comes next, and whatever else is missing behind it, the tokens
altogether derive what is made of the parts. -/
def Waiting.Promises (readsForms : Bool) (room : Nat) (ts : List Token) : Waiting → Prop
  | .tick => ∃ q, ts = [q] ∧ q.kind = .keyword .quote
  | .head => ts = [Token.opening]
  | .quoted => ∀ us e, DerivesWithin readsForms room us e →
      ClosesTo readsForms room (ts ++ us) (.quote e)
  | .setqValue name => ∀ us e, DerivesWithin readsForms room us e →
      ClosesTo readsForms room (ts ++ us) (.setq name e)
  | .condTest => ∃ lexeme, readsForms = true ∧
      ts = [Token.opening, .word (.keyword .cond) lexeme]
  | .condYes test => ∃ us lexeme, readsForms = true ∧
      ts = Token.opening :: .word (.keyword .cond) lexeme :: us ∧
      DerivesWithin readsForms room us test
  | .condNo test yes => ClosesTo readsForms room ts (.cond test yes none) ∧
      ∀ us e, DerivesWithin readsForms room us e →
        ClosesTo readsForms room (ts ++ us) (.cond test yes (some e))
  | .lambdaBody parameters => ∀ us e, DerivesWithin readsForms room us e →
      ClosesTo readsForms room (ts ++ us) (.lambda parameters e)
  | .whileCondition => ∃ lexeme, readsForms = true ∧
      ts = [Token.opening, .word (.keyword .whileLoop) lexeme]
  | .items sequence itemsRev => ∀ us es, DerivesAllWithin readsForms room us es →
      ClosesTo readsForms room (ts ++ us) (sequence.close (itemsRev.reverse ++ es))

/-- What the tokens of a form promise in front of its parameters. -/
def Parametric.Promises (readsForms : Bool) (room : Nat) (ts : List Token) (form : Parametric) :
    Prop :=
  ∀ ps names w, ParameterList ps names → form.afterParameters names = .expecting w →
    w.Promises readsForms room (ts ++ ps)

/-- What the tokens of the innermost thing begun promise. -/
def Innermost.Promises (readsForms : Bool) (room : Nat) (ts : List Token) : Innermost → Prop
  | .expecting w => w.Promises readsForms room ts
  | .setqName => ∀ t name, t.Names name →
      (Waiting.setqValue name).Promises readsForms room (ts ++ [t])
  | .funcName => ∀ t name, t.Names name →
      (Parametric.func name).Promises readsForms room (ts ++ [t])
  | .parametersOpen form => form.Promises readsForms room ts
  | .parameters form namesRev => ∃ us vs, ts = us ++ Token.opening :: vs ∧
      form.Promises readsForms room us ∧ List.Forall₂ Token.Names vs namesRev.reverse
  | .closing e => ClosesTo readsForms room ts e

/-! ## What a keyword at the head of a list promises -/

theorem promises_setqName (hforms : readsForms = true) (lexeme : String) :
    Innermost.setqName.Promises readsForms room
      [Token.opening, .word (.keyword .setq) lexeme] := by
  intro t name hname us e he
  exact .of_parenthesized (.setq lexeme hforms hname he.derives)
    (Nat.succ_le_succ he.depth_le) (by simp)

theorem promises_funcName (hforms : readsForms = true) (lexeme : String) :
    Innermost.funcName.Promises readsForms room
      [Token.opening, .word (.keyword .func) lexeme] := by
  intro t name hname ps names w hparameters hw
  cases hw
  intro us es hes
  exact .of_parenthesized (.func lexeme hforms hname hparameters hes.derives)
    (Nat.succ_le_succ hes.depth_le) (by simp)

theorem promises_lambda (hforms : readsForms = true) (lexeme : String) :
    (Innermost.parametersOpen .lambda).Promises readsForms room
      [Token.opening, .word (.keyword .lambda) lexeme] := by
  intro ps names w hparameters hw
  cases hw
  intro us e he
  exact .of_parenthesized (.lambda lexeme hforms hparameters he.derives)
    (Nat.succ_le_succ he.depth_le) (by simp)

theorem promises_prog (hforms : readsForms = true) (lexeme : String) :
    (Innermost.parametersOpen .prog).Promises readsForms room
      [Token.opening, .word (.keyword .prog) lexeme] := by
  intro ps names w hparameters hw
  cases hw
  intro us es hes
  exact .of_parenthesized (.prog lexeme hforms hparameters hes.derives)
    (Nat.succ_le_succ hes.depth_le) (by simp)

theorem promises_call {k : Keyword} (hforms : readsForms = true)
    (hk : k ∈ Keyword.builtInFunctions) (lexeme : String) :
    (Innermost.expecting (.items (.call k.word) [])).Promises readsForms room
      [Token.opening, .word (.keyword k) lexeme] := by
  intro us es hes
  exact .of_parenthesized (.call lexeme hforms hk hes.derives)
    (Nat.succ_le_succ hes.depth_le) (by simp)

/-- The name of a form or of a built-in function was written as a keyword, since identifiers are
never called like one. -/
theorem Derives.eq_word_of_headsForm {name : String}
    (h : Derives readsForms us (.identifier name))
    (hform : (Expr.identifier name).headsForm = true) :
    ∃ k lexeme, k ≠ .quote ∧ name = k.word ∧ us = [.word (.keyword k) lexeme] := by
  cases h with
  | identifier hname => simp [Expr.headsForm_identifier, hname] at hform
  | keyword lexeme hk => exact ⟨_, lexeme, hk, rfl, rfl⟩

/-- What a head promises: behind the opening parenthesis and the tokens of the head, the list
goes on as `Innermost.ofHead` has it. -/
theorem promises_ofHead {e : Expr} (he : DerivesWithin readsForms room us e)
    (hquote : readsForms = true → beginsWithQuoteWord us = false) :
    (Innermost.ofHead readsForms e).Promises readsForms room (Token.opening :: us) := by
  -- A form decides how the list goes on; any other head is the first item of a plain list.
  by_cases hform : readsForms = true ∧ e.headsForm = true
  · obtain ⟨hforms, hhead⟩ := hform
    cases e with
    | identifier name =>
      obtain ⟨k, lexeme, hk, rfl, rfl⟩ := he.derives.eq_word_of_headsForm hhead
      subst hforms
      rcases Keyword.mem_specialForms_or_mem_builtInFunctions k with hspecial | hbuiltIn
      · simp only [Keyword.specialForms, List.mem_cons, List.not_mem_nil, or_false] at hspecial
        rcases hspecial with rfl | rfl | rfl | rfl | rfl | rfl | rfl
        · exact absurd rfl hk
        · rw [Innermost.ofHead_setq]
          exact promises_setqName rfl lexeme
        · rw [Innermost.ofHead_cond]
          exact ⟨lexeme, rfl, rfl⟩
        · rw [Innermost.ofHead_func]
          exact promises_funcName rfl lexeme
        · rw [Innermost.ofHead_lambda]
          exact promises_lambda rfl lexeme
        · rw [Innermost.ofHead_prog]
          exact promises_prog rfl lexeme
        · rw [Innermost.ofHead_whileLoop]
          exact ⟨lexeme, rfl, rfl⟩
      · rw [Innermost.ofHead_builtIn hbuiltIn]
        exact promises_call rfl hbuiltIn lexeme
    | lambda parameters body =>
      subst hforms
      intro vs es hes
      have hbody : body.depth + 1 ≤ room := he.depth_le
      exact .of_parenthesized (.lambdaCall rfl he.derives hes.derives)
        (Nat.succ_le_succ (Nat.max_le.2 ⟨hbody, hes.depth_le⟩)) (by simp)
    | _ => simp [Expr.headsForm] at hhead
  · have hplain : readsForms = true → e.headsForm = false := by
      intro hforms
      rw [Bool.eq_false_iff]
      exact fun hhead => hform ⟨hforms, hhead⟩
    rw [Innermost.ofHead_plain hplain]
    intro vs es hes
    exact .of_parenthesized
      (.list (fun hforms => ⟨hquote hforms, hplain hforms⟩) he.derives hes.derives)
      (Nat.succ_le_succ (Nat.max_le.2 ⟨he.depth_le, hes.depth_le⟩)) (by simp)

/-! ## One expression more -/

/-- What waits for an expression keeps its promise when it gets one and goes on. -/
theorem promises_of_take {w : Waiting} {e : Expr} {innermost : Innermost}
    (hw : w.Promises readsForms room ts) (he : DerivesWithin readsForms room us e)
    (hquote : w = .head → readsForms = true → beginsWithQuoteWord us = false)
    (htake : w.take readsForms e = .inr innermost) :
    innermost.Promises readsForms room (ts ++ us) := by
  cases w with
  | tick => simp [Waiting.take] at htake
  | head =>
    cases htake
    cases hw
    exact promises_ofHead he (hquote rfl)
  | quoted =>
    cases htake
    exact hw us e he
  | setqValue name =>
    cases htake
    exact hw us e he
  | condTest =>
    cases htake
    obtain ⟨lexeme, hforms, rfl⟩ := hw
    exact ⟨us, lexeme, hforms, rfl, he⟩
  | condYes test =>
    cases htake
    obtain ⟨us', lexeme, hforms, rfl, htest⟩ := hw
    refine ⟨?_, ?_⟩
    · exact .of_parenthesized (.condTwo lexeme hforms htest.derives he.derives)
        (Nat.succ_le_succ (Nat.max_le.2 ⟨htest.depth_le, he.depth_le⟩)) (by simp)
    · intro vs no hno
      have hdepth := Nat.max_le.2 ⟨he.depth_le, hno.depth_le⟩
      exact .of_parenthesized (.condThree lexeme hforms htest.derives he.derives hno.derives)
        (Nat.succ_le_succ (Nat.max_le.2 ⟨htest.depth_le, hdepth⟩)) (by simp)
  | condNo test yes =>
    cases htake
    exact hw.2 us e he
  | lambdaBody parameters =>
    cases htake
    exact hw us e he
  | whileCondition =>
    cases htake
    obtain ⟨lexeme, hforms, rfl⟩ := hw
    intro vs es hes
    exact .of_parenthesized (.whileLoop lexeme hforms he.derives hes.derives)
      (Nat.succ_le_succ (Nat.max_le.2 ⟨he.depth_le, hes.depth_le⟩)) (by simp)
  | items sequence itemsRev =>
    cases htake
    intro vs es hes
    simpa [ClosesTo] using hw (us ++ vs) (e :: es) (.cons he hes)

/-! ## The invariant -/

/-- Whether tokens can be the beginning of what stands inside `around`: there are some, and they
do not begin with the word `quote` where that word has a meaning of its own. -/
def FitsInside (readsForms : Bool) (around : List Waiting) (ts : List Token) : Prop :=
  ts ≠ [] ∧ (around.head? = some .head → readsForms = true → beginsWithQuoteWord ts = false)

theorem FitsInside.append {around : List Waiting} (h : FitsInside readsForms around ts)
    (us : List Token) : FitsInside readsForms around (ts ++ us) := by
  obtain _ | ⟨t, ts⟩ := ts
  · exact absurd rfl h.1
  · exact ⟨by simp, h.2⟩

theorem FitsInside.isQuoteKeyword_eq_false {around : List Waiting} {t : Token}
    (h : FitsInside readsForms around [t]) (hhead : around.head? = some .head) :
    (readsForms && t.isQuoteKeyword) = false := by
  cases readsForms with
  | false => rfl
  | true => simpa [beginsWithQuoteWord] using h.2 hhead rfl

/-- The tokens of what is finished at the top level and of everything that waits. -/
def ReadsAround (readsForms : Bool) (limit : Nat) (doneRev : List Expr) :
    List Waiting → List Token → Prop
  | [], ts => DerivesAllWithin readsForms limit ts doneRev.reverse
  | w :: around, ts => ∃ us vs, ts = us ++ vs ∧ ReadsAround readsForms limit doneRev around us ∧
      around.length < limit ∧ FitsInside readsForms around vs ∧
      w.Promises readsForms (limit - (around.length + 1)) vs

/-- **The tokens that have been read** to come to a state. -/
def Unfinished.Reads (readsForms : Bool) (limit : Nat) (ts : List Token) : Unfinished → Prop
  | topLevel doneRev => ReadsAround readsForms limit doneRev [] ts
  | within innermost around doneRev => ∃ us vs, ts = us ++ vs ∧
      ReadsAround readsForms limit doneRev around us ∧ around.length < limit ∧
      FitsInside readsForms around vs ∧
      innermost.Promises readsForms (limit - (around.length + 1)) vs

namespace Unfinished

variable {doneRev : List Expr} {around : List Waiting}

/-- Tokens that only change what is innermost. -/
theorem Reads.within_append {innermost innermost' : Innermost}
    (h : (within innermost around doneRev).Reads readsForms limit ts) (us : List Token)
    (hpromise : ∀ room vs, innermost.Promises readsForms room vs →
      innermost'.Promises readsForms room (vs ++ us)) :
    (within innermost' around doneRev).Reads readsForms limit (ts ++ us) := by
  obtain ⟨vs, vs', rfl, haround, hroom, hfits, hi⟩ := h
  exact ⟨vs, vs' ++ us, List.append_assoc vs vs' us, haround, hroom, hfits.append us,
    hpromise _ _ hi⟩

/-- Finishing an expression keeps the invariant.  A tick is finished with the expression behind
it, so the induction is on what is around. -/
theorem reads_finish {e : Expr} (haround : ReadsAround readsForms limit doneRev around us)
    (hfits : FitsInside readsForms around vs)
    (he : DerivesWithin readsForms (limit - around.length) vs e) :
    (finish readsForms doneRev around e).Reads readsForms limit (us ++ vs) := by
  induction around generalizing us vs e with
  | nil =>
    have hdone := haround.snoc he
    rw [← List.reverse_cons] at hdone
    exact hdone
  | cons w around ih =>
    obtain ⟨us', vs', rfl, haround', hroom, hfits', hw⟩ := haround
    rw [List.append_assoc]
    have hquote : w = .head → readsForms = true → beginsWithQuoteWord vs = false :=
      fun hhead => hfits.2 (by rw [hhead]; rfl)
    cases htake : w.take readsForms e with
    | inr innermost =>
      simp only [finish, htake]
      exact ⟨us', vs' ++ vs, rfl, haround', hroom, hfits'.append vs,
        promises_of_take hw he hquote htake⟩
    | inl e' =>
      simp only [finish, htake]
      cases w with
      | tick =>
        cases htake
        obtain ⟨q, rfl, hq⟩ := hw
        -- The quotation is one level further out, where there is room for one level more.
        have hdepth : e.depth + 1 ≤ limit - around.length := by
          have hle := he.depth_le
          simp only [List.length_cons] at hle
          omega
        exact ih haround' (hfits'.append vs) ⟨.quotation hq he.derives, hdepth⟩
      | _ => simp [Waiting.take] at htake

/-- The closing parenthesis finishes what it closes. -/
theorem reads_finish_of_closesTo {e : Expr}
    (haround : ReadsAround readsForms limit doneRev around us) (hroom : around.length < limit)
    (hfits : FitsInside readsForms around vs)
    (he : ClosesTo readsForms (limit - (around.length + 1)) vs e) :
    (finish readsForms doneRev around e).Reads readsForms limit (us ++ vs ++ [Token.closing]) := by
  have hlimit : limit - (around.length + 1) + 1 = limit - around.length := by omega
  rw [ClosesTo, hlimit] at he
  rw [List.append_assoc]
  exact reads_finish haround (hfits.append _) he

end Unfinished

/-! ## What one token can do -/

theorem Token.Scanned.derivesWithin {t : Token} {e : Expr} (ht : t.Scanned)
    (h : t.atom? = some e) : DerivesWithin readsForms room [t] e := by
  cases ht with
  | boolean b =>
    cases h
    exact ⟨.boolean b, Nat.zero_le _⟩
  | identifier hword hfree =>
    cases h
    exact ⟨.identifier (TokenKind.ofName?_eq_none_of_ofWord? hfree), Nat.zero_le _⟩
  | @keyword k letters hword hkeyword =>
    by_cases hk : k = .quote
    · simp [atom?, word, hk] at h
    · simp only [atom?, word, hk, if_false, Option.some.injEq] at h
      subst h
      exact ⟨.keyword _ hk, Nat.zero_le _⟩
  | integer n =>
    cases h
    exact ⟨.integer n, Nat.zero_le _⟩
  | @real x hx =>
    cases h
    exact ⟨.real x, Nat.zero_le _⟩
  | _ => simp [atom?] at h

/-- What a closing parenthesis can finish, and the expression that it is then. -/
inductive Innermost.Closes : Innermost → Expr → Prop
  | head : Closes (.expecting .head) (.list [])
  | condNo (test yes : Expr) : Closes (.expecting (.condNo test yes)) (.cond test yes none)
  | items (sequence : OpenEnded) (itemsRev : List Expr) :
      Closes (.expecting (.items sequence itemsRev)) (sequence.close itemsRev.reverse)
  | closing (e : Expr) : Closes (.closing e) e

namespace Unfinished

variable {rules : Rules} {doneRev : List Expr} {around : List Waiting}

/-- Everything that a token can do to what has been read. -/
inductive Step (rules : Rules) : Unfinished → Token → Unfinished → Prop
  | opening {around : List Waiting} (doneRev : List Expr)
      (hroom : rules.allows around.length = true) :
      Step rules (awaiting doneRev around) .opening (awaiting doneRev (.head :: around))
  | quotation {around : List Waiting} {q : Token} (doneRev : List Expr)
      (hq : q.kind = .keyword .quote) (hfits : FitsInside rules.readsForms around [q])
      (hroom : rules.allows around.length = true) :
      Step rules (awaiting doneRev around) q (awaiting doneRev (.tick :: around))
  | atom {around : List Waiting} {t : Token} {e : Expr} (doneRev : List Expr)
      (hatom : t.atom? = some e) (hfits : FitsInside rules.readsForms around [t]) :
      Step rules (awaiting doneRev around) t (finish rules.readsForms doneRev around e)
  | headQuote (doneRev : List Expr) (around : List Waiting) (lexeme : String)
      (hforms : rules.readsForms = true) :
      Step rules (awaiting doneRev (.head :: around)) (.word (.keyword .quote) lexeme)
        (awaiting doneRev (.quoted :: around))
  | setqName {t : Token} {name : String} (doneRev : List Expr) (around : List Waiting)
      (hname : t.Names name) :
      Step rules (within .setqName around doneRev) t (awaiting doneRev (.setqValue name :: around))
  | funcName {t : Token} {name : String} (doneRev : List Expr) (around : List Waiting)
      (hname : t.Names name) :
      Step rules (within .funcName around doneRev) t
        (within (.parametersOpen (.func name)) around doneRev)
  | parametersOpen (form : Parametric) (doneRev : List Expr) (around : List Waiting) :
      Step rules (within (.parametersOpen form) around doneRev) .opening
        (within (.parameters form []) around doneRev)
  | parameter {t : Token} {name : String} (form : Parametric) (namesRev : List String)
      (doneRev : List Expr) (around : List Waiting) (hname : t.Names name) :
      Step rules (within (.parameters form namesRev) around doneRev) t
        (within (.parameters form (name :: namesRev)) around doneRev)
  | parametersClose (form : Parametric) (namesRev : List String) (doneRev : List Expr)
      (around : List Waiting) :
      Step rules (within (.parameters form namesRev) around doneRev) .closing
        (within (form.afterParameters namesRev.reverse) around doneRev)
  | closes {innermost : Innermost} {e : Expr} (doneRev : List Expr) (around : List Waiting)
      (hcloses : innermost.Closes e) :
      Step rules (within innermost around doneRev) .closing
        (finish rules.readsForms doneRev around e)

theorem step_of_start {t : Token} {v : Unfinished} (ht : t.Scanned)
    (hfits : FitsInside rules.readsForms around [t]) (h : start rules doneRev around t = .ok v) :
    Step rules (awaiting doneRev around) t v := by
  simp only [start] at h
  split at h
  · next hkind =>
    split at h
    · next hroom =>
      cases h
      rw [ht.eq_opening hkind]
      exact .opening doneRev hroom
    · cases h
  · next hkind =>
    split at h
    · next hroom =>
      cases h
      exact .quotation doneRev hkind hfits hroom
    · cases h
  · split at h
    · next e hatom =>
      cases h
      exact .atom doneRev hatom hfits
    · cases h

/-- The closing parenthesis is taken where a list, a form or a list of parameters may end. -/
theorem step_of_advance_closing {u v : Unfinished} (h : u.advance rules Token.closing = .ok v) :
    Step rules u Token.closing v := by
  have hstart : ∀ doneRev around, start rules doneRev around Token.closing =
      .error (.unexpectedToken Token.closing) := fun _ _ => rfl
  cases u with
  | topLevel doneRev => simp [advance, move, hstart, Except.map] at h
  | within innermost around doneRev =>
    cases innermost with
    | expecting w =>
      cases w with
      | head =>
        change (awaiting doneRev (.head :: around)).advance rules _ = _ at h
        rw [advance_head_closing] at h
        cases h
        exact .closes doneRev around .head
      | condNo test yes =>
        change (awaiting doneRev (.condNo test yes :: around)).advance rules _ = _ at h
        rw [advance_condNo_closing] at h
        cases h
        exact .closes doneRev around (.condNo test yes)
      | items sequence itemsRev =>
        change (awaiting doneRev (.items sequence itemsRev :: around)).advance rules _ = _ at h
        rw [advance_items_closing] at h
        cases h
        exact .closes doneRev around (.items sequence itemsRev)
      | _ => simp [advance, move, hstart, Except.map] at h
    | parameters form namesRev =>
      have hv : within (form.afterParameters namesRev.reverse) around doneRev = v := by
        simpa [advance, move, endsSequence] using h
      rw [← hv]
      exact .parametersClose form namesRev doneRev around
    | closing e =>
      rw [advance_closing_closing] at h
      cases h
      exact .closes doneRev around (.closing e)
    | _ => simp [advance, move, Token.name?] at h

/-- The one token that does not fit where an expression is to start is the word `quote` at the head
of a list. -/
theorem eq_word_quote_of_not_fitsInside {t : Token} {w : Waiting} (ht : t.Scanned)
    (h : ¬ FitsInside readsForms (w :: around) [t]) :
    w = .head ∧ readsForms = true ∧ ∃ lexeme, t = .word (.keyword .quote) lexeme := by
  rw [FitsInside, not_and] at h
  have hword := h (List.cons_ne_nil t [])
  simp only [List.head?_cons, Option.some.injEq, beginsWithQuoteWord, Option.any_some,
    Classical.not_imp, Bool.not_eq_false] at hword
  obtain ⟨hhead, hforms, hquote⟩ := hword
  exact ⟨hhead, hforms, ht.eq_word_quote hquote⟩

/-- A token that is taken does one of these things. -/
theorem step_of_advance {u v : Unfinished} {t : Token} (ht : t.Scanned)
    (h : u.advance rules t = .ok v) : Step rules u t v := by
  by_cases hclose : t.kind = .closeParen
  · rw [ht.eq_closing hclose] at h ⊢
    exact step_of_advance_closing h
  have hawaiting : ∀ doneRev around, FitsInside rules.readsForms around [t] →
      (awaiting doneRev around).advance rules t = .ok v →
      Step rules (awaiting doneRev around) t v := by
    intro doneRev around hfits hstep
    rw [advance_awaiting hclose ht.kind_ne_eof hfits.isQuoteKeyword_eq_false] at hstep
    exact step_of_start ht hfits hstep
  cases u with
  | topLevel doneRev => exact hawaiting doneRev [] ⟨by simp, by simp⟩ h
  | within innermost around doneRev =>
    cases innermost with
    | expecting w =>
      by_cases hfits : FitsInside rules.readsForms (w :: around) [t]
      · exact hawaiting doneRev (w :: around) hfits h
      · obtain ⟨rfl, hforms, lexeme, rfl⟩ := eq_word_quote_of_not_fitsInside ht hfits
        change (awaiting doneRev (.head :: around)).advance rules _ = _ at h
        rw [advance_headQuote hforms lexeme] at h
        cases h
        exact .headQuote doneRev around lexeme hforms
    | setqName =>
      cases hname : t.name? with
      | none => simp [advance, move, hname] at h
      | some name =>
        have hv : within (.expecting (.setqValue name)) around doneRev = v := by
          simpa [advance, move, hname] using h
        rw [← hv]
        exact .setqName doneRev around (ht.names hname)
    | funcName =>
      cases hname : t.name? with
      | none => simp [advance, move, hname] at h
      | some name =>
        have hv : within (.parametersOpen (.func name)) around doneRev = v := by
          simpa [advance, move, hname] using h
        rw [← hv]
        exact .funcName doneRev around (ht.names hname)
    | parametersOpen form =>
      have hopen : t.kind = .openParen := by
        by_contra hne
        simp [advance, move, hne] at h
      have hv : within (.parameters form []) around doneRev = v := by
        simpa [advance, move, hopen] using h
      rw [← hv, ht.eq_opening hopen]
      exact .parametersOpen form doneRev around
    | parameters form namesRev =>
      have hends : endsSequence t = false := by simp [endsSequence, hclose, ht.kind_ne_eof]
      cases hname : t.name? with
      | none => simp [advance, move, hends, hname] at h
      | some name =>
        have hv : within (.parameters form (name :: namesRev)) around doneRev = v := by
          simpa [advance, move, hends, hname] using h
        rw [← hv]
        exact .parameter form namesRev doneRev around (ht.names hname)
    | closing e => simp [advance, move, hclose] at h

/-! ## The invariant, one token more -/

theorem reads_awaiting_iff :
    (awaiting doneRev around).Reads readsForms limit ts ↔
      ReadsAround readsForms limit doneRev around ts := by
  cases around <;> exact Iff.rfl

/-- What a closing parenthesis can finish has promised to be finished by it. -/
theorem closesTo_of_closes {innermost : Innermost} {e : Expr} (h : innermost.Closes e)
    (hi : innermost.Promises readsForms room ts) : ClosesTo readsForms room ts e := by
  cases h with
  | head =>
    cases hi
    exact .of_parenthesized .emptyList (Nat.le_add_left 1 _) rfl
  | condNo test yes => exact hi.1
  | items sequence itemsRev => simpa using hi [] [] .nil
  | closing e => exact hi

/-- The invariant of reading.  A token that is taken is added to the tokens that have been
read. -/
theorem Reads.advance {u v : Unfinished} {t : Token} (hlimit : rules.nestingLimit = some limit)
    (hu : u.Reads rules.readsForms limit ts) (ht : t.Scanned)
    (h : u.advance rules t = .ok v) : v.Reads rules.readsForms limit (ts ++ [t]) := by
  have hallows : ∀ n, rules.allows n = true → n < limit := by
    intro n hn
    simpa [Rules.allows, hlimit] using hn
  -- One case for each kind of move: a new segment, an expression finished, or one token more in
  -- the segment of what is innermost.
  cases step_of_advance ht h with
  | opening doneRev hroom =>
    exact ⟨ts, _, rfl, reads_awaiting_iff.1 hu, hallows _ hroom, ⟨by simp, fun _ _ => rfl⟩, rfl⟩
  | quotation doneRev hq hfits hroom =>
    exact ⟨ts, _, rfl, reads_awaiting_iff.1 hu, hallows _ hroom, hfits, t, rfl, hq⟩
  | atom doneRev hatom hfits =>
    exact reads_finish (reads_awaiting_iff.1 hu) hfits (ht.derivesWithin hatom)
  | headQuote doneRev around lexeme hforms =>
    refine Reads.within_append hu _ ?_
    rintro room _ rfl us e he
    exact .of_parenthesized (.quoteForm lexeme hforms he.derives)
      (Nat.succ_le_succ he.depth_le) rfl
  | setqName doneRev around hname =>
    exact Reads.within_append hu _ fun room vs hvs => hvs t _ hname
  | funcName doneRev around hname =>
    exact Reads.within_append hu _ fun room vs hvs => hvs t _ hname
  | parametersOpen form doneRev around =>
    exact Reads.within_append hu _ fun room vs hvs => ⟨vs, [], rfl, hvs, .nil⟩
  | parameter form namesRev doneRev around hname =>
    refine Reads.within_append hu _ ?_
    rintro room _ ⟨us', vs', rfl, hform, hnames⟩
    refine ⟨us', vs' ++ [t], by simp, hform, ?_⟩
    rw [List.reverse_cons]
    exact List.rel_append hnames (.cons hname .nil)
  | parametersClose form namesRev doneRev around =>
    refine Reads.within_append hu _ ?_
    rintro room _ ⟨us', vs', rfl, hform, hnames⟩
    obtain ⟨w, hw⟩ : ∃ w, form.afterParameters namesRev.reverse = .expecting w := by
      cases form <;> exact ⟨_, rfl⟩
    have hpromise := hform _ _ w ⟨vs', rfl, hnames⟩ hw
    rw [hw]
    simpa [Innermost.Promises, Token.parenthesized] using hpromise
  | closes doneRev around hcloses =>
    obtain ⟨us, vs, rfl, haround, hroom, hfits, hi⟩ := hu
    exact reads_finish_of_closesTo haround hroom hfits (closesTo_of_closes hcloses hi)

theorem Reads.advanceAll {u v : Unfinished} (hlimit : rules.nestingLimit = some limit)
    (hu : u.Reads rules.readsForms limit ts) (hus : ∀ t ∈ us, t.Scanned)
    (h : u.advanceAll rules us = .ok v) : v.Reads rules.readsForms limit (ts ++ us) := by
  induction us generalizing u ts with
  | nil =>
    cases h
    rwa [List.append_nil]
  | cons t us ih =>
    cases hstep : u.advance rules t with
    | error error => simp [Unfinished.advanceAll, hstep] at h
    | ok w =>
      rw [advanceAll_cons_of_ok hstep] at h
      have hw := hu.advance hlimit (hus t List.mem_cons_self) hstep
      rw [List.append_cons]
      exact ih hw (fun t ht => hus t (List.mem_cons_of_mem _ ht)) h

/-- **What is read is in the grammar**, and within the limit. -/
theorem derivesAllWithin_of_advanceAll {es : List Expr} (hlimit : rules.nestingLimit = some limit)
    (hts : ∀ t ∈ ts, t.Scanned)
    (h : Unfinished.empty.advanceAll rules ts = .ok (topLevel es.reverse)) :
    DerivesAllWithin rules.readsForms limit ts es := by
  have hempty : Unfinished.empty.Reads rules.readsForms limit [] := DerivesAllWithin.nil
  have hreads := hempty.advanceAll hlimit hts h
  simpa [Unfinished.Reads, ReadsAround] using hreads

end Unfinished

end SmallLisp
