import SmallLisp.Proofs.Acceptance
import SmallLisp.Proofs.Values
import SmallLisp.Proofs.Vocabulary

/-!
# Reading does not look at reals

A reader takes a real for what it is and never asks which one it is.  So it makes no difference
whether the reals are changed in the tokens or afterwards in what has been read
(`Unfinished.advance_mapReals`), and a token is refused or not whatever its real.

Equality of tokens compares numbers by value, where the two zeros are equal.  Tokens that are
equal in this sense are the same once the signs of zeros are dropped, and so are treated in
the same way.
-/

namespace SmallLisp

variable (f : Binary64 → Binary64)

/-! ## Changing the reals in tokens and in what has been read -/

/-- A token with its real changed, if it is one. -/
def Token.mapReals (t : Token) : Token :=
  match t.kind, t.literal with
  | .real, some (.number (.real x)) => .number (.real (f x))
  | _, _ => t

/-- The beginning of a list with its reals changed. -/
def OpenEnded.mapReals : OpenEnded → OpenEnded
  | plain => plain
  | call function => call function
  | lambdaCall parameters body => lambdaCall parameters (body.mapReals f)
  | func name parameters => func name parameters
  | prog parameters => prog parameters
  | whileLoop condition => whileLoop (condition.mapReals f)

/-- Something begun with its reals changed. -/
def Waiting.mapReals : Waiting → Waiting
  | tick => tick
  | head => head
  | quoted => quoted
  | setqValue name => setqValue name
  | condTest => condTest
  | condYes test => condYes (test.mapReals f)
  | condNo test yes => condNo (test.mapReals f) (yes.mapReals f)
  | lambdaBody parameters => lambdaBody parameters
  | whileCondition => whileCondition
  | items sequence itemsRev => items (sequence.mapReals f) (itemsRev.map (·.mapReals f))

/-- The innermost thing begun with its reals changed. -/
def Innermost.mapReals : Innermost → Innermost
  | expecting w => expecting (w.mapReals f)
  | closing e => closing (e.mapReals f)
  | innermost => innermost

/-- What has been read with its reals changed. -/
def Unfinished.mapReals : Unfinished → Unfinished
  | topLevel doneRev => topLevel (doneRev.map (·.mapReals f))
  | within innermost around doneRev =>
    within (innermost.mapReals f) (around.map (·.mapReals f)) (doneRev.map (·.mapReals f))

/-- A token is a real, or changing reals changes neither the token nor what it is by itself. -/
theorem Token.eq_real_or_mapReals_eq (t : Token) :
    (∃ x, t = .number (.real x)) ∨
      t.mapReals f = t ∧ t.atom?.map (·.mapReals f) = t.atom? := by
  obtain ⟨kind, literal⟩ := t
  -- Only a real is changed.  A token of another kind that carried a real would not be an atom.
  by_cases hreal : ∃ x, kind = .real ∧ literal = some (.number (.real x))
  · obtain ⟨x, rfl, rfl⟩ := hreal
    exact .inl ⟨x, rfl⟩
  · refine .inr ⟨?_, ?_⟩
    · unfold mapReals
      split
      · next x hkind hliteral => exact absurd ⟨x, hkind, hliteral⟩ hreal
      · rfl
    · unfold atom?
      split
      · rfl
      · next x hkind hliteral => exact absurd ⟨x, hkind, hliteral⟩ hreal
      · rfl
      · rfl
      · split <;> rfl
      · rfl

@[simp] theorem Token.kind_mapReals (t : Token) : (t.mapReals f).kind = t.kind := by
  rcases t.eq_real_or_mapReals_eq f with ⟨x, rfl⟩ | ⟨ht, -⟩
  · rfl
  · rw [ht]

@[simp] theorem Token.isQuoteKeyword_mapReals (t : Token) :
    (t.mapReals f).isQuoteKeyword = t.isQuoteKeyword := by
  rcases t.eq_real_or_mapReals_eq f with ⟨x, rfl⟩ | ⟨ht, -⟩
  · rfl
  · rw [ht]

@[simp] theorem Token.name?_mapReals (t : Token) : (t.mapReals f).name? = t.name? := by
  rcases t.eq_real_or_mapReals_eq f with ⟨x, rfl⟩ | ⟨ht, -⟩
  · rfl
  · rw [ht]

@[simp] theorem Token.atom?_mapReals (t : Token) :
    (t.mapReals f).atom? = t.atom?.map (·.mapReals f) := by
  rcases t.eq_real_or_mapReals_eq f with ⟨x, rfl⟩ | ⟨ht, hatom⟩
  · rfl
  · rw [ht, hatom]

@[simp] theorem Unfinished.endsSequence_mapReals (t : Token) :
    endsSequence (t.mapReals f) = endsSequence t := by
  simp [endsSequence]

/-- A token that is no expression by itself has no real to change. -/
theorem Token.mapReals_eq_of_atom?_eq_none {t : Token} (h : t.atom? = none) :
    t.mapReals f = t := by
  rcases t.eq_real_or_mapReals_eq f with ⟨x, rfl⟩ | ⟨ht, -⟩
  · cases h
  · exact ht

/-! ## Reading goes the same way -/

theorem OpenEnded.close_mapReals (sequence : OpenEnded) (items : List Expr) :
    (sequence.mapReals f).close (items.map (·.mapReals f)) = (sequence.close items).mapReals f := by
  cases sequence <;> simp [OpenEnded.mapReals, close, Expr.mapReals, Expr.mapRealsAll_eq_map]

/-- The head of a list decides by its name or its kind, whatever its reals. -/
theorem Innermost.ofHead_mapReals (readsForms : Bool) (head : Expr) :
    ofHead readsForms (head.mapReals f) = (ofHead readsForms head).mapReals f := by
  cases readsForms with
  | false => rfl
  | true =>
    cases head with
    | identifier name =>
      simp only [ofHead, Expr.mapReals]
      cases hname : Keyword.ofName? name with
      | none => rfl
      | some k => cases k <;> rfl
    | cond test yes no => cases no <;> rfl
    | _ => rfl

theorem Waiting.take_mapReals (readsForms : Bool) (w : Waiting) (e : Expr) :
    (w.mapReals f).take readsForms (e.mapReals f) =
      (w.take readsForms e).map (·.mapReals f) (·.mapReals f) := by
  cases w <;>
    simp [Waiting.mapReals, take, Innermost.mapReals, Expr.mapReals, OpenEnded.mapReals,
      Innermost.ofHead_mapReals]

namespace Unfinished

variable (rules : Rules)

theorem finish_mapReals (doneRev : List Expr) (around : List Waiting) (e : Expr) :
    finish rules.readsForms (doneRev.map (·.mapReals f)) (around.map (·.mapReals f))
        (e.mapReals f) =
      (finish rules.readsForms doneRev around e).mapReals f := by
  induction around generalizing e with
  | nil => rfl
  | cons w around ih =>
    simp only [List.map_cons, finish, Waiting.take_mapReals]
    cases w.take rules.readsForms e with
    | inl finished => exact ih finished
    | inr innermost => rfl

theorem start_mapReals (doneRev : List Expr) (around : List Waiting) (t : Token) :
    start rules (doneRev.map (·.mapReals f)) (around.map (·.mapReals f)) (t.mapReals f) =
      (start rules doneRev around t).map (·.mapReals f) := by
  cases hatom : t.atom? with
  | some e =>
    have hmap : (t.mapReals f).atom? = some (e.mapReals f) := by
      rw [Token.atom?_mapReals, hatom]
      rfl
    rw [start_of_atom? hmap, start_of_atom? hatom, finish_mapReals]
    rfl
  | none =>
    rw [Token.mapReals_eq_of_atom?_eq_none f hatom]
    simp only [start, List.length_map, hatom]
    cases rules.allows around.length <;> split <;> rfl

/-- The same move is made, and it leads to the same place. -/
theorem move_mapReals (u : Unfinished) (t : Token) :
    (u.mapReals f).move rules (t.mapReals f) =
      (u.move rules t).map fun result => (result.1, result.2.mapReals f) := by
  -- A move begins an expression, finishes one, or stays inside; these are the three ways in which
  -- reals can be passed on, and none of them is decided by a real.
  have hstarted : ∀ doneRev around,
      ((start rules (doneRev.map (·.mapReals f)) (around.map (·.mapReals f))
          (t.mapReals f)).map fun u => ((t.mapReals f).kind, u)) =
        ((start rules doneRev around t).map fun u => (t.kind, u)).map
          fun result => (result.1, result.2.mapReals f) := by
    intro doneRev around
    rw [start_mapReals, Token.kind_mapReals]
    cases start rules doneRev around t <;> rfl
  have hfinished : ∀ doneRev around e,
      (Except.ok (TokenKind.closeParen, finish rules.readsForms (doneRev.map (·.mapReals f))
          (around.map (·.mapReals f)) (e.mapReals f)) : Except GrammarError _) =
        (Except.ok (TokenKind.closeParen, finish rules.readsForms doneRev around e)).map
          fun result => (result.1, result.2.mapReals f) := by
    intro doneRev around e
    rw [finish_mapReals]
    rfl
  cases u with
  | topLevel doneRev =>
    simpa [move, mapReals] using hstarted doneRev []
  | within innermost around doneRev =>
    cases innermost with
    | expecting w =>
      have hother := hstarted doneRev (w :: around)
      cases w with
      | head =>
        have hempty := hfinished doneRev around (.list [])
        show move rules (within (.expecting .head) _ _) (t.mapReals f) = _
        simp only [move, Token.kind_mapReals, Token.isQuoteKeyword_mapReals] at hother ⊢
        split
        · exact hempty
        · split
          · rfl
          · exact hother
      | condNo test yes =>
        have hclosed := hfinished doneRev around (.cond test yes none)
        show move rules (within (.expecting (.condNo _ _)) _ _) (t.mapReals f) = _
        simp only [move, Token.kind_mapReals] at hother ⊢
        split
        · exact hclosed
        · exact hother
      | items sequence itemsRev =>
        have hclosed := hfinished doneRev around (sequence.close itemsRev.reverse)
        show move rules (within (.expecting (.items _ _)) _ _) (t.mapReals f) = _
        simp only [move, Token.kind_mapReals, endsSequence_mapReals, ← List.map_reverse,
          OpenEnded.close_mapReals] at hother ⊢
        split
        · exact hclosed
        · exact hother
      | _ => exact hother
    | setqName =>
      show move rules (within .setqName _ _) (t.mapReals f) = _
      simp only [move, Token.name?_mapReals, Token.kind_mapReals]
      cases t.name? <;> rfl
    | funcName =>
      show move rules (within .funcName _ _) (t.mapReals f) = _
      simp only [move, Token.name?_mapReals, Token.kind_mapReals]
      cases t.name? <;> rfl
    | parametersOpen form => rfl
    | parameters form namesRev =>
      show move rules (within (.parameters form namesRev) _ _) (t.mapReals f) = _
      simp only [move, endsSequence_mapReals, Token.name?_mapReals, Token.kind_mapReals]
      split
      · cases form <;> rfl
      · cases t.name? <;> rfl
    | closing e => exact hfinished doneRev around e

/-- **Changing the reals in a token before it is read is changing them in what has been read.** -/
theorem advance_mapReals (u : Unfinished) (t : Token) :
    (u.mapReals f).advance rules (t.mapReals f) = (u.advance rules t).map (·.mapReals f) := by
  simp only [advance, move_mapReals]
  cases u.move rules t with
  | error error => rfl
  | ok result =>
    simp only [Except.map, Token.kind_mapReals]
    split <;> rfl

theorem advanceAll_mapReals (u : Unfinished) (ts : List Token) :
    (u.mapReals f).advanceAll rules (ts.map (·.mapReals f)) =
      (u.advanceAll rules ts).map (·.mapReals f) := by
  induction ts generalizing u with
  | nil => rfl
  | cons t ts ih =>
    simp only [List.map_cons, advanceAll, advance_mapReals]
    cases u.advance rules t with
    | error error => rfl
    | ok v => exact ih v

@[simp] theorem depth_mapReals (u : Unfinished) : (u.mapReals f).depth = u.depth := by
  cases u with
  | topLevel doneRev => rfl
  | within innermost around doneRev => simp [mapReals, depth]

variable {f rules} {u v : Unfinished} {s t : Token} {ss ts : List Token}

/-- Tokens that differ in their reals only are read together. -/
theorem exists_advanceAll_of_mapReals_eq (hts : ss.map (·.mapReals f) = ts.map (·.mapReals f))
    (h : u.advanceAll rules ts = .ok v) :
    ∃ w, u.advanceAll rules ss = .ok w ∧ w.mapReals f = v.mapReals f := by
  have hmap := advanceAll_mapReals f rules u ss
  rw [hts, advanceAll_mapReals, h] at hmap
  cases hss : u.advanceAll rules ss with
  | error error => rw [hss] at hmap; cases hmap
  | ok w =>
    rw [hss] at hmap
    exact ⟨w, rfl, (Except.ok.inj hmap).symm⟩

/-- Tokens that differ in their reals only are refused together, and with the same error. -/
theorem advance_eq_error_of_mapReals_eq (hu : u.mapReals f = v.mapReals f)
    (ht : s.mapReals f = t.mapReals f) {error : GrammarError}
    (h : v.advance rules t = .error error) : u.advance rules s = .error error := by
  have hmap := advance_mapReals f rules u s
  rw [hu, ht, advance_mapReals, h] at hmap
  cases hs : u.advance rules s with
  | error error' =>
    rw [hs] at hmap
    exact hmap.symm
  | ok w => rw [hs] at hmap; cases hmap

end Unfinished

/-! ## Equal tokens -/

/-- Literals are equal if they are identical, or two reals of the same value. -/
theorem Literal.eq_or_reals_of_same {a b : Literal} (h : a.same b = true) :
    a = b ∨ ∃ x y, a = .number (.real x) ∧ b = .number (.real y) ∧ x.same y = true := by
  cases a with
  | number m =>
    cases b with
    | number n =>
      cases m with
      | integer i =>
        cases n with
        | integer j =>
          have hij : (i == j) = true := h
          rw [eq_of_beq hij]
          exact .inl rfl
        | real y => cases h
      | real x =>
        cases n with
        | integer j => cases h
        | real y => exact .inr ⟨x, y, rfl, rfl, h⟩
    | _ => cases h
  | boolean a =>
    cases b with
    | boolean b =>
      have hab : (a == b) = true := h
      rw [eq_of_beq hab]
      exact .inl rfl
    | _ => cases h
  | text a =>
    cases b with
    | text b =>
      have hab : (a == b) = true := h
      rw [eq_of_beq hab]
      exact .inl rfl
    | _ => cases h

/-- Equal tokens differ in nothing but the sign of a zero.  Only a token that carries a real
without being one would be an exception, and no text has such a token. -/
theorem Token.mapReals_eq_of_same {s t : Token}
    (hs : ∀ x, s.literal = some (.number (.real x)) → s.kind = .real) (h : s.same t = true) :
    s.mapReals Binary64.dropZeroSign = t.mapReals Binary64.dropZeroSign := by
  obtain ⟨kind, literal⟩ := s
  obtain ⟨kind', literal'⟩ := t
  simp only [same, Bool.and_eq_true, beq_iff_eq] at h
  obtain ⟨rfl, h⟩ := h
  cases literal with
  | none =>
    cases literal' with
    | none => rfl
    | some b => cases h
  | some a =>
    cases literal' with
    | none => cases h
    | some b =>
      rcases Literal.eq_or_reals_of_same h with rfl | ⟨x, y, rfl, rfl, hxy⟩
      · rfl
      · cases hs x rfl
        simp only [mapReals, Binary64.dropZeroSign_eq_of_same hxy]

/-- In the tokens there are, only a real carries one. -/
theorem Token.Scanned.kind_eq_real {t : Token} (ht : t.Scanned) {x : Binary64}
    (hx : t.literal = some (.number (.real x))) : t.kind = .real := by
  cases ht with
  | real => rfl
  | _ => cases hx

end SmallLisp
