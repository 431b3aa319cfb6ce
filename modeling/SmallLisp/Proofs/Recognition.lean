import SmallLisp.Proofs.Soundness

/-!
# Reading is recognition

The two directions meet here.  On tokens that come out of a text, the reader ends at the top level
with some expressions exactly if the tokens derive these expressions and there is room for their
nesting; so what is read is what the grammar says, and nothing depends on how it was found.

Two consequences belong to the grammar alone.  It is unambiguous, and whether a text is read does
not depend on anything but its significant tokens and the way they end.
-/

namespace SmallLisp

namespace Unfinished

variable {rules : Rules} {limit : Nat} {ts : List Token} {es : List Expr}

/-- Tokens lead to finished expressions exactly if they derive them, within the limit. -/
theorem advanceAll_eq_topLevel_iff (hlimit : rules.nestingLimit = some limit)
    (hts : ∀ t ∈ ts, t.Scanned) :
    Unfinished.empty.advanceAll rules ts = .ok (topLevel es.reverse) ↔
      DerivesAllWithin rules.readsForms limit ts es := by
  constructor
  · exact derivesAllWithin_of_advanceAll hlimit hts
  · rintro ⟨hderives, hdepth⟩
    have hroom : rules.HasRoom (Expr.depthAll es) := by
      intro n hn
      rw [hlimit, Option.some.injEq] at hn
      exact hn ▸ hdepth
    have hall := advanceAll_topLevel_of_derivesAll hderives [] hroom
    rwa [List.append_nil] at hall

end Unfinished

/-- The grammar is unambiguous: no tokens derive two different sequences of expressions.  The
reader finds one result whatever the limit, and without a limit there is always room. -/
theorem DerivesAll.unique {readsForms : Bool} {ts : List Token} {es fs : List Expr}
    (hes : DerivesAll readsForms ts es) (hfs : DerivesAll readsForms ts fs) : es = fs := by
  let rules : Rules := ⟨readsForms, none⟩
  have hroom : ∀ n, rules.HasRoom n := fun n limit hlimit => by simp [rules] at hlimit
  have he := Unfinished.advanceAll_topLevel_of_derivesAll hes [] (hroom _)
  have hf := Unfinished.advanceAll_topLevel_of_derivesAll hfs [] (hroom _)
  rw [he] at hf
  simpa using hf

/-- What is read depends on the text only through its significant tokens and their end. -/
theorem readProgram_eq_ok_iff_derivesAllWithin (d : Dialect) (source : String) (p : Program) :
    readProgram d source = .ok p ↔
      (∃ position, (TokenStream.ofSource d source).ending = .endOfInput position) ∧
        DerivesAllWithin d.readsForms nestingLimit
          ((TokenStream.ofSource d source).significant.map (·.value)) p.expressions := by
  have hscanned : ∀ t ∈ (TokenStream.ofSource d source).significant.map (·.value), t.Scanned :=
    fun t ht => TokenStream.scanned_of_mem_significant ht
  have hlimit : d.rules.nestingLimit = some nestingLimit := rfl
  rw [readProgram_eq_readFrom, Unfinished.readFrom_eq_ok_iff,
    Unfinished.advanceAll_eq_topLevel_iff hlimit hscanned]
  rfl

/-- **A text is read as a program exactly if the grammar derives that program from its tokens**:
the text has no lexical error, its tokens other than ends of lines derive the expressions of the
program, and the program is nested no deeper than the limit. -/
theorem readProgram_eq_ok_iff (d : Dialect) (source : String) (p : Program) :
    readProgram d source = .ok p ↔
      (∃ position, (TokenStream.ofSource d source).ending = .endOfInput position) ∧
        DerivesAll d.readsForms ((TokenStream.ofSource d source).significant.map (·.value))
          p.expressions ∧
        p.depth ≤ nestingLimit := by
  rw [readProgram_eq_ok_iff_derivesAllWithin]
  constructor
  · rintro ⟨hending, hderives, hdepth⟩
    exact ⟨hending, hderives, hdepth⟩
  · rintro ⟨hending, hderives, hdepth⟩
    exact ⟨hending, hderives, hdepth⟩

end SmallLisp
