import SmallLisp.Proofs.EarliestError
import SmallLisp.Proofs.Erasure
import SmallLisp.Proofs.Nesting

/-!
# Forms and plain lists

A text can be read in a dialect with forms and in one of plain lists.  The two share the scanner,
and where the word `quote` is not in the text they share the structure as well: what one reads as
a form, the other reads as the list of its parts (`Program.erase`).

They differ in what they refuse.  A form can be ill-formed where a list cannot, so the dialect of
plain lists reads more texts; but a list of parameters counts as a list there, so it may run into
the nesting limit where the other dialect does not.  The first half of this is about the grammar.
For the second the two readers are run side by side: they have the same open after the same tokens
(`Unfinished.openings_of_advance`), and of plain lists nothing is open that is not counted.
-/

namespace SmallLisp

/-! ## The tokens are the same -/

/-- Scanning depends on a dialect only in what an unknown character means. -/
theorem Scanner.stream_eq_of_endsAtUnknown_eq {d d' : Dialect}
    (h : d.endsAtUnknown = d'.endsAtUnknown) (s : Scanner) : s.stream d = s.stream d' := by
  fun_induction Scanner.stream d s with
  | case1 s error s' hnext =>
    have hnext' : s.next d' = (.error error, s') := by rw [← hnext, next, next, h]
    rw [stream_of_failure hnext']
  | case2 s t s' hnext hkind =>
    have hnext' : s.next d' = (.ok t, s') := by rw [← hnext, next, next, h]
    rw [stream_of_end hnext' hkind]
  | case3 s t s' hnext hkind later ih =>
    have hnext' : s.next d' = (.ok t, s') := by rw [← hnext, next, next, h]
    rw [stream_of_token hnext' hkind, ← ih]

/-! ## Plain lists -/

/-- Something that is begun where there are no forms. -/
def Waiting.IsPlain : Waiting → Prop
  | .tick => True
  | .head => True
  | .items .plain _ => True
  | _ => False

namespace Unfinished

variable {rules : Rules} {doneRev : List Expr} {around : List Waiting} {u v : Unfinished}
  {t : Token}

/-- **A state of reading plain lists**: an expression is to start, inside lists and quotations. -/
def IsPlain (u : Unfinished) : Prop :=
  ∃ doneRev around, u = awaiting doneRev around ∧ ∀ w ∈ around, w.IsPlain

theorem isPlain_finish (doneRev : List Expr) (haround : ∀ w ∈ around, w.IsPlain) (e : Expr) :
    (finish false doneRev around e).IsPlain := by
  induction around generalizing e with
  | nil => exact ⟨e :: doneRev, [], rfl, by simp⟩
  | cons w around ih =>
    rw [List.forall_mem_cons] at haround
    obtain ⟨hw, haround⟩ := haround
    cases w with
    | tick => exact ih haround (.quote e)
    | head =>
      exact ⟨doneRev, .items .plain [e] :: around, rfl, List.forall_mem_cons.2 ⟨trivial, haround⟩⟩
    | items sequence itemsRev =>
      cases sequence with
      | plain =>
        exact ⟨doneRev, .items .plain (e :: itemsRev) :: around, rfl,
          List.forall_mem_cons.2 ⟨trivial, haround⟩⟩
      | _ => exact hw.elim
    | _ => exact hw.elim

theorem isPlain_start (hforms : rules.readsForms = false) (haround : ∀ w ∈ around, w.IsPlain)
    (h : start rules doneRev around t = .ok v) : v.IsPlain := by
  simp only [start, hforms] at h
  split at h
  · split at h
    · cases h
      exact ⟨doneRev, .head :: around, rfl, List.forall_mem_cons.2 ⟨trivial, haround⟩⟩
    · cases h
  · split at h
    · cases h
      exact ⟨doneRev, .tick :: around, rfl, List.forall_mem_cons.2 ⟨trivial, haround⟩⟩
    · cases h
  · split at h
    · cases h
      exact isPlain_finish doneRev haround _
    · cases h

/-- Without forms a token leads from one state of reading plain lists to another. -/
theorem IsPlain.advance (hforms : rules.readsForms = false) (hu : u.IsPlain)
    (h : u.advance rules t = .ok v) : v.IsPlain := by
  obtain ⟨doneRev, around, rfl, haround⟩ := hu
  -- A closing parenthesis finishes a list; everything else begins an expression.
  by_cases hclose : t.kind = .closeParen
  · cases around with
    | nil => simp [awaiting, Unfinished.advance, move, start_of_kind_eq_closeParen hclose,
        Except.map] at h
    | cons w around =>
      rw [List.forall_mem_cons] at haround
      obtain ⟨hw, haround⟩ := haround
      cases w with
      | head =>
        simp only [awaiting, Unfinished.advance, move, hclose, hforms, if_true,
          Except.ok.injEq] at h
        rw [← h]
        exact isPlain_finish doneRev haround _
      | items sequence itemsRev =>
        have hends : endsSequence t = true := by simp [endsSequence, hclose]
        simp only [awaiting, Unfinished.advance, move, hclose, hends, hforms, if_true,
          Except.ok.injEq] at h
        rw [← h]
        exact isPlain_finish doneRev haround _
      | condNo test yes => exact hw.elim
      | _ => simp [awaiting, Unfinished.advance, move, start_of_kind_eq_closeParen hclose,
          Except.map] at h
  · have heof := kind_ne_eof_of_advance h
    rw [advance_awaiting hclose heof (by simp [hforms])] at h
    exact isPlain_start hforms haround h

/-- Where an expression is to start, everything that is open is counted. -/
theorem length_openings_awaiting :
    (awaiting doneRev around).openings.length = (awaiting doneRev around).depth := by
  rw [openings_awaiting, depth_awaiting, List.length_map]

theorem exists_eq_awaiting_of_enters {readsForms : Bool} (h : u.enters readsForms t = true) :
    ∃ doneRev around, u = awaiting doneRev around := by
  cases u with
  | topLevel doneRev => exact ⟨doneRev, [], rfl⟩
  | within innermost around doneRev =>
    cases innermost with
    | expecting w => exact ⟨doneRev, w :: around, rfl⟩
    | _ => simp [enters] at h

/-- What is nested too deep in forms is nested too deep in plain lists, where the same is
open. -/
theorem advance_eq_nestingTooDeep_of_isPlain {limit : Option Nat}
    (hquote : t.isQuoteKeyword = false) (hv : v.IsPlain) (hopenings : v.openings = u.openings)
    (h : u.advance ⟨true, limit⟩ t = .error .nestingTooDeep) :
    v.advance ⟨false, limit⟩ t = .error .nestingTooDeep := by
  obtain ⟨henters, hallows⟩ := advance_eq_nestingTooDeep_iff.1 h
  obtain ⟨doneRev, around, rfl⟩ := exists_eq_awaiting_of_enters henters
  obtain ⟨doneRev', around', rfl, -⟩ := hv
  have hdepth : (awaiting doneRev' around').depth = (awaiting doneRev around).depth := by
    rw [← length_openings_awaiting, ← length_openings_awaiting, hopenings]
  rw [enters_awaiting (by simp [hquote])] at henters
  rw [advance_eq_nestingTooDeep_iff, enters_awaiting (by simp [hquote]), hdepth]
  exact ⟨henters, hallows⟩

theorem refusalAtEnd_ne_nestingTooDeep (innermost : Innermost) :
    refusalAtEnd innermost ≠ .nestingTooDeep := by
  cases innermost with
  | expecting w => cases w <;> simp [refusalAtEnd]
  | _ => simp [refusalAtEnd]

/-- Run side by side, forms do not get too deep where plain lists do not. -/
theorem readFrom_ne_nestingTooDeep {limit : Option Nat} {ending : StreamEnd} {w : Unfinished}
    {ts : List (Positioned Token)} (hquote : ∀ t ∈ ts, t.value.isQuoteKeyword = false)
    (hv : v.IsPlain) (hopenings : v.openings = u.openings)
    (h : v.advanceAll ⟨false, limit⟩ (ts.map (·.value)) = .ok w) (position : Position) :
    u.readFrom ⟨true, limit⟩ ending ts ≠ .error ⟨.grammatical .nestingTooDeep, position⟩ := by
  induction ts generalizing u v with
  | nil =>
    cases ending with
    | failure error => cases u <;> simp [readFrom, conclude, Positioned.map]
    | endOfInput p =>
      cases u with
      | topLevel doneRev => simp [readFrom, conclude]
      | within innermost around doneRev =>
        have hne := refusalAtEnd_ne_nestingTooDeep innermost
        simp [readFrom, conclude, hne]
  | cons t ts ih =>
    rw [List.forall_mem_cons] at hquote
    cases hplain : v.advance ⟨false, limit⟩ t.value with
    | error error => simp [advanceAll, hplain] at h
    | ok v' =>
      rw [List.map_cons, advanceAll_cons_of_ok hplain] at h
      rw [readFrom]
      cases hform : u.advance ⟨true, limit⟩ t.value with
      | error error =>
        -- The two readings are inside as many lists and quotations, so the plain one would have
        -- been refused too.
        have hne : error ≠ .nestingTooDeep := by
          rintro rfl
          have hdeep := advance_eq_nestingTooDeep_of_isPlain hquote.1 hv hopenings hform
          rw [hplain] at hdeep
          cases hdeep
        simp [hne]
      | ok u' =>
        refine ih hquote.2 (hv.advance rfl hplain) ?_ h
        rw [openings_of_advance hquote.1 hplain, openings_of_advance hquote.1 hform, hopenings]

/-- A text that ends properly is not refused for a lexical error. -/
theorem readFrom_endOfInput_ne_lexical (rules : Rules) (u : Unfinished) (p : Position)
    (ts : List (Positioned Token)) (error : LexError) (position : Position) :
    u.readFrom rules (.endOfInput p) ts ≠ .error ⟨.lexical error, position⟩ := by
  rcases readFrom_cases rules (.endOfInput p) u ts with ⟨_, _, -, hread⟩ | ⟨_, hfailure, -⟩ |
    ⟨_, -, _, hread⟩
  · simp [hread]
  · cases hfailure
  · simp [hread]

end Unfinished

/-! ## Reading in both dialects -/

variable {endsAtUnknown : Bool} {source : String}

/-- The dialect with forms, and that of plain lists, which agree on unknown characters. -/
theorem TokenStream.ofSource_eq_ofSource (endsAtUnknown : Bool) (source : String) :
    ofSource ⟨true, endsAtUnknown⟩ source = ofSource ⟨false, endsAtUnknown⟩ source := by
  have hsame : Dialect.endsAtUnknown ⟨true, endsAtUnknown⟩ =
      Dialect.endsAtUnknown ⟨false, endsAtUnknown⟩ := rfl
  exact Scanner.stream_eq_of_endsAtUnknown_eq hsame _

/-- What is read with forms derives from the same tokens without them, once it is erased. -/
theorem derivesAll_erase_of_readProgram {p : Program}
    (hquote : ∀ t ∈ (TokenStream.ofSource ⟨true, endsAtUnknown⟩ source).significant,
      t.value.isQuoteKeyword = false)
    (h : readProgram ⟨true, endsAtUnknown⟩ source = .ok p) :
    (∃ position, (TokenStream.ofSource ⟨false, endsAtUnknown⟩ source).ending =
        .endOfInput position) ∧
      DerivesAll false
        ((TokenStream.ofSource ⟨false, endsAtUnknown⟩ source).significant.map (·.value))
        p.erase.expressions := by
  obtain ⟨hending, hderives, -⟩ := (readProgram_eq_ok_iff _ source p).1 h
  have hts : ∀ t ∈ (TokenStream.ofSource ⟨true, endsAtUnknown⟩ source).significant.map (·.value),
      t.Scanned ∧ t.isQuoteKeyword = false := by
    intro t ht
    refine ⟨TokenStream.scanned_of_mem_significant ht, ?_⟩
    obtain ⟨u, hu, rfl⟩ := List.mem_map.1 ht
    exact hquote u hu
  rw [← TokenStream.ofSource_eq_ofSource]
  exact ⟨hending, hderives.erase hts⟩

/-- **The two dialects agree up to erasure.**  Let the word `quote` not be in a text.

If it is read with forms, then without forms its erasure is read, or it is nested too deep; the
latter exactly if a form with parameters stands at the nesting limit, so that its parameters would
be one level deeper as a list.

If it is read without forms, then with forms it is not refused for a lexical error or for being
nested too deep; and if it is read, then as a program whose erasure was read without forms. -/
theorem readProgram_erase (endsAtUnknown : Bool) (source : String)
    (hquote : ∀ t ∈ (TokenStream.ofSource ⟨true, endsAtUnknown⟩ source).significant,
      t.value.isQuoteKeyword = false) :
    (∀ p, readProgram ⟨true, endsAtUnknown⟩ source = .ok p →
      (readProgram ⟨false, endsAtUnknown⟩ source = .ok p.erase ∨
          ∃ position, readProgram ⟨false, endsAtUnknown⟩ source =
            .error ⟨.grammatical .nestingTooDeep, position⟩) ∧
        ((∃ position, readProgram ⟨false, endsAtUnknown⟩ source =
            .error ⟨.grammatical .nestingTooDeep, position⟩) ↔
          nestingLimit ∈ p.parametricLevels)) ∧
      ∀ q, readProgram ⟨false, endsAtUnknown⟩ source = .ok q →
        (∀ error position, readProgram ⟨true, endsAtUnknown⟩ source ≠
          .error ⟨.lexical error, position⟩) ∧
        (∀ position, readProgram ⟨true, endsAtUnknown⟩ source ≠
          .error ⟨.grammatical .nestingTooDeep, position⟩) ∧
        ∀ p, readProgram ⟨true, endsAtUnknown⟩ source = .ok p → q = p.erase := by
  constructor
  · intro p hp
    obtain ⟨hending, herased⟩ := derivesAll_erase_of_readProgram hquote hp
    obtain ⟨-, -, hdepth⟩ := (readProgram_eq_ok_iff _ source p).1 hp
    have hcases := readProgram_eq_ok_or_nestingTooDeep hending herased
    refine ⟨hcases, ?_⟩
    have hread : readProgram ⟨false, endsAtUnknown⟩ source = .ok p.erase ↔
        nestingLimit ∉ p.parametricLevels := by
      rw [readProgram_eq_ok_iff, ← Program.depth_erase_le_iff_not_mem hdepth]
      exact ⟨fun h => h.2.2, fun h => ⟨hending, herased, h⟩⟩
    rw [← not_iff_not, ← hread]
    constructor
    · intro hnone
      exact hcases.resolve_right hnone
    · rintro hok ⟨position, herror⟩
      rw [hok] at herror
      cases herror
  · intro q hq
    obtain ⟨⟨place, hending⟩, hderives, -⟩ := (readProgram_eq_ok_iff _ source q).1 hq
    refine ⟨?_, ?_, ?_⟩
    · intro error position
      rw [← TokenStream.ofSource_eq_ofSource] at hending
      rw [readProgram_eq_readFrom, hending]
      exact Unfinished.readFrom_endOfInput_ne_lexical _ _ place _ error position
    · intro position
      rw [readProgram_eq_readFrom, Unfinished.readFrom_eq_ok_iff] at hq
      rw [TokenStream.ofSource_eq_ofSource] at hquote
      rw [readProgram_eq_readFrom, TokenStream.ofSource_eq_ofSource]
      exact Unfinished.readFrom_ne_nestingTooDeep hquote ⟨[], [], rfl, by simp⟩ rfl hq.2 position
    · intro p hp
      obtain ⟨-, herased⟩ := derivesAll_erase_of_readProgram hquote hp
      have hsame : q.expressions = p.erase.expressions := hderives.unique herased
      obtain ⟨es⟩ := q
      exact congrArg Program.mk hsame

/-- A function with two parameters, one of them called like a truth value. -/
theorem readProgram_erase_func :
    readProgram .standard "(FUNC f (x True) 'x)" =
        .ok ⟨[.func "f" ["x", "true"] [.quote (.identifier "x")]]⟩ ∧
      readProgram .plainLists "(FUNC f (x True) 'x)" =
        .ok ⟨[.list [.identifier "func", .identifier "f",
          .list [.identifier "x", .boolean true], .quote (.identifier "x")]]⟩ ∧
      ∀ position, readProgram .standard "(FUNC f (x True) 'x)" ≠
        .error ⟨.grammatical .nestingTooDeep, position⟩ := by
  have hstream : TokenStream.ofSource .standard "(FUNC f (x True) 'x)" =
      ⟨[⟨.opening, ⟨0, 0⟩⟩, ⟨.word (.keyword .func) "FUNC", ⟨0, 1⟩⟩, ⟨.identifier "f", ⟨0, 6⟩⟩,
        ⟨.opening, ⟨0, 8⟩⟩, ⟨.identifier "x", ⟨0, 9⟩⟩, ⟨.boolean true, ⟨0, 11⟩⟩,
        ⟨.closing, ⟨0, 15⟩⟩, ⟨.plain (.keyword .quote), ⟨0, 17⟩⟩, ⟨.identifier "x", ⟨0, 18⟩⟩,
        ⟨.closing, ⟨0, 19⟩⟩], .endOfInput ⟨0, 20⟩⟩ := by decide +kernel
  have hread : readProgram .standard "(FUNC f (x True) 'x)" =
      .ok ⟨[.func "f" ["x", "true"] [.quote (.identifier "x")]]⟩ := by
    rw [readProgram_eq_readFrom, hstream]
    rfl
  have hquote : ∀ t ∈ (TokenStream.ofSource .standard "(FUNC f (x True) 'x)").significant,
      t.value.isQuoteKeyword = false := by
    rw [hstream]
    decide
  have hshallow : nestingLimit ∉
      (Program.mk [.func "f" ["x", "true"] [.quote (.identifier "x")]]).parametricLevels := by
    decide
  obtain ⟨hforms, hplain⟩ := readProgram_erase true "(FUNC f (x True) 'x)" hquote
  obtain ⟨hcases, hdeep⟩ := hforms _ hread
  have herased := hcases.resolve_right fun h => hshallow (hdeep.1 h)
  exact ⟨hread, herased, (hplain _ herased).2.1⟩

end SmallLisp
