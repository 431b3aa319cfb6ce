import Mathlib.Data.Prod.Lex
import SmallLisp.Proofs.Scanning

/-!
# The order of the places in a text

Places are ordered as they are read, by the line first and by the column within it.  Every
character leads to a later place, so the tokens of a text stand at increasing places, with the end
of the stream behind all of them.  A place therefore says which of the tokens is meant.
-/

namespace SmallLisp

/-! ## Earlier and later -/

/-- Places are ordered by the line and, on one line, by the column. -/
instance : LinearOrder Position :=
  LinearOrder.lift' (fun p => toLex (p.line, p.column)) fun p q h => by
    obtain ⟨hline, hcolumn⟩ := Prod.ext_iff.1 (toLex.injective h)
    exact congrArg₂ Position.mk hline hcolumn

namespace Position

theorem lt_iff {p q : Position} :
    p < q ↔ p.line < q.line ∨ p.line = q.line ∧ p.column < q.column := by
  show toLex (p.line, p.column) < toLex (q.line, q.column) ↔ _
  rw [Prod.Lex.toLex_lt_toLex]

theorem lt_nextLine (p : Position) : p < p.nextLine :=
  lt_iff.2 (.inl (Nat.lt_succ_self _))

/-- A character leads to a later place. -/
theorem lt_after (p : Position) (c : Char) : p < p.after c := by
  unfold after
  split
  · exact p.lt_nextLine
  · exact lt_iff.2 (.inr ⟨rfl, Nat.lt_succ_self _⟩)

theorem le_afterAll (p : Position) (text : List Char) : p ≤ p.afterAll text := by
  induction text generalizing p with
  | nil => exact le_refl p
  | cons c text ih => exact (p.lt_after c).le.trans (ih (p.after c))

/-- A lexeme leads to a later place. -/
theorem lt_afterLexeme {lexeme rest : List Char} (h : Lexeme lexeme rest) (p : Position) :
    p < p.afterLexeme lexeme := by
  unfold afterLexeme
  split
  · exact p.lt_nextLine
  · obtain _ | ⟨c, letters⟩ := lexeme
    · exact absurd rfl h.ne_nil
    · exact (p.lt_after c).trans_le ((p.after c).le_afterAll letters)

end Position

/-- Where things stand at increasing places, a place says which of them is meant. -/
theorem getElem?_map_position_iff {α : Type} {place : α → Position} {l : List α} {k : Nat}
    {p : Position} (hincreasing : (l.map place).Pairwise (· < ·)) (hk : l[k]?.map place = some p)
    (j : Nat) : l[j]?.map place = some p ↔ j = k := by
  have hnodup : (l.map place).Nodup := hincreasing.imp ne_of_lt
  constructor
  · intro hj
    rw [← List.getElem?_map] at hj hk
    obtain ⟨hlt, -⟩ := List.getElem?_eq_some_iff.1 hj
    exact (List.getElem?_inj hlt hnodup).1 (hj.trans hk.symm)
  · rintro rfl
    exact hk

/-! ## The places of a stream -/

/-- Where a stream ends. -/
def StreamEnd.position : StreamEnd → Position
  | .endOfInput position => position
  | .failure error => error.position

/-- The places of a stream's tokens, and the place of its end. -/
def TokenStream.positions (stream : TokenStream) : List Position :=
  stream.tokens.map (·.position) ++ [stream.ending.position]

theorem Scanner.positions_stream_before (d : Dialect) (text : List Char) (p : Position) :
    (∀ q ∈ ((before text p).stream d).positions, p ≤ q) ∧
      ((before text p).stream d).positions.Pairwise (· < ·) := by
  induction text, p using text_induction with
  | nil p => simp [stream_before_nil, TokenStream.positions, StreamEnd.position]
  | blank c rest p hc ih =>
    rw [stream_before_blank hc]
    exact ⟨fun q hq => (p.lt_after c).le.trans (ih.1 q hq), ih.2⟩
  | lexeme lexeme rest p hlexeme ih =>
    obtain ⟨hle, hincreasing⟩ := ih
    -- A bad number is the last answer; behind any other lexeme all places are further on.
    cases ht : Token.ofLexeme lexeme with
    | error error =>
      simp [stream_before_bad_lexeme hlexeme ht, TokenStream.positions, StreamEnd.position]
    | ok t =>
      have hlt := Position.lt_afterLexeme hlexeme p
      have hpositions : ((before (lexeme ++ rest) p).stream d).positions =
          p :: ((before rest (p.afterLexeme lexeme)).stream d).positions := by
        rw [stream_before_lexeme hlexeme ht]
        rfl
      have hbehind : ∀ q ∈ ((before rest (p.afterLexeme lexeme)).stream d).positions, p < q :=
        fun q hq => hlt.trans_le (hle q hq)
      rw [hpositions]
      refine ⟨?_, List.pairwise_cons.2 ⟨hbehind, hincreasing⟩⟩
      intro q hq
      rcases List.mem_cons.1 hq with rfl | hq
      · exact le_refl _
      · exact (hbehind q hq).le
  | unknown c rest p hblank hsplit =>
    rw [stream_before_unknown hblank hsplit]
    cases hends : d.endsAtUnknown <;>
      simp [TokenStream.positions, StreamEnd.position]

/-- **The tokens of a text stand at increasing places**, and its end behind all of them. -/
theorem TokenStream.pairwise_positions_ofSource (d : Dialect) (source : String) :
    (ofSource d source).positions.Pairwise (· < ·) :=
  (Scanner.positions_stream_before d source.toList .start).2

/-! ## The places of a listing -/

/-- Where an answer of a scanner is. -/
def Scanner.Result.position : Scanner.Result → Position
  | .ok t => t.position
  | .error error => error.position

/-- The answer that a stream ends with. -/
def StreamEnd.answer : StreamEnd → Scanner.Result
  | .endOfInput position => .ok ⟨.plain .eof, position⟩
  | .failure error => .error error

namespace TokenStream

theorem listing_eq (showsLineEnds : Bool) (stream : TokenStream) :
    stream.listing showsLineEnds =
      (stream.shown showsLineEnds).map .ok ++ [stream.ending.answer] := by
  obtain ⟨tokens, ending | ending⟩ := stream
  · rfl
  · rfl

theorem map_position_listing (showsLineEnds : Bool) (stream : TokenStream) :
    (stream.listing showsLineEnds).map Scanner.Result.position =
      (stream.shown showsLineEnds).map (·.position) ++ [stream.ending.position] := by
  have hanswer : stream.ending.answer.position = stream.ending.position := by
    cases stream.ending <;> rfl
  rw [listing_eq, List.map_append, List.map_map, List.map_singleton, hanswer]
  rfl

/-- The answers of a listing stand at increasing places, with or without the ends of lines. -/
theorem pairwise_position_listing (d : Dialect) (source : String) (showsLineEnds : Bool) :
    (((ofSource d source).listing showsLineEnds).map Scanner.Result.position).Pairwise
      (· < ·) := by
  rw [map_position_listing]
  have hshown : ((ofSource d source).shown showsLineEnds).Sublist (ofSource d source).tokens :=
    List.filter_sublist
  exact (pairwise_positions_ofSource d source).sublist
    ((hshown.map _).append (List.Sublist.refl _))

end TokenStream
end SmallLisp
