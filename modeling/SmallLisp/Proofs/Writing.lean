import Mathlib.Control.Basic
import SmallLisp.Proofs.Encoding

/-!
# Writing up to the first failure

The text of an expression is laid out as a whole, by one rule for the spaces between its pieces.  It
is written part by part, and every part puts the spaces in front of its own parts.  Both come to the
same strokes (`Expr.writeWith_eq`): a part begins and ends with a piece that has a space between it
and the next part (`Piece.IsWhole`), so the layout of a whole is put together from the layouts of
its parts.

So writing a program, to whatever output, is handing on its strokes in order until the output fails.
If what fails is an output without enough room, then how the text was cut into strokes cannot be
seen in it (`Sink.writeStrokes_put`): it holds the beginning of the text that there was room for.
-/

namespace SmallLisp

/-! ## The layout of parts -/

namespace Piece

/-- What stands between a piece and the pieces behind it: a space, or nothing. -/
def gap (p : Piece) (ps : List Piece) : List (List Char) :=
  if ps.head?.any p.needsSpace then [[' ']] else []

theorem strokes_cons (p : Piece) (ps : List Piece) :
    strokes (p :: ps) = p.chars :: (gap p ps ++ strokes ps) := by
  cases ps with
  | nil => rfl
  | cons q ps =>
    rw [strokes, gap, List.head?_cons, Option.any_some]
    split
    · rfl
    · rfl

/-- What is in front of a piece and what is behind it are laid out by themselves. -/
theorem strokes_append (front : List Piece) (p : Piece) (behind : List Piece) :
    strokes (front ++ [p] ++ behind) =
      strokes (front ++ [p]) ++ (gap p behind ++ strokes behind) := by
  induction front with
  | nil => exact strokes_cons p behind
  | cons o front ih =>
    have hgap : gap o (front ++ [p] ++ behind) = gap o (front ++ [p]) := by
      cases front with
      | nil => rfl
      | cons q front => rfl
    rw [List.cons_append, List.cons_append, strokes_cons, strokes_cons, ih, hgap]
    simp

/-- Pieces that are laid out like an expression: a space is needed between them and whatever
stands next to them that is laid out like one. -/
structure IsWhole (ps : List Piece) : Prop where
  begins : ∃ first rest, ps = first :: rest ∧ first ≠ closing
  ends : ∃ front last, ps = front ++ [last] ∧ ∀ q, q ≠ closing → last.needsSpace q = true

theorem isWhole_word (letters : List Char) : IsWhole [word letters] := by
  refine ⟨⟨_, _, rfl, by simp⟩, [], _, rfl, fun q hq => ?_⟩
  cases q <;> simp_all [needsSpace]

theorem isWhole_enclosed (ps : List Piece) : IsWhole (opening :: ps ++ [closing]) := by
  refine ⟨⟨_, _, rfl, by simp⟩, _, _, rfl, fun q hq => ?_⟩
  cases q <;> simp_all [needsSpace]

namespace IsWhole

variable {ps qs : List Piece}

theorem tick_cons (h : IsWhole ps) : IsWhole (tick :: ps) := by
  obtain ⟨front, last, rfl, hlast⟩ := h.ends
  exact ⟨⟨_, _, rfl, by simp⟩, tick :: front, last, rfl, hlast⟩

theorem append (h : IsWhole ps) (h' : IsWhole qs) : IsWhole (ps ++ qs) := by
  obtain ⟨first, rest, rfl, hfirst⟩ := h.begins
  obtain ⟨front, last, rfl, hlast⟩ := h'.ends
  exact ⟨⟨first, _, rfl, hfirst⟩, first :: rest ++ front, last, (List.append_assoc _ _ _).symm,
    hlast⟩

/-- Between two wholes there is a space. -/
theorem strokes_append (h : IsWhole ps) (h' : IsWhole qs) :
    strokes (ps ++ qs) = strokes ps ++ [' '] :: strokes qs := by
  obtain ⟨front, last, rfl, hlast⟩ := h.ends
  obtain ⟨first, rest, rfl, hfirst⟩ := h'.begins
  rw [Piece.strokes_append, gap, List.head?_cons, Option.any_some, if_pos (hlast first hfirst)]
  rfl

theorem strokes_tick_cons (h : IsWhole ps) : strokes (tick :: ps) = ['\''] :: strokes ps := by
  obtain ⟨first, rest, rfl, -⟩ := h.begins
  rfl

end IsWhole

/-- Parentheses stand next to what they enclose. -/
theorem strokes_enclosed {ps : List Piece} (h : ps = [] ∨ IsWhole ps) :
    strokes (opening :: ps ++ [closing]) = ['('] :: strokes ps ++ [[')']] := by
  rcases h with rfl | h
  · rfl
  · obtain ⟨front, last, rfl, -⟩ := h.ends
    have hopening : gap opening (front ++ [last] ++ [closing]) = [] := by
      cases front with
      | nil => rfl
      | cons p front => rfl
    have hclosing : gap last [closing] = [] := by cases last <;> rfl
    rw [List.cons_append, strokes_cons, hopening, Piece.strokes_append, hclosing]
    rfl

end Piece

/-! ## The layout of expressions -/

open Piece

namespace Piece

theorem isWhole_names (name : String) (names : List String) :
    IsWhole (ofString name :: names.map ofString) := by
  induction names generalizing name with
  | nil => exact isWhole_word _
  | cons name' names ih => exact (isWhole_word name.toList).append (ih name')

theorem strokes_names (name : String) (names : List String) :
    strokes (ofString name :: names.map ofString) =
      name.toList :: names.flatMap fun name => [[' '], name.toList] := by
  induction names generalizing name with
  | nil => rfl
  | cons name' names ih =>
    rw [List.map_cons, strokes_cons, ih]
    rfl

end Piece

theorem Expr.isWhole_pieces (e : Expr) : IsWhole e.pieces := by
  cases e with
  | integer n => exact isWhole_word _
  | real x => exact isWhole_word _
  | boolean b => exact isWhole_word _
  | identifier name => exact isWhole_word _
  | string s => exact isWhole_word _
  | quote e => exact e.isWhole_pieces.tick_cons
  | cond test yes no => cases no <;> exact isWhole_enclosed _
  | _ => exact isWhole_enclosed _

namespace Piece.IsWhole

variable {ps : List Piece}

theorem append_piecesAll (h : IsWhole ps) (es : List Expr) : IsWhole (ps ++ Expr.piecesAll es) := by
  induction es generalizing ps with
  | nil => rwa [Expr.piecesAll, List.append_nil]
  | cons e es ih =>
    rw [Expr.piecesAll, ← List.append_assoc]
    exact ih (h.append e.isWhole_pieces)

/-- There is a space in front of every expression behind a whole. -/
theorem strokes_append_piecesAll (h : IsWhole ps) (es : List Expr) :
    strokes (ps ++ Expr.piecesAll es) = strokes ps ++ es.flatMap fun e => [' '] :: e.strokes := by
  induction es generalizing ps with
  | nil => rw [Expr.piecesAll, List.append_nil, List.flatMap_nil, List.append_nil]
  | cons e es ih =>
    rw [Expr.piecesAll, ← List.append_assoc, ih (h.append e.isWhole_pieces),
      h.strokes_append e.isWhole_pieces, List.flatMap_cons, List.append_assoc]
    rfl

end Piece.IsWhole

/-! ## Part by part -/

section

variable {σ : Type} (put : List Char → σ → Except σ σ)

theorem writeStrokes_singleton (stroke : List Char) : writeStrokes put [stroke] = put stroke :=
  fish_pure _

theorem writeStrokes_append (front behind : List (List Char)) :
    writeStrokes put (front ++ behind) = writeStrokes put front >=> writeStrokes put behind := by
  induction front with
  | nil => exact (fish_pipe _).symm
  | cons stroke front ih => rw [List.cons_append, writeStrokes, writeStrokes, ih, fish_assoc]

/-- Parentheses are written around what they enclose. -/
theorem writeStrokes_enclosed {ps : List Piece} (h : ps = [] ∨ IsWhole ps) :
    writeStrokes put (strokes (opening :: ps ++ [closing])) =
      put ['('] >=> writeStrokes put (strokes ps) >=> put [')'] := by
  rw [strokes_enclosed h, writeStrokes_append, writeStrokes, writeStrokes_singleton, fish_assoc]

theorem writeSpacedNames_eq (names : List String) :
    writeSpacedNames put names =
      writeStrokes put (names.flatMap fun name => [[' '], name.toList]) := by
  induction names with
  | nil => rfl
  | cons name names ih =>
    rw [writeSpacedNames, ih, List.flatMap_cons, writeStrokes_append, writeStrokes,
      writeStrokes_singleton, fish_assoc]

theorem writeNames_eq (names : List String) :
    writeNames put names = writeStrokes put (strokes (ofNames names)) := by
  cases names with
  | nil => rw [ofNames, List.map_nil, writeStrokes_enclosed put (.inl rfl), writeNames]; rfl
  | cons name names =>
    rw [ofNames, List.map_cons, writeStrokes_enclosed put (.inr (isWhole_names name names)),
      strokes_names, writeStrokes, ← writeSpacedNames_eq, fish_assoc]
    rfl

theorem isWhole_ofNames (names : List String) : IsWhole (ofNames names) := isWhole_enclosed _

theorem isWhole_ofString (s : String) : IsWhole [ofString s] := isWhole_word _

theorem writeStrokes_ofString_cons (s : String) {ps : List Piece} (h : IsWhole ps) :
    writeStrokes put (strokes (ofString s :: ps)) =
      put s.toList >=> put [' '] >=> writeStrokes put (strokes ps) := by
  have hstrokes : strokes (ofString s :: ps) = [s.toList] ++ [' '] :: strokes ps :=
    (isWhole_ofString s).strokes_append h
  rw [hstrokes]
  rfl

theorem writeStrokes_whole_append {ps qs : List Piece} (h : IsWhole ps) (h' : IsWhole qs) :
    writeStrokes put (strokes (ps ++ qs)) =
      writeStrokes put (strokes ps) >=> put [' '] >=> writeStrokes put (strokes qs) := by
  rw [h.strokes_append h', writeStrokes_append, writeStrokes]

/-- The beginning of a form, and what is written behind it. -/
theorem writeStrokes_form (k : Keyword) {ps : List Piece} (h : IsWhole ps) :
    writeStrokes put (strokes (opening :: (ofString k.word :: ps) ++ [closing])) =
      writeHead put k >=> put [' '] >=> writeStrokes put (strokes ps) >=> put [')'] := by
  have hwhole : IsWhole (ofString k.word :: ps) := (isWhole_ofString k.word).append h
  rw [writeStrokes_enclosed put (.inr hwhole), writeStrokes_ofString_cons put k.word h, writeHead]
  simp only [fish_assoc]

/-- Writing a whole and then expressions, each behind a space. -/
theorem writeStrokes_append_piecesAll {ps : List Piece} (h : IsWhole ps) (es : List Expr) :
    writeStrokes put (strokes (ps ++ Expr.piecesAll es)) =
      writeStrokes put (strokes ps) >=>
        writeStrokes put (es.flatMap fun e => [' '] :: e.strokes) := by
  rw [h.strokes_append_piecesAll, writeStrokes_append]

theorem writeStrokes_lambda (parameters : List String) (body : Expr) :
    writeStrokes put (Piece.strokes (Expr.lambda parameters body).pieces) =
      writeHead put .lambda >=> put [' '] >=> writeNames put parameters >=> put [' '] >=>
        writeStrokes put body.strokes >=> put [')'] := by
  have hnames := isWhole_ofNames parameters
  refine (writeStrokes_form put .lambda (hnames.append body.isWhole_pieces)).trans ?_
  rw [writeStrokes_whole_append put hnames body.isWhole_pieces, ← writeNames_eq, Expr.strokes]
  simp only [fish_assoc]

mutual

/-- An expression is written by its strokes, in order: of whatever kind it is, its parts are
wholes, and it puts the spaces between them that the layout puts there. -/
theorem Expr.writeWith_eq (e : Expr) : e.writeWith put = writeStrokes put e.strokes := by
  unfold Expr.strokes
  -- By the kind of expression, as the writer goes through it; the layout has a piece for each
  -- part.
  cases e with
  | integer n => exact (writeStrokes_singleton put _).symm
  | real x => exact (writeStrokes_singleton put _).symm
  | boolean b => exact (writeStrokes_singleton put _).symm
  | identifier name => exact (writeStrokes_singleton put _).symm
  | string s => exact (writeStrokes_singleton put _).symm
  | list items =>
    have hitems : Expr.piecesAll items = [] ∨ IsWhole (Expr.piecesAll items) := by
      cases items with
      | nil => exact .inl rfl
      | cons e es => exact .inr (e.isWhole_pieces.append_piecesAll es)
    rw [Expr.writeWith, Expr.writeItemsWith_eq items]
    exact (writeStrokes_enclosed put hitems).symm
  | call function arguments =>
    have hname := isWhole_ofString function
    have hall := writeStrokes_append_piecesAll put hname arguments
    have hword : writeStrokes put (Piece.strokes [ofString function]) = put function.toList :=
      writeStrokes_singleton put _
    rw [Expr.writeWith, Expr.writeSpacedWith_eq arguments, ← hword, ← fish_assoc _ _ (put [')']),
      ← hall]
    exact (writeStrokes_enclosed put (.inr (hname.append_piecesAll arguments))).symm
  | quote e =>
    rw [Expr.writeWith, Expr.writeWith_eq e, Expr.pieces, e.isWhole_pieces.strokes_tick_cons]
    rfl
  | setq name value =>
    have hform := writeStrokes_form put .setq ((isWhole_ofString name).append value.isWhole_pieces)
    refine Eq.trans ?_ hform.symm
    rw [List.singleton_append, writeStrokes_ofString_cons put name value.isWhole_pieces,
      Expr.writeWith, Expr.writeWith_eq value, Expr.strokes]
    simp only [fish_assoc]
  | cond test yes no =>
    have hboth := test.isWhole_pieces.append yes.isWhole_pieces
    cases no with
    | none =>
      refine Eq.trans ?_ (writeStrokes_form put .cond hboth).symm
      rw [writeStrokes_whole_append put test.isWhole_pieces yes.isWhole_pieces,
        Expr.writeWith, Expr.writeWith_eq test, Expr.writeWith_eq yes, Expr.strokes, Expr.strokes]
      simp only [fish_assoc]
    | some no =>
      refine Eq.trans ?_ (writeStrokes_form put .cond (hboth.append no.isWhole_pieces)).symm
      rw [writeStrokes_whole_append put hboth no.isWhole_pieces,
        writeStrokes_whole_append put test.isWhole_pieces yes.isWhole_pieces,
        Expr.writeWith, Expr.writeWith_eq test, Expr.writeWith_eq yes, Expr.writeWith_eq no,
        Expr.strokes, Expr.strokes, Expr.strokes]
      simp only [fish_assoc]
  | func name parameters body =>
    have hnames := isWhole_ofNames parameters
    have hname : IsWhole (ofString name :: ofNames parameters) :=
      (isWhole_ofString name).append hnames
    refine Eq.trans ?_ (writeStrokes_form put .func (hname.append_piecesAll body)).symm
    rw [writeStrokes_append_piecesAll put hname body,
      writeStrokes_ofString_cons put name hnames, ← writeNames_eq, Expr.writeWith,
      Expr.writeSpacedWith_eq body]
    simp only [fish_assoc]
  | lambda parameters body =>
    rw [Expr.writeWith, Expr.writeWith_eq body]
    exact (writeStrokes_lambda put parameters body).symm
  | lambdaCall parameters body arguments =>
    have hfunction := (Expr.lambda parameters body).isWhole_pieces
    have hall := hfunction.append_piecesAll arguments
    refine Eq.trans ?_ (writeStrokes_enclosed put (.inr hall)).symm
    rw [writeStrokes_append_piecesAll put hfunction arguments, writeStrokes_lambda, Expr.writeWith,
      Expr.writeWith_eq body, Expr.writeSpacedWith_eq arguments]
    simp only [fish_assoc]
  | prog parameters body =>
    have hnames := isWhole_ofNames parameters
    refine Eq.trans ?_ (writeStrokes_form put .prog (hnames.append_piecesAll body)).symm
    rw [writeStrokes_append_piecesAll put hnames body, ← writeNames_eq, Expr.writeWith,
      Expr.writeSpacedWith_eq body]
    simp only [fish_assoc]
  | whileLoop condition body =>
    have hcondition := condition.isWhole_pieces
    refine Eq.trans ?_ (writeStrokes_form put .whileLoop (hcondition.append_piecesAll body)).symm
    rw [writeStrokes_append_piecesAll put hcondition body, Expr.writeWith,
      Expr.writeWith_eq condition, Expr.strokes, Expr.writeSpacedWith_eq body]
    simp only [fish_assoc]

theorem Expr.writeItemsWith_eq (es : List Expr) :
    Expr.writeItemsWith put es = writeStrokes put (Piece.strokes (Expr.piecesAll es)) := by
  cases es with
  | nil => rfl
  | cons e es =>
    rw [Expr.writeItemsWith, Expr.writeWith_eq e, Expr.writeSpacedWith_eq es, Expr.piecesAll,
      writeStrokes_append_piecesAll put e.isWhole_pieces, Expr.strokes]

theorem Expr.writeSpacedWith_eq (es : List Expr) :
    Expr.writeSpacedWith put es = writeStrokes put (es.flatMap fun e => [' '] :: e.strokes) := by
  cases es with
  | nil => rfl
  | cons e es =>
    rw [Expr.writeSpacedWith, Expr.writeWith_eq e, Expr.writeSpacedWith_eq es, List.flatMap_cons,
      List.cons_append, writeStrokes, writeStrokes_append]

end

theorem Expr.writeLinesWith_eq (es : List Expr) :
    Expr.writeLinesWith put es = writeStrokes put (es.flatMap fun e => e.strokes ++ [['\n']]) := by
  induction es with
  | nil => rfl
  | cons e es ih =>
    rw [Expr.writeLinesWith, Expr.writeWith_eq, ih, List.flatMap_cons, writeStrokes_append,
      writeStrokes_append, writeStrokes_singleton, fish_assoc]

/-- **A program is written by its strokes**, in order. -/
theorem Program.writeWith_eq (p : Program) : p.writeWith put = writeStrokes put p.strokes :=
  Expr.writeLinesWith_eq put p.expressions

/-! ## The first failure -/

variable {put} {strokes : List (List Char)} {out left : σ}

/-- Where writing fails, it fails at one of the strokes: everything in front of it has been written,
and the output is left as that failure left it. -/
theorem exists_of_writeStrokes_eq_error (h : writeStrokes put strokes out = .error left) :
    ∃ done stroke later ready, strokes = done ++ stroke :: later ∧
      writeStrokes put done out = .ok ready ∧ put stroke ready = .error left := by
  induction strokes generalizing out with
  | nil => cases h
  | cons stroke strokes ih =>
    change (put stroke out >>= writeStrokes put strokes) = .error left at h
    -- Strokes are written in order, so the first failure ends everything.
    cases hput : put stroke out with
    | error left' =>
      rw [hput] at h
      cases h
      exact ⟨[], stroke, strokes, out, rfl, rfl, hput⟩
    | ok next =>
      rw [hput] at h
      obtain ⟨done, stroke', later, ready, rfl, hdone, hfailed⟩ := ih h
      refine ⟨stroke :: done, stroke', later, ready, rfl, ?_, hfailed⟩
      change (put stroke out >>= writeStrokes put done) = .ok ready
      rw [hput]
      exact hdone

end

/-! ## An output without enough room -/

namespace Sink

variable {sink : Sink} {n : Nat} {written bytes : List UInt8}

theorem write_of_length_le (h : (written ++ bytes).length ≤ n) :
    write ⟨some n, written⟩ bytes = .ok ⟨some n, written ++ bytes⟩ := if_pos h

theorem write_of_lt_length (h : n < (written ++ bytes).length) :
    write ⟨some n, written⟩ bytes = .error ⟨some n, (written ++ bytes).take n⟩ :=
  if_neg (Nat.not_le.2 h)

theorem written_afterAttempt_write :
    (afterAttempt (write ⟨some n, written⟩ bytes)).written = (written ++ bytes).take n := by
  by_cases hroom : (written ++ bytes).length ≤ n
  · rw [write_of_length_le hroom, afterAttempt, List.take_of_length_le hroom]
  · rw [write_of_lt_length (Nat.not_le.1 hroom), afterAttempt]

theorem exists_write_eq_error_iff :
    (∃ left, write ⟨some n, written⟩ bytes = .error left) ↔ n < (written ++ bytes).length := by
  refine ⟨fun ⟨left, h⟩ => Nat.lt_of_not_le fun hroom => ?_, fun h => ⟨_, write_of_lt_length h⟩⟩
  rw [write_of_length_le hroom] at h
  cases h

/-- No more has been written to the output than it can hold. -/
def IsWithinLimit (sink : Sink) : Prop := ∀ n ∈ sink.limit, sink.written.length ≤ n

theorem write_nil (h : sink.IsWithinLimit) : sink.write [] = .ok sink := by
  obtain ⟨limit, written⟩ := sink
  cases limit with
  | none => rw [write, List.append_nil]
  | some n => rw [write_of_length_le (by rw [List.append_nil]; exact h n rfl), List.append_nil]

theorem isWithinLimit_of_write_eq_ok {sink' : Sink} (h : sink.write bytes = .ok sink') :
    sink'.IsWithinLimit := by
  obtain ⟨limit, written⟩ := sink
  cases limit with
  | none =>
    cases h
    intro n hn
    cases hn
  | some n =>
    by_cases hroom : (written ++ bytes).length ≤ n
    · rw [write_of_length_le hroom] at h
      cases h
      intro n' hn'
      cases hn'
      exact hroom
    · rw [write_of_lt_length (Nat.not_le.1 hroom)] at h
      cases h

/-- Whether bytes are written all at once or in two parts makes no difference, also where there is
room for only some of them. -/
theorem write_append (sink : Sink) (front behind : List UInt8) :
    sink.write (front ++ behind) = sink.write front >>= fun sink => sink.write behind := by
  obtain ⟨limit, written⟩ := sink
  cases limit with
  | none =>
    change Except.ok (Sink.mk none (written ++ (front ++ behind))) = .ok ⟨none, _ ++ behind⟩
    rw [List.append_assoc]
  | some n =>
    by_cases hfront : (written ++ front).length ≤ n
    · rw [write_of_length_le hfront]
      change write ⟨some n, written⟩ (front ++ behind) = write ⟨some n, written ++ front⟩ behind
      rw [write, write, List.append_assoc]
    -- Where the front does not fit there is no room for what is behind it, and the same bytes get
    -- in.
    · have hn : n < (written ++ front).length := Nat.not_le.1 hfront
      have hall : n < (written ++ (front ++ behind)).length := by
        rw [← List.append_assoc, List.length_append]
        omega
      rw [write_of_lt_length hn, write_of_lt_length hall, ← List.append_assoc,
        List.take_append_of_le_length (Nat.le_of_lt hn)]
      rfl

/-- How a text is cut into strokes cannot be seen in an output that takes bytes up to a limit.
-/
theorem writeStrokes_put (strokes : List (List Char)) (h : sink.IsWithinLimit) :
    writeStrokes put strokes sink = sink.write (utf8Bytes strokes.flatten) := by
  induction strokes generalizing sink with
  | nil => exact (write_nil h).symm
  | cons stroke strokes ih =>
    rw [List.flatten_cons, utf8Bytes_append, write_append]
    change (sink.write (utf8Bytes stroke) >>= writeStrokes put strokes) = _
    cases hwritten : sink.write (utf8Bytes stroke) with
    | error left => rfl
    | ok sink' => exact ih (isWithinLimit_of_write_eq_ok hwritten)

theorem isWithinLimit_nil (limit : Option Nat) : IsWithinLimit ⟨limit, []⟩ :=
  fun n _ => Nat.zero_le n

end Sink

theorem Program.writeTo_eq_write (p : Program) {sink : Sink} (h : sink.IsWithinLimit) :
    p.writeTo sink = sink.write (utf8Bytes p.text.toList) := by
  rw [Program.writeTo, p.writeWith_eq, Sink.writeStrokes_put _ h, Program.text,
    String.toList_ofList, Program.chars]

/-- Where there is no limit, the whole text is written. -/
theorem Program.writeTo_unlimited (p : Program) :
    p.writeTo {} = .ok { written := utf8Bytes p.text.toList } :=
  p.writeTo_eq_write (Sink.isWithinLimit_nil none)

/-- **What is left behind in an output without enough room** is the beginning of the text: as many
bytes as there is room for, and the writing fails exactly if that is not all of them.

That the writing stops where it fails is true of every output, whatever makes it fail: the strokes
in front of the one that failed have been written, and it is left as that failure left it. -/
theorem Program.writeTo_beginning (p : Program) (n : Nat) :
    (Sink.afterAttempt (p.writeTo { limit := some n })).written =
        (utf8Bytes p.text.toList).take (min n (utf8Bytes p.text.toList).length) ∧
      ((∃ left, p.writeTo { limit := some n } = .error left) ↔
        n < (utf8Bytes p.text.toList).length) ∧
      ∀ (σ : Type) (put : List Char → σ → Except σ σ) (out left : σ),
        p.writeWith put out = .error left →
          ∃ done stroke later ready, p.strokes = done ++ stroke :: later ∧
            writeStrokes put done out = .ok ready ∧ put stroke ready = .error left := by
  rw [p.writeTo_eq_write (Sink.isWithinLimit_nil (some n))]
  refine ⟨?_, Sink.exists_write_eq_error_iff, fun σ put out left h => ?_⟩
  · rw [Sink.written_afterAttempt_write, List.nil_append, List.take_eq_take_min]
  · rw [p.writeWith_eq] at h
    exact exists_of_writeStrokes_eq_error h

/-- An output with room for three bytes is full in the middle of a letter, in a list in a
quotation. -/
theorem Program.writeTo_beginning_cut :
    (⟨[.quote (.list [.identifier "é", .integer 1])]⟩ : Program).writeWith Sink.put
        { limit := some 3 } = .error { limit := some 3, written := [0x27, 0x28, 0xC3] } ∧
      ∃ done stroke later ready,
        (⟨[.quote (.list [.identifier "é", .integer 1])]⟩ : Program).strokes =
            done ++ stroke :: later ∧
          writeStrokes Sink.put done { limit := some 3 } = .ok ready ∧
          Sink.put stroke ready = .error { limit := some 3, written := [0x27, 0x28, 0xC3] } :=
  ⟨rfl, (Program.writeTo_beginning _ 3).2.2 Sink Sink.put _ _ rfl⟩

end SmallLisp
