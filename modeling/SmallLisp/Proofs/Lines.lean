import SmallLisp.Proofs.TextChars
import SmallLisp.Proofs.Writing

/-!
# One expression a line

A program is written with every expression on a line of its own.  That these are the lines of the
text takes two things.  There is no end of a line in the text of an expression, since nothing that
it is written with has one (`IsForeign.newline`).  And a line can be read by itself: the pieces of
an expression are lexemes also where nothing follows them, and a part of a canonical program is
canonical.
-/

namespace SmallLisp

/-- What is read is canonical, unless there is an infinity in it. -/
theorem isCanonical_of_readProgram {d : Dialect} {source : String} {p : Program}
    (h : readProgram d source = .ok p) (hreals : ∀ x ∈ p.reals, x.isInfinite = false) :
    p.isCanonical d = true := by
  obtain ⟨hregular, hnan, hdepth⟩ := isRegularAll_of_readProgram h
  refine Program.isCanonical_iff.2 ⟨hregular, fun x hx => ?_, hdepth⟩
  exact Binary64.isFinite_of_isNaN_of_isInfinite (hnan x hx) (hreals x hx)

/-- A canonical expression is read from its text, also where no line ends behind it. -/
theorem Expr.readProgram_chars {d : Dialect} {e : Expr}
    (h : Program.isCanonical d ⟨[e]⟩ = true) :
    readProgram d (String.ofList e.chars) = .ok ⟨[e]⟩ := by
  obtain ⟨hregular, hfinite, -⟩ := Program.isCanonical_iff.1 h
  have hspelled := Expr.spelled_of_mem_piecesAll hregular hfinite
  rw [Expr.piecesAll, Expr.piecesAll, List.append_nil] at hspelled
  obtain ⟨us, q, hspells, hus⟩ :=
    Piece.exists_spells_strokes hspelled (.nil isWordChar) (.nil isNumberChar) .start
  refine readProgram_of_tokens h (hspells.ofSource_eq d) ?_
  rw [hus, Piece.filter_map_token hspelled, Expr.piecesAll, Expr.piecesAll, List.append_nil]

namespace Program

variable {p : Program}

theorem toList_text (p : Program) :
    p.text.toList = p.expressions.flatMap fun e => e.chars ++ ['\n'] := by
  rw [text, String.toList_ofList, chars_eq_flatMap]

/-- The lines of a text are those of its expressions, and behind the last end of a line there is
nothing. -/
theorem splitOn_text (h : ∀ e ∈ p.expressions, '\n' ∉ e.chars) :
    p.text.toList.splitOn '\n' = p.expressions.map Expr.chars ++ [[]] := by
  obtain ⟨es⟩ := p
  rw [toList_text]
  induction es with
  | nil => rfl
  | cons e es ih =>
    obtain ⟨he, hes⟩ := List.forall_mem_cons.1 h
    have hline : ∀ c ∈ e.chars, (c == '\n') = false := fun c hc => by
      rw [beq_eq_false_iff_ne]
      rintro rfl
      exact he hc
    rw [List.flatMap_cons, List.append_assoc, List.singleton_append, List.splitOn,
      List.splitOnP_append_cons_of_forall_mem hline _ rfl]
    exact congrArg (e.chars :: ·) (ih hes)

theorem count_newline_text (h : ∀ e ∈ p.expressions, '\n' ∉ e.chars) :
    p.text.toList.count '\n' = p.expressions.length := by
  obtain ⟨es⟩ := p
  rw [toList_text]
  induction es with
  | nil => rfl
  | cons e es ih =>
    obtain ⟨he, hes⟩ := List.forall_mem_cons.1 h
    rw [List.flatMap_cons, List.count_append, List.count_append, List.count_eq_zero.2 he, ih hes]
    exact Nat.add_comm _ _

theorem getLast?_text (h : p.expressions ≠ []) : p.text.toList.getLast? = some '\n' := by
  obtain ⟨front, e, hexpressions⟩ := (List.eq_nil_or_concat p.expressions).resolve_left h
  rw [toList_text, hexpressions, List.concat_eq_append, List.flatMap_append,
    List.flatMap_singleton, ← List.append_assoc, List.getLast?_concat]

end Program

/-- **One expression a line.**  The text of a program that was read, if there is no infinity in it,
is written in full.  It has no carriage returns; it has as many newlines as the program has
expressions, and ends with one unless there are none; and each of its lines, with or without the
newline, is read in the same dialect as the program of one expression, which is the one at that
place. -/
theorem readProgram_line {d : Dialect} {source : String} {p : Program}
    (h : readProgram d source = .ok p) (hreals : ∀ x ∈ p.reals, x.isInfinite = false) :
    p.writeTo {} = .ok { written := utf8Bytes p.text.toList } ∧
      '\r' ∉ p.text.toList ∧
      p.text.toList.count '\n' = p.expressions.length ∧
      (p.expressions ≠ [] → p.text.toList.getLast? = some '\n') ∧
      ∀ (i : Nat) (e : Expr), p.expressions[i]? = some e →
        ∃ line, (p.text.toList.splitOn '\n')[i]? = some line ∧
          readProgram d (String.ofList line) = .ok ⟨[e]⟩ ∧
          readProgram d (String.ofList (line ++ ['\n'])) = .ok ⟨[e]⟩ := by
  have hcanonical := isCanonical_of_readProgram h hreals
  obtain ⟨hregular, -, -⟩ := isRegularAll_of_readProgram h
  have hnewline : ∀ e ∈ p.expressions, '\n' ∉ e.chars := fun e he =>
    IsForeign.newline.not_mem_chars (Expr.isRegular_of_mem hregular he)
  have hreturn : '\r' ∉ p.text.toList :=
    IsForeign.carriageReturn.not_mem_text_program (by decide) hregular
  refine ⟨p.writeTo_unlimited, hreturn, p.count_newline_text hnewline, p.getLast?_text, ?_⟩
  intro i e hi
  have he : Program.isCanonical d ⟨[e]⟩ = true :=
    Program.isCanonical_of_mem hcanonical (List.mem_of_getElem? hi)
  refine ⟨e.chars, ?_, Expr.readProgram_chars he, ?_⟩
  · obtain ⟨hlt, -⟩ := List.getElem?_eq_some_iff.1 hi
    rw [Program.splitOn_text hnewline, List.getElem?_append_left (by simpa using hlt),
      List.getElem?_map, hi, Option.map_some]
  · have htext := readProgram_text_of_isCanonical he
    rwa [Program.text, Program.chars_eq_flatMap, List.flatMap_singleton] at htext

/-- Two expressions, the second of them begun on the line of the first and ended on the next. -/
theorem readProgram_line_second :
    readProgram .strict "(quote a)(b\r-0.50)" =
        .ok ⟨[.quote (.identifier "a"),
          .list [.identifier "b", .real (.ofBits 0xBFE0000000000000)]]⟩ ∧
      ∃ line,
        ((Program.mk [.quote (.identifier "a"),
          .list [.identifier "b", .real (.ofBits 0xBFE0000000000000)]]).text.toList.splitOn
            '\n')[1]? = some line ∧
        readProgram .strict (String.ofList line) =
          .ok ⟨[.list [.identifier "b", .real (.ofBits 0xBFE0000000000000)]]⟩ := by
  have hstream : TokenStream.ofSource .strict "(quote a)(b\r-0.50)" =
      ⟨[⟨.opening, ⟨0, 0⟩⟩, ⟨.word (.keyword .quote) "quote", ⟨0, 1⟩⟩,
        ⟨.identifier "a", ⟨0, 7⟩⟩, ⟨.closing, ⟨0, 8⟩⟩, ⟨.opening, ⟨0, 9⟩⟩,
        ⟨.identifier "b", ⟨0, 10⟩⟩, ⟨.plain .endLine, ⟨0, 11⟩⟩,
        ⟨.number (.real (.ofBits 0xBFE0000000000000)), ⟨1, 0⟩⟩, ⟨.closing, ⟨1, 5⟩⟩],
        .endOfInput ⟨1, 6⟩⟩ := by decide +kernel
  have hread : readProgram .strict "(quote a)(b\r-0.50)" =
      .ok ⟨[.quote (.identifier "a"),
        .list [.identifier "b", .real (.ofBits 0xBFE0000000000000)]]⟩ := by
    rw [readProgram_eq_readFrom, hstream]
    rfl
  obtain ⟨-, -, -, -, hlines⟩ := readProgram_line hread (by decide)
  obtain ⟨line, hline, hreadLine, -⟩ := hlines 1 _ rfl
  exact ⟨hread, line, hline, hreadLine⟩

end SmallLisp
