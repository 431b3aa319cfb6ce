import SmallLisp.Proofs.ForeignChars
import SmallLisp.Proofs.RoundTrip
import SmallLisp.Report

/-!
# The characters of what is written

Nothing that is written has a foreign character: no expression that could have been read, and no
line of a listing.  An infinity is written as a word, and the end of a line is listed by two
characters that are both on one line.
-/

namespace SmallLisp
namespace IsForeign

variable {c : Char}

/-! ## What is written -/

theorem not_mem_of_spelled {p : Piece} (hc : IsForeign c) (h : p.Spelled) : c ∉ p.chars := by
  have hsingle : ∀ c' ∈ ['(', ')', '\''], c ∉ [c'] := fun c' hc' hmem =>
    hc.ne_of_mem (List.mem_append_left ['-', '\\', '@', ' '] hc') (List.mem_singleton.1 hmem)
  cases h with
  | opening => exact hsingle _ (by decide)
  | closing => exact hsingle _ (by decide)
  | tick => exact hsingle _ (by decide)
  | word hword => exact hc.not_mem_of_isWord hword
  | number hn => exact hc.not_mem_of_isNumberLexeme (Number.isNumberLexeme_chars hn)

theorem not_mem_real (hc : IsForeign c) (x : Binary64) : c ∉ x.text := by
  rcases Piece.spelled_or_eq_minusInfinity x with h | h
  · exact hc.not_mem_of_spelled h
  · have hword : isWord ['i', 'n', 'f'] = true := by decide +kernel
    rw [Piece.word.inj h, List.mem_cons, not_or]
    exact ⟨hc.ne_of_mem (by decide), hc.not_mem_of_isWord hword⟩

/-- The layout of pieces adds spaces only. -/
theorem not_mem_strokes (hc : IsForeign c) {ps : List Piece} (h : ∀ p ∈ ps, c ∉ p.chars) :
    c ∉ (Piece.strokes ps).flatten := by
  have hspace : c ≠ ' ' := hc.ne_of_mem (by decide)
  fun_induction Piece.strokes ps with
  | case1 => simp
  | case2 p => simpa using h
  | case3 p q rest hneeds ih =>
    rw [List.forall_mem_cons] at h
    simpa [hspace] using ⟨h.1, by simpa using ih h.2⟩
  | case4 p q rest hneeds ih =>
    rw [List.forall_mem_cons] at h
    simpa using ⟨h.1, by simpa using ih h.2⟩

/-- Neither has the text of a regular tree. -/
theorem not_mem_chars (hc : IsForeign c) {readsForms : Bool} {e : Expr}
    (h : e.isRegular readsForms = true) : c ∉ e.chars :=
  hc.not_mem_strokes <| Expr.forall_mem_pieces (fun _ hp => hc.not_mem_of_spelled hp) h fun x _ =>
    hc.not_mem_real x

/-- The text of a program adds the ends of lines. -/
theorem not_mem_text_program (hc : IsForeign c) (hline : c ≠ '\n') {readsForms : Bool} {p : Program}
    (h : Expr.isRegularAll readsForms p.expressions = true) : c ∉ p.text.toList := by
  rw [Program.text, String.toList_ofList, Program.chars_eq_flatMap, List.mem_flatMap]
  rintro ⟨e, he, hmem⟩
  have hchars := hc.not_mem_chars (Expr.isRegular_of_mem h he)
  simp [hchars, hline] at hmem

/-! ## What is listed -/

theorem not_mem_toDigits (hc : IsForeign c) (n : Nat) : c ∉ Nat.toDigits 10 n :=
  (Numeral.digits_toDigits n).not_mem hc.isDigit_eq_false

theorem not_mem_text_position (hc : IsForeign c) (p : Position) : c ∉ p.text.toList := by
  have htext : p.text = "@" ++ toString (p.line + 1) ++ "." ++ toString p.column := rfl
  have hat : c ≠ '@' := hc.ne_of_mem (by decide)
  rw [htext]
  simp [hat, hc.ne_point, hc.not_mem_toDigits]

theorem not_mem_label (hc : IsForeign c) (kind : TokenKind) : c ∉ kind.label.toList := by
  have hkeywords : ∀ k ∈ Keyword.all, k.label.toList.all isWordChar = true := by decide +kernel
  apply hc.not_mem_of_all
  cases kind with
  | keyword k => exact hkeywords k (Keyword.mem_all k)
  | _ => decide +kernel

/-- The end of a line is shown by two characters that are not foreign. -/
theorem not_mem_text_token (hc : IsForeign c) {t : Token} (h : t.Scanned) : c ∉ t.text.toList := by
  cases h with
  | endLine =>
    have hchars : (Token.plain .endLine).text.toList = ['\\', 'n'] := rfl
    have hword : isWord ['n'] = true := by decide +kernel
    rw [hchars, List.mem_cons, not_or]
    exact ⟨hc.ne_of_mem (by decide), hc.not_mem_of_isWord hword⟩
  | opening => exact hc.not_mem_of_spelled .opening
  | closing => exact hc.not_mem_of_spelled .closing
  | tick => exact hc.not_mem_of_spelled .tick
  | boolean b => exact hc.not_mem_of_isWord (isWord_booleanWord b)
  | identifier hword hfree =>
    rw [Token.toList_text_identifier]
    exact hc.not_mem_of_isWord hword
  | keyword hword hkeyword =>
    rw [Token.toList_text_word]
    exact hc.not_mem_of_isWord hword
  | integer n =>
    have hn : (Number.integer n).isFinite = true := rfl
    rw [Token.toList_text_number]
    exact hc.not_mem_of_spelled (.number hn)
  | real hx =>
    rw [Token.toList_text_number]
    exact hc.not_mem_real _

/-- A line of a listing has no foreign character. -/
theorem not_mem_tokenLine (hc : IsForeign c) (showsPositions : Bool) (indent : Nat)
    {t : Positioned Token} (h : t.value.Scanned) :
    c ∉ (Report.tokenLine showsPositions indent t).toList := by
  have hspace : c ≠ ' ' := hc.ne_of_mem (by decide)
  have hplace : c ∉ (if showsPositions then t.position.text ++ " " else "").toList := by
    split
    · simp [hspace, hc.not_mem_text_position]
    · simp
  simp [Report.tokenLine, hspace, hplace, hc.not_mem_label, hc.not_mem_text_token h]

end IsForeign
end SmallLisp
