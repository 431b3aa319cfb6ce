import Mathlib.Data.List.DropRight
import SmallLisp.Proofs.ForeignChars
import SmallLisp.Proofs.Scanning

/-!
# Places as coordinates

A scanner finds the place behind a lexeme from the place in front of it.  Said of a text as a
whole, a place is a pair of coordinates: the number of line breaks in the text in front of it, and
the number of characters behind the last of them (`Position.ofText`).  A newline and a carriage
return are line breaks, and a carriage return with a newline behind it is one line break and not
two.

Places of a text become places of a longer text by translation.  On the first line of the part the
columns are shifted, and on every other line only the line is (`Position.translate`).  Translation
is associative, so it is enough to know the coordinates of single lexemes.
-/

namespace SmallLisp

/-! ## Counting line breaks -/

/-- A character that is a line break or part of one. -/
def isBreakChar (c : Char) : Bool := c == '\n' || c == '\r'

/-- **The number of line breaks in a text.** -/
def lineBreaks : List Char → Nat
  | [] => 0
  | '\r' :: '\n' :: rest => lineBreaks rest + 1
  | c :: rest => lineBreaks rest + if isBreakChar c then 1 else 0

/-- The characters behind the last line break. -/
def lastLine (text : List Char) : List Char := text.rtakeWhile fun c => !isBreakChar c

section

variable {c : Char} {text : List Char}

theorem lineBreaks_cons_of_not_isBreakChar (h : isBreakChar c = false) :
    lineBreaks (c :: text) = lineBreaks text := by
  rw [lineBreaks]
  · rw [h]
    rfl
  · rintro rest rfl -
    cases h

theorem lineBreaks_cons_return (h : text.head? ≠ some '\n') :
    lineBreaks ('\r' :: text) = lineBreaks text + 1 := by
  rw [lineBreaks]
  · rfl
  · rintro rest - rfl
    exact h rfl

theorem lineBreaks_append_of_inline {front : List Char} (h : ∀ c ∈ front, isBreakChar c = false) :
    lineBreaks (front ++ text) = lineBreaks text := by
  induction front with
  | nil => rfl
  | cons c front ih =>
    obtain ⟨hc, hfront⟩ := List.forall_mem_cons.1 h
    rw [List.cons_append, lineBreaks_cons_of_not_isBreakChar hc, ih hfront]

/-- A text without line breaks has no character of one. -/
theorem lineBreaks_eq_zero_iff : lineBreaks text = 0 ↔ ∀ c ∈ text, isBreakChar c = false := by
  fun_induction lineBreaks text with
  | case1 => simp
  | case2 rest ih => simp [isBreakChar]
  | case3 c rest hne ih =>
    cases hc : isBreakChar c <;> simp [hc, ih]

theorem lastLine_of_lineBreaks_eq_zero (h : lineBreaks text = 0) : lastLine text = text := by
  apply List.rtakeWhile_eq_self_iff.2
  intro c hc
  simp [lineBreaks_eq_zero_iff.1 h c hc]

/-- What is in front of a line break makes no difference to the last line. -/
theorem lastLine_cons_of_ne_zero (h : lineBreaks text ≠ 0) :
    lastLine (c :: text) = lastLine text := by
  have hbreak :
      ¬ (text.reverse.takeWhile fun c => !isBreakChar c).length = text.reverse.length := by
    intro hlength
    apply h
    have hall := List.takeWhile_eq_self_iff.1 ((List.takeWhile_prefix _).eq_of_length hlength)
    apply lineBreaks_eq_zero_iff.2
    intro c hc
    simpa using hall c (List.mem_reverse.2 hc)
  rw [lastLine, lastLine, List.rtakeWhile, List.rtakeWhile, List.reverse_cons,
    List.takeWhile_append, if_neg hbreak]

theorem lastLine_cons_of_isBreakChar (hc : isBreakChar c = true) :
    lastLine (c :: text) = lastLine text := by
  by_cases h : lineBreaks text = 0
  · have hall : (text.reverse.takeWhile fun c => !isBreakChar c) = text.reverse := by
      apply List.takeWhile_eq_self_iff.2
      intro x hx
      simp [lineBreaks_eq_zero_iff.1 h x (List.mem_reverse.1 hx)]
    rw [lastLine, lastLine, List.rtakeWhile, List.rtakeWhile, List.reverse_cons,
      List.takeWhile_append, hall]
    simp [hc]
  · exact lastLine_cons_of_ne_zero h

end

/-- A line break at the end leaves nothing behind it. -/
theorem lastLine_append_newline (text : List Char) : lastLine (text ++ ['\n']) = [] := by
  have hnewline : ¬ (!isBreakChar '\n') = true := by decide
  exact List.rtakeWhile_concat_neg _ _ _ hnewline

namespace Position

/-! ## Translation -/

/-- The place `p` of a text that itself begins at `o`. -/
def translate (o p : Position) : Position :=
  if p.line = 0 then ⟨o.line, o.column + p.column⟩ else ⟨o.line + p.line, p.column⟩

@[simp] theorem translate_start (o : Position) : o.translate start = o := rfl

@[simp] theorem start_translate (p : Position) : start.translate p = p := by
  obtain ⟨line, column⟩ := p
  by_cases h : line = 0
  · simp [translate, start, h]
  · simp [translate, start, h]

@[simp] theorem line_translate (o p : Position) : (o.translate p).line = o.line + p.line := by
  unfold translate
  split
  · next hline => rw [hline, Nat.add_zero]
  · rfl

/-- At the beginning of a line, columns stay as they are. -/
theorem translate_of_column_eq_zero {o : Position} (h : o.column = 0) (p : Position) :
    o.translate p = ⟨o.line + p.line, p.column⟩ := by
  unfold translate
  split
  · next hline => rw [h, hline, Nat.zero_add, Nat.add_zero]
  · rfl

theorem translate_assoc (o p q : Position) :
    (o.translate p).translate q = o.translate (p.translate q) := by
  by_cases hq : q.line = 0
  · by_cases hp : p.line = 0
    · simp [translate, hp, hq, Nat.add_assoc]
    · simp [translate, hp, hq]
  · have hpq : (p.translate q).line ≠ 0 := by
      rw [line_translate]
      exact Nat.ne_of_gt (Nat.add_pos_right _ (Nat.pos_of_ne_zero hq))
    rw [translate, if_neg hq, line_translate, translate, if_neg hpq, line_translate, Nat.add_assoc,
      translate, if_neg hq]

theorem nextLine_eq_translate (p : Position) : p.nextLine = p.translate ⟨1, 0⟩ := rfl

theorem after_eq_translate (p : Position) (c : Char) :
    p.after c = p.translate (start.after c) := by
  unfold after
  split
  · rfl
  · rfl

theorem translate_after (o p : Position) (c : Char) :
    (o.translate p).after c = o.translate (p.after c) := by
  rw [after_eq_translate, translate_assoc, ← after_eq_translate]

theorem translate_afterAll (o p : Position) (text : List Char) :
    (o.translate p).afterAll text = o.translate (p.afterAll text) := by
  induction text generalizing p with
  | nil => rfl
  | cons c text ih => rw [afterAll_cons, afterAll_cons, translate_after, ih]

theorem translate_afterLexeme (o p : Position) (lexeme : List Char) :
    (o.translate p).afterLexeme lexeme = o.translate (p.afterLexeme lexeme) := by
  unfold afterLexeme
  split
  · rw [nextLine_eq_translate, translate_assoc, ← nextLine_eq_translate]
  · exact translate_afterAll o p lexeme

/-! ## Coordinates -/

/-- The coordinates of the end of a text: the number of its line breaks, and the number of
characters behind the last of them. -/
def ofText (text : List Char) : Position := ⟨lineBreaks text, (lastLine text).length⟩

theorem ofText_cons_of_not_isBreakChar {c : Char} (hc : isBreakChar c = false)
    (text : List Char) : ofText (c :: text) = translate ⟨0, 1⟩ (ofText text) := by
  have hbreaks : lineBreaks (c :: text) = lineBreaks text :=
    lineBreaks_cons_of_not_isBreakChar hc
  unfold translate ofText
  by_cases h : lineBreaks text = 0
  · rw [if_pos h, lastLine_of_lineBreaks_eq_zero (hbreaks.trans h),
      lastLine_of_lineBreaks_eq_zero h, hbreaks, h, List.length_cons, Nat.add_comm]
  · rw [if_neg h, lastLine_cons_of_ne_zero h, hbreaks, Nat.zero_add]

/-- A text without line breaks goes along one line. -/
theorem afterAll_translate_ofText {front : List Char} (h : ∀ c ∈ front, isBreakChar c = false)
    (p : Position) (text : List Char) :
    (p.afterAll front).translate (ofText text) = p.translate (ofText (front ++ text)) := by
  induction front generalizing p with
  | nil => rfl
  | cons c front ih =>
    obtain ⟨hc, hfront⟩ := List.forall_mem_cons.1 h
    have hafter : p.after c = p.translate ⟨0, 1⟩ := by
      have hnewline : c ≠ '\n' := by
        rintro rfl
        cases hc
      rw [after, if_neg hnewline]
      rfl
    rw [afterAll_cons, ih hfront, hafter, translate_assoc, List.cons_append,
      ofText_cons_of_not_isBreakChar hc]

/-- The lines are counted from a line break on. -/
theorem ofText_eq_translate_of_break {lexeme text : List Char}
    (hbreaks : lineBreaks (lexeme ++ text) = lineBreaks text + 1)
    (hlexeme : ∀ c ∈ lexeme, isBreakChar c = true) :
    ofText (lexeme ++ text) = translate ⟨1, 0⟩ (ofText text) := by
  have hlast : lastLine (lexeme ++ text) = lastLine text := by
    clear hbreaks
    induction lexeme with
    | nil => rfl
    | cons c lexeme ih =>
      obtain ⟨hc, hlexeme⟩ := List.forall_mem_cons.1 hlexeme
      rw [List.cons_append, lastLine_cons_of_isBreakChar hc, ih hlexeme]
  rw [translate_of_column_eq_zero rfl, ofText, hbreaks, hlast, Nat.add_comm]
  rfl

end Position

/-! ## The coordinates behind a lexeme -/

theorem isBreakChar_eq_false_of_not_mem {text : List Char} (hnewline : '\n' ∉ text)
    (hreturn : '\r' ∉ text) : ∀ c ∈ text, isBreakChar c = false := by
  intro c hc
  rw [isBreakChar, Bool.or_eq_false_iff, beq_eq_false_iff_ne, beq_eq_false_iff_ne]
  exact ⟨fun h => hnewline (h ▸ hc), fun h => hreturn (h ▸ hc)⟩

/-- A word stands on one line. -/
theorem isBreakChar_eq_false_of_isWord {letters : List Char} (h : isWord letters = true) :
    ∀ c ∈ letters, isBreakChar c = false :=
  isBreakChar_eq_false_of_not_mem (IsForeign.newline.not_mem_of_isWord h)
    (IsForeign.carriageReturn.not_mem_of_isWord h)

/-- A number stands on one line. -/
theorem isBreakChar_eq_false_of_isNumberLexeme {letters : List Char}
    (h : isNumberLexeme letters = true) : ∀ c ∈ letters, isBreakChar c = false :=
  isBreakChar_eq_false_of_not_mem (IsForeign.newline.not_mem_of_isNumberLexeme h)
    (IsForeign.carriageReturn.not_mem_of_isNumberLexeme h)

namespace Lexeme

variable {lexeme front behind : List Char}

/-- A lexeme is a line break, or it stands on one line. -/
theorem breaks_or_inline (h : Lexeme lexeme (front ++ behind)) :
    (∀ c ∈ lexeme, isBreakChar c = true) ∧ (∀ p : Position, p.afterLexeme lexeme = p.nextLine) ∧
        lineBreaks (lexeme ++ front) = lineBreaks front + 1 ∧
        Token.ofLexeme lexeme = .ok (.plain .endLine) ∨
      ∀ c ∈ lexeme, isBreakChar c = false := by
  -- A carriage return is alone only if what follows in the whole text is no newline.
  generalize hrest : front ++ behind = rest at h
  cases h with
  | newline => exact .inl ⟨by simp [isBreakChar], fun _ => rfl, rfl, rfl⟩
  | returnNewline => exact .inl ⟨by simp [isBreakChar], fun _ => rfl, rfl, rfl⟩
  | loneReturn hhead =>
    have hfront : front.head? ≠ some '\n' := by
      obtain _ | ⟨c, front⟩ := front
      · simp
      · rw [← hrest] at hhead
        exact hhead
    exact .inl ⟨by simp [isBreakChar], fun _ => rfl, lineBreaks_cons_return hfront, rfl⟩
  | tick => exact .inr (by simp [isBreakChar])
  | openParen => exact .inr (by simp [isBreakChar])
  | closeParen => exact .inr (by simp [isBreakChar])
  | word hword _ => exact .inr (isBreakChar_eq_false_of_isWord hword)
  | number hnumber _ => exact .inr (isBreakChar_eq_false_of_isNumberLexeme hnumber)

theorem afterLexeme_translate_ofText (h : Lexeme lexeme (front ++ behind)) (p : Position) :
    (p.afterLexeme lexeme).translate (Position.ofText front) =
      p.translate (Position.ofText (lexeme ++ front)) := by
  rcases h.breaks_or_inline with ⟨hlexeme, hafter, hbreaks, -⟩ | hinline
  · rw [hafter, Position.nextLine_eq_translate, Position.translate_assoc,
      Position.ofText_eq_translate_of_break hbreaks hlexeme]
  · have hreturn : lexeme ≠ ['\r'] := by
      rintro rfl
      exact absurd (hinline '\r' List.mem_cons_self) (by decide)
    rw [Position.afterLexeme, if_neg hreturn, Position.afterAll_translate_ofText hinline]

end Lexeme

/-! ## The coordinates behind a front -/

/-- **The front of a text is passed over**: from the position `p` on, `front` is blanks and lexemes,
whether or not they are tokens, and ends at `q`. -/
inductive Passes : Position → List Char → List Char → Position → Prop
  | nil (p : Position) (behind : List Char) : Passes p [] behind p
  | blank {p q : Position} {c : Char} {front behind : List Char} (hc : isBlank c = true)
      (h : Passes (p.after c) front behind q) : Passes p (c :: front) behind q
  | lexeme {p q : Position} {lexeme front behind : List Char}
      (hlexeme : Lexeme lexeme (front ++ behind))
      (h : Passes (p.afterLexeme lexeme) front behind q) : Passes p (lexeme ++ front) behind q

/-- Behind a front the scanner is at the end of the front. -/
theorem Passes.position_eq {p q : Position} {front behind : List Char}
    (h : Passes p front behind q) : q = p.translate (.ofText front) := by
  induction h with
  | nil p behind => rfl
  | @blank p q c front behind hc _ ih =>
    have hinline : ∀ d ∈ [c], isBreakChar d = false := by
      intro d hd
      rw [List.mem_singleton.1 hd]
      simp only [isBlank, Bool.and_eq_true, bne_iff_ne] at hc
      simp [isBreakChar, hc.1.1, hc.1.2]
    rw [ih]
    exact Position.afterAll_translate_ofText hinline p front
  | lexeme hlexeme _ ih => rw [ih, hlexeme.afterLexeme_translate_ofText]

theorem Passes.append {p q r : Position} {front more behind : List Char}
    (h : Passes p front (more ++ behind) q) (h' : Passes q more behind r) :
    Passes p (front ++ more) behind r := by
  generalize hb : more ++ behind = behind' at h
  induction h with
  | nil p behind' => exact h'
  | blank hc _ ih => exact .blank hc (ih h' hb)
  | lexeme hlexeme _ ih =>
    rw [List.append_assoc]
    refine .lexeme ?_ (ih h' hb)
    rwa [List.append_assoc, hb]

/-- Blanks are passed over one by one. -/
theorem Passes.of_blanks {blanks : List Char} (h : ∀ c ∈ blanks, isBlank c = true) (p : Position)
    (behind : List Char) : Passes p blanks behind (p.afterAll blanks) := by
  induction blanks generalizing p with
  | nil => exact .nil p behind
  | cons c blanks ih =>
    obtain ⟨hc, hblanks⟩ := List.forall_mem_cons.1 h
    exact .blank hc (ih hblanks (p.after c))

/-- A front that spells tokens is passed over. -/
theorem Spells.passes {p q : Position} {front behind : List Char} {ts : List (Positioned Token)}
    (h : Spells p front behind ts q) : Passes p front behind q := by
  induction h with
  | nil p behind => exact .nil p behind
  | blank hc _ ih => exact .blank hc ih
  | lexeme hlexeme _ _ ih => exact .lexeme hlexeme ih

theorem Spells.position_eq {p q : Position} {front behind : List Char}
    {ts : List (Positioned Token)} (h : Spells p front behind ts q) :
    q = p.translate (.ofText front) := h.passes.position_eq

end SmallLisp
