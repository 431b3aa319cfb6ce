import SmallLisp.Proofs.LineBreaks
import SmallLisp.Proofs.NumberValues
import SmallLisp.Proofs.RoundTrip

/-!
# What is shown is scanned again

A number is written without an exponent, with a point exactly if it is a real, and never with more
than digits around it (`Number.WrittenAs`).  A scanner takes all of that text, and nothing behind
it, for the number it was written for.

A token is shown as the lexeme it would be scanned from (`Token.IsShownFaithfully`), whatever it was
scanned from in the first place: an integer loses its leading zeros, a truth value its capitals, and
a keyword keeps the letters it was written with.  So tokens with a space between them are scanned
again as the same tokens.  The end of a line and an infinity are not shown as what they are, and are
left out.
-/

namespace SmallLisp

/-! ## The text of a number -/

namespace Number

/-- How a number is written: a minus if it is negative, and digits; behind the digits of a real
a point and more digits. -/
inductive WrittenAs : Number → List Char → Prop
  | integer (n : Int) {digits : List Char} (hdigits : Numeral.Digits digits) :
      WrittenAs (.integer n) (Numeral.sign (decide (n < 0)) ++ digits)
  | real (x : Binary64) {whole fraction : List Char} (hwhole : Numeral.Digits whole)
      (hfraction : Numeral.Digits fraction) :
      WrittenAs (.real x) (Numeral.sign x.negative ++ (whole ++ '.' :: fraction))

variable {n : Number}

theorem writtenAs_chars (h : n.isFinite = true) : n.WrittenAs n.chars := by
  cases n with
  | integer n =>
    rw [chars, Numeral.ofInteger_eq, List.append_nil]
    exact .integer n (Numeral.digits_toDigits _)
  | real x =>
    obtain ⟨whole, fraction, htext, hwhole, hfraction⟩ := Binary64.exists_text_eq h
    rw [chars, htext]
    exact .real x hwhole hfraction

/-- What is written for a number stands for it in the decimal system. -/
theorem standsFor_chars (h : n.isFinite = true) : n.StandsFor n.chars := by
  have hcount : n.chars.count '.' ≤ 1 := by
    rw [count_point_chars h]
    cases n <;> simp [points]
  obtain ⟨m, hread, hstands⟩ := exists_standsFor (isNumberLexeme_chars h) hcount
  rw [read?_chars h, Option.some.injEq] at hread
  rwa [← hread] at hstands

end Number

/-- The place behind a lexeme on one line. -/
theorem Position.afterLexeme_of_inline {lexeme : List Char}
    (h : ∀ c ∈ lexeme, isBreakChar c = false) (p : Position) :
    p.afterLexeme lexeme = ⟨p.line, p.column + lexeme.length⟩ := by
  have hreturn : lexeme ≠ ['\r'] := by
    rintro rfl
    exact absurd (h '\r' List.mem_cons_self) (by decide)
  have hbreaks : lineBreaks lexeme = 0 := lineBreaks_eq_zero_iff.2 h
  have hend := afterAll_translate_ofText h p []
  rw [List.append_nil] at hend
  rw [afterLexeme, if_neg hreturn, ← translate_start (p.afterAll lexeme)]
  refine hend.trans ?_
  rw [ofText, hbreaks, lastLine_of_lineBreaks_eq_zero hbreaks]
  rfl

/-- **Numbers survive writing.**  The text of an integer or of a finite real is read as that number,
bit for bit.  It is a sign and digits, with a point between them exactly for a real; it stands for
the number; and in front of anything but a digit or a point, a scanner takes all of it and no more
for the token of that number. -/
theorem Number.survives_writing {n : Number} (h : n.isFinite = true) :
    ofLexeme? n.text = some n ∧ n.WrittenAs n.text.toList ∧ n.StandsFor n.text.toList ∧
      ∀ (d : Dialect) (behind : String), EndsRun isNumberChar behind.toList →
        (Scanner.ofSource (n.text ++ behind)).next d =
          (.ok ⟨.number n, .start⟩,
            { rest := behind.toList, position := ⟨0, n.text.length⟩ }) := by
  have htext : n.text.toList = n.chars := String.toList_ofList
  have hlength : n.text.length = n.chars.length := by rw [← String.length_toList, htext]
  refine ⟨?_, ?_, ?_, ?_⟩
  · rw [ofLexeme?, htext, read?_chars h]
  · rw [htext]
    exact writtenAs_chars h
  · rw [htext]
    exact standsFor_chars h
  · intro d behind hbehind
    have hsource : Scanner.ofSource (n.text ++ behind) =
        Scanner.before (n.chars ++ behind.toList) .start := by
      rw [Scanner.ofSource, String.toList_append, htext]
      rfl
    have hplace := Position.afterLexeme_of_inline
      (isBreakChar_eq_false_of_isNumberLexeme (isNumberLexeme_chars h)) .start
    rw [hsource, Scanner.next_before_lexeme (.number (isNumberLexeme_chars h) hbehind)
      (Piece.ofLexeme_number h), hplace, hlength, Scanner.before]
    simp [Position.start]

/-- Minus zero, with a minus behind it that belongs to the next number. -/
theorem Number.survives_writing_minusZero :
    ofLexeme? "-0.0" = some (.real (.ofBits 0x8000000000000000)) ∧
      (Scanner.ofSource "-0.0-1").next .strict =
        (.ok ⟨.number (.real (.ofBits 0x8000000000000000)), .start⟩,
          { rest := ['-', '1'], position := ⟨0, 4⟩ }) := by
  have htext : (Number.real (.ofBits 0x8000000000000000)).text = "-0.0" := by decide +kernel
  obtain ⟨hread, -, -, hscan⟩ :=
    survives_writing (n := .real (.ofBits 0x8000000000000000)) (by decide)
  rw [htext] at hread hscan
  exact ⟨hread, hscan .strict "-1" (.cons (by decide) _)⟩

/-! ## The text of a token -/

namespace Token

/-- **A token that is shown as what it is**: as a lexeme which is that token. -/
structure IsShownFaithfully (t : Token) : Prop where
  lexeme : Lexeme t.text.toList []
  ofLexeme_eq : Token.ofLexeme t.text.toList = .ok t

theorem isShownFaithfully_of_isWord {t : Token} {letters : List Char}
    (hword : isWord letters = true) (htext : t.text.toList = letters) (ht : ofWord letters = t) :
    t.IsShownFaithfully := by
  constructor
  · rw [htext]
    exact .word hword (.nil _)
  · rw [htext, ofLexeme_of_isWord hword, ht]

theorem isShownFaithfully_number {n : Number} (h : n.isFinite = true) :
    (number n).IsShownFaithfully := by
  constructor
  · rw [toList_text_number]
    exact .number (Number.isNumberLexeme_chars h) (.nil _)
  · rw [toList_text_number, Piece.ofLexeme_number h]

/-- Whatever is scanned is shown as what it is, ends of lines and infinities apart. -/
theorem Scanned.isShownFaithfully {t : Token} (ht : t.Scanned) (hline : t.kind ≠ .endLine)
    (hfinite : ∀ x, t.real? = some x → x.isInfinite = false) : t.IsShownFaithfully := by
  cases ht with
  | endLine => exact absurd rfl hline
  | opening => exact ⟨.openParen [], rfl⟩
  | closing => exact ⟨.closeParen [], rfl⟩
  | tick => exact ⟨.tick [], rfl⟩
  | boolean b =>
    exact isShownFaithfully_of_isWord (isWord_booleanWord b) rfl (by cases b <;> decide +kernel)
  | @identifier letters hword hfree =>
    exact isShownFaithfully_of_isWord hword (toList_text_identifier _) (by simp [ofWord, hfree])
  | @keyword k letters hword hkeyword =>
    exact isShownFaithfully_of_isWord hword (toList_text_word _ _) (by simp [ofWord, hkeyword])
  | integer n => exact isShownFaithfully_number rfl
  | @real x hnan =>
    exact isShownFaithfully_number
      (Binary64.isFinite_of_isNaN_of_isInfinite hnan (hfinite x rfl))

/-- The texts of some tokens, with a space between every two. -/
def spaced (ts : List Token) : String := " ".intercalate (ts.map text)

theorem toList_spaced_cons_cons (t u : Token) (ts : List Token) :
    (spaced (t :: u :: ts)).toList = t.text.toList ++ ' ' :: (spaced (u :: ts)).toList := by
  rw [spaced, List.map_cons, List.map_cons, String.intercalate_cons_cons, String.toList_append,
    String.toList_append, List.append_assoc]
  rfl

/-- Tokens with spaces between them spell themselves. -/
theorem exists_spells_spaced {ts : List Token} (h : ∀ t ∈ ts, t.IsShownFaithfully) (p : Position) :
    ∃ us q, Spells p (spaced ts).toList [] us q ∧ us.map (·.value) = ts := by
  induction ts generalizing p with
  | nil => exact ⟨[], p, .nil p [], rfl⟩
  | cons t ts ih =>
    obtain ⟨ht, hts⟩ := List.forall_mem_cons.1 h
    cases ts with
    | nil =>
      have hsingle : (spaced [t]).toList = t.text.toList ++ [] := by simp [spaced]
      rw [hsingle]
      exact ⟨[⟨t, p⟩], _, .lexeme ht.lexeme ht.ofLexeme_eq (.nil _ []), rfl⟩
    | cons u ts =>
      obtain ⟨us, q, hspells, hus⟩ := ih hts ((p.afterLexeme t.text.toList).after ' ')
      rw [toList_spaced_cons_cons]
      refine ⟨⟨t, p⟩ :: us, q, .lexeme ?_ ht.ofLexeme_eq (.blank (by decide) hspells), ?_⟩
      · exact ht.lexeme.before_space _
      · rw [List.map_cons, hus]

end Token

namespace TokenStream

/-- The tokens that a listing shows, ends of lines apart. -/
def shownTokens (settings : Settings) (source : String) : List Token :=
  (((ofSource settings.dialect source).shown settings.showsLineEnds).map (·.value)).filter
    (·.kind != .endLine)

theorem isShownFaithfully_of_mem_shownTokens {settings : Settings} {source : String}
    (hfinite : ∀ x ∈ (shownTokens settings source).filterMap Token.real?, x.isInfinite = false)
    {t : Token} (ht : t ∈ shownTokens settings source) : t.IsShownFaithfully := by
  obtain ⟨hmem, hline⟩ := List.mem_filter.1 ht
  obtain ⟨u, hu, rfl⟩ := List.mem_map.1 hmem
  have hscanned : u.value.Scanned := Scanner.scanned_of_mem_stream (List.mem_of_mem_filter hu)
  refine hscanned.isShownFaithfully (bne_iff_ne.1 hline) fun x hx => ?_
  exact hfinite x (List.mem_filterMap.2 ⟨u.value, ht, hx⟩)

/-- **Tokens are shown as what they are.**  The tokens that a listing of a source shows before it
ends, ends of lines apart and without an infinity among them, are scanned again if their texts are
put next to each other with a space in between: the listing of that line, in any dialect, has the
same tokens and then the end of the input. -/
theorem listing_spaced (settings : Settings) (source : String)
    (hfinite : ∀ x ∈ (shownTokens settings source).filterMap Token.real?, x.isInfinite = false) :
    ∃ (us : List (Positioned Token)) (q : Position),
      us.map (·.value) = shownTokens settings source ∧
        ∀ (d : Dialect) (showsLineEnds : Bool),
          (ofSource d (Token.spaced (shownTokens settings source))).listing showsLineEnds =
            us.map .ok ++ [.ok ⟨.plain .eof, q⟩] := by
  obtain ⟨us, q, hspells, hus⟩ := Token.exists_spells_spaced
    (fun _ ht => isShownFaithfully_of_mem_shownTokens hfinite ht) .start
  refine ⟨us, q, hus, fun d showsLineEnds => ?_⟩
  have hstream := hspells.ofSource_eq d
  rw [String.ofList_toList] at hstream
  have hshown : (TokenStream.mk us (.endOfInput q)).shown showsLineEnds = us := by
    refine List.filter_eq_self.2 fun u hu => ?_
    have hmem : u.value ∈ shownTokens settings source := hus ▸ List.mem_map_of_mem hu
    rw [(List.mem_filter.1 hmem).2, Bool.or_true]
  rw [hstream, listing_eq, hshown]
  rfl

/-- A keyword in capitals, a tick, and numbers as they are not written, on two lines that end with
an error. -/
theorem listing_spaced_capitals :
    shownTokens ⟨.strict, true⟩ "QUOTE '007\n-0.50 True #" =
        [.word (.keyword .quote) "QUOTE", .plain (.keyword .quote), .number (.integer 7),
          .number (.real (.ofBits 0xBFE0000000000000)), .boolean true] ∧
      ∃ (us : List (Positioned Token)) (q : Position),
        us.map (·.value) = shownTokens ⟨.strict, true⟩ "QUOTE '007\n-0.50 True #" ∧
          (ofSource .plainLists "QUOTE ' 7 -0.5 true").listing false =
            us.map .ok ++ [.ok ⟨.plain .eof, q⟩] := by
  have hstream : ofSource .strict "QUOTE '007\n-0.50 True #" =
      ⟨[⟨.word (.keyword .quote) "QUOTE", ⟨0, 0⟩⟩, ⟨.plain (.keyword .quote), ⟨0, 6⟩⟩,
        ⟨.number (.integer 7), ⟨0, 7⟩⟩, ⟨.plain .endLine, ⟨0, 10⟩⟩,
        ⟨.number (.real (.ofBits 0xBFE0000000000000)), ⟨1, 0⟩⟩, ⟨.boolean true, ⟨1, 6⟩⟩],
        .failure ⟨.unexpectedChar '#', ⟨1, 11⟩⟩⟩ := by decide +kernel
  have hshown : shownTokens ⟨.strict, true⟩ "QUOTE '007\n-0.50 True #" =
      [.word (.keyword .quote) "QUOTE", .plain (.keyword .quote), .number (.integer 7),
        .number (.real (.ofBits 0xBFE0000000000000)), .boolean true] := by
    rw [shownTokens, hstream]
    rfl
  have htext : Token.spaced [.word (.keyword .quote) "QUOTE", .plain (.keyword .quote),
      .number (.integer 7), .number (.real (.ofBits 0xBFE0000000000000)), .boolean true] =
      "QUOTE ' 7 -0.5 true" := by decide +kernel
  obtain ⟨us, q, hus, hlisting⟩ :=
    listing_spaced ⟨.strict, true⟩ "QUOTE '007\n-0.50 True #" (by rw [hshown]; decide)
  refine ⟨hshown, us, q, hus, ?_⟩
  rw [← htext, ← hshown]
  exact hlisting .plainLists false

end TokenStream
end SmallLisp
