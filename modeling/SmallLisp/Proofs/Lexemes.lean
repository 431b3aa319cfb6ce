import SmallLisp.Token.Lexeme

/-!
# What is a lexeme

`splitLexeme` finds the lexeme at the head of a text by looking at its characters one by one.
Here is what it finds: `Lexeme lexeme rest` says which lists of characters are lexemes in front
of `rest`, and `splitLexeme_eq_some_iff` that these are exactly the ones that are found.  A word
or a number reaches as far as its characters go, which is where `rest` comes in.

The classes of characters that begin a lexeme do not overlap, and none of them is a blank.  For
ASCII characters that is a matter of looking; letters and white space are tables, and the tables
have no range in common.
-/

namespace SmallLisp

/-! ## Runs of characters -/

/-- No character with the property `p` stands at the head of a text, so that a run of such
characters ends in front of it. -/
def EndsRun (p : Char → Bool) (rest : List Char) : Prop := ∀ c ∈ rest.head?, p c = false

theorem EndsRun.nil (p : Char → Bool) : EndsRun p [] := by simp [EndsRun]

theorem EndsRun.cons {p : Char → Bool} {c : Char} (h : p c = false) (rest : List Char) :
    EndsRun p (c :: rest) := by simp [EndsRun, h]

theorem endsRun_dropWhile (p : Char → Bool) (text : List Char) :
    EndsRun p (text.dropWhile p) := by
  intro c hc
  have h := List.head?_dropWhile_not p text
  rw [Option.mem_def] at hc
  rwa [hc] at h

theorem takeWhile_append_of_endsRun {p : Char → Bool} {run rest : List Char}
    (hrun : run.all p = true) (hrest : EndsRun p rest) : (run ++ rest).takeWhile p = run := by
  rw [List.takeWhile_append_of_pos (List.all_eq_true.1 hrun)]
  cases rest with
  | nil => simp
  | cons c rest => rw [List.takeWhile_cons_of_neg (by simp [hrest c rfl]), List.append_nil]

theorem dropWhile_append_of_endsRun {p : Char → Bool} {run rest : List Char}
    (hrun : run.all p = true) (hrest : EndsRun p rest) : (run ++ rest).dropWhile p = rest := by
  rw [List.dropWhile_append_of_pos (List.all_eq_true.1 hrun)]
  cases rest with
  | nil => rfl
  | cons c rest => rw [List.dropWhile_cons_of_neg (by simp [hrest c rfl])]

/-! ## Classes of characters -/

/-- No code point is in two tables that have no range in common. -/
theorem CodeRanges.contains_eq_false_of_disjoint {rs ss : CodeRanges} {n : Nat}
    (hdisjoint : ∀ r ∈ rs, ∀ s ∈ ss, r.2 < s.1 ∨ s.2 < r.1) (h : rs.contains n = true) :
    ss.contains n = false := by
  rw [Bool.eq_false_iff]
  intro hs
  obtain ⟨r, hr, hrn⟩ := exists_of_contains h
  obtain ⟨s, hs, hsn⟩ := exists_of_contains hs
  rcases hdisjoint r hr s hs with hlt | hlt <;> omega

theorem isBlank_eq_false_of_isAlphabetic {c : Char} (h : isAlphabetic c = true) :
    isBlank c = false := by
  have hdisjoint : ∀ r ∈ alphabeticRanges, ∀ s ∈ whiteSpaceRanges, r.2 < s.1 ∨ s.2 < r.1 := by
    decide +kernel
  have hspace : isWhiteSpace c = false := CodeRanges.contains_eq_false_of_disjoint hdisjoint h
  simp [isBlank, hspace]

/-- The digits as a table of code points. -/
theorem contains_of_isDigit {c : Char} (h : c.isDigit = true) :
    CodeRanges.contains [(0x30, 0x39)] c.toNat = true := by
  simp only [Char.isDigit, Bool.and_eq_true, decide_eq_true_eq] at h
  obtain ⟨hlow, hhigh⟩ := h
  have hlow' : 0x30 ≤ c.toNat := hlow
  have hhigh' : c.toNat ≤ 0x39 := hhigh
  rw [CodeRanges.contains_cons, if_neg (by omega), decide_eq_true hhigh', Bool.true_or]

theorem isAlphabetic_eq_false_of_isDigit {c : Char} (h : c.isDigit = true) :
    isAlphabetic c = false :=
  CodeRanges.contains_eq_false_of_disjoint (by decide +kernel) (contains_of_isDigit h)

theorem isBlank_eq_false_of_isDigit {c : Char} (h : c.isDigit = true) : isBlank c = false := by
  have hspace : isWhiteSpace c = false :=
    CodeRanges.contains_eq_false_of_disjoint (by decide) (contains_of_isDigit h)
  simp [isBlank, hspace]

/-- A number starts with a digit, a minus or a point. -/
theorem eq_or_isDigit_of_startsNumber {c : Char} {rest : List Char}
    (h : startsNumber c rest = true) : c = '-' ∨ c = '.' ∨ c.isDigit = true := by
  simp only [startsNumber, Bool.or_eq_true, Bool.and_eq_true, beq_iff_eq] at h
  rcases h with hdigit | ⟨hminus | hpoint, -⟩
  · exact .inr (.inr hdigit)
  · exact .inl hminus
  · exact .inr (.inl hpoint)

theorem isAlphabetic_eq_false_of_startsNumber {c : Char} {rest : List Char}
    (h : startsNumber c rest = true) : isAlphabetic c = false := by
  rcases eq_or_isDigit_of_startsNumber h with rfl | rfl | hdigit
  · decide +kernel
  · decide +kernel
  · exact isAlphabetic_eq_false_of_isDigit hdigit

theorem isBlank_eq_false_of_startsNumber {c : Char} {rest : List Char}
    (h : startsNumber c rest = true) : isBlank c = false := by
  rcases eq_or_isDigit_of_startsNumber h with rfl | rfl | hdigit
  · decide
  · decide
  · exact isBlank_eq_false_of_isDigit hdigit

/-! ## Lexemes -/

/-- Whether a text is a word: a letter, and letters and digits behind it. -/
def isWord : List Char → Bool
  | [] => false
  | c :: rest => isAlphabetic c && rest.all isWordChar

/-- Whether a text is delimited like a number: a digit, or a minus or a point in front of a digit,
and digits and points behind it. -/
def isNumberLexeme : List Char → Bool
  | [] => false
  | c :: rest => startsNumber c rest && rest.all isNumberChar

/-- **The lexemes in front of `rest`.** -/
inductive Lexeme : List Char → List Char → Prop
  | newline (rest : List Char) : Lexeme ['\n'] rest
  | returnNewline (rest : List Char) : Lexeme ['\r', '\n'] rest
  /-- A carriage return alone, so no newline may follow. -/
  | loneReturn {rest : List Char} (hrest : rest.head? ≠ some '\n') : Lexeme ['\r'] rest
  | tick (rest : List Char) : Lexeme ['\''] rest
  | openParen (rest : List Char) : Lexeme ['('] rest
  | closeParen (rest : List Char) : Lexeme [')'] rest
  | word {letters rest : List Char} (hword : isWord letters = true)
      (hrest : EndsRun isWordChar rest) : Lexeme letters rest
  | number {letters rest : List Char} (hnumber : isNumberLexeme letters = true)
      (hrest : EndsRun isNumberChar rest) : Lexeme letters rest

/-- Only the first character behind the sign decides whether a number starts. -/
theorem startsNumber_append {c : Char} {letters : List Char} (h : startsNumber c letters = true)
    (rest : List Char) : startsNumber c (letters ++ rest) = true := by
  cases letters with
  | nil =>
    have hdigit : c.isDigit = true := by simpa [startsNumber] using h
    simp [startsNumber, hdigit]
  | cons l letters => exact h

theorem startsNumber_takeWhile {c : Char} {rest : List Char} (h : startsNumber c rest = true) :
    startsNumber c (rest.takeWhile isNumberChar) = true := by
  cases rest with
  | nil => exact h
  | cons l rest =>
    by_cases hl : isNumberChar l = true
    · rw [List.takeWhile_cons_of_pos hl]
      exact h
    · rw [List.takeWhile_cons_of_neg hl]
      have hdigit : l.isDigit = false := by
        simp only [isNumberChar, Bool.or_eq_true, not_or] at hl
        exact Bool.eq_false_iff.2 hl.1
      simpa [startsNumber, hdigit] using h

theorem splitLexeme_append {lexeme rest : List Char} (h : Lexeme lexeme rest) :
    splitLexeme (lexeme ++ rest) = some (lexeme, rest) := by
  cases h with
  | newline => rfl
  | returnNewline => rfl
  | loneReturn hrest =>
    cases rest with
    | nil => rfl
    | cons c rest =>
      have hc : c ≠ '\n' := fun hc => hrest (by rw [hc]; rfl)
      simp [splitLexeme, hc]
  | tick => rfl
  | openParen => rfl
  | closeParen => rfl
  | word hword hrest =>
    obtain _ | ⟨c, letters⟩ := lexeme
    · simp [isWord] at hword
    · simp only [isWord, Bool.and_eq_true] at hword
      -- `splitLexeme` tests the characters of one sign first, and no letter is among them.
      have hreturn : c ≠ '\r' := by
        rintro rfl
        exact absurd hword.1 (by decide +kernel)
      have hpunctuation : isPunctuation c = false := by
        rw [Bool.eq_false_iff]
        intro hc
        simp only [isPunctuation, Bool.or_eq_true, beq_iff_eq] at hc
        rcases hc with ((rfl | rfl) | rfl) | rfl <;> exact absurd hword.1 (by decide +kernel)
      rw [List.cons_append, splitLexeme.eq_def]
      simp [hreturn, hpunctuation, hword.1, takeWhile_append_of_endsRun hword.2 hrest,
        dropWhile_append_of_endsRun hword.2 hrest]
  | number hnumber hrest =>
    obtain _ | ⟨c, letters⟩ := lexeme
    · simp [isNumberLexeme] at hnumber
    · simp only [isNumberLexeme, Bool.and_eq_true] at hnumber
      have hstarts := startsNumber_append hnumber.1 rest
      have hletter := isAlphabetic_eq_false_of_startsNumber hnumber.1
      have hreturn : c ≠ '\r' := by
        rintro rfl
        exact absurd (eq_or_isDigit_of_startsNumber hnumber.1) (by decide)
      have hpunctuation : isPunctuation c = false := by
        rw [Bool.eq_false_iff]
        intro hc
        simp only [isPunctuation, Bool.or_eq_true, beq_iff_eq] at hc
        rcases hc with ((rfl | rfl) | rfl) | rfl <;>
          exact absurd (eq_or_isDigit_of_startsNumber hnumber.1) (by decide)
      rw [List.cons_append, splitLexeme.eq_def]
      simp [hreturn, hpunctuation, hletter, hstarts,
        takeWhile_append_of_endsRun hnumber.2 hrest, dropWhile_append_of_endsRun hnumber.2 hrest]

theorem lexeme_of_splitLexeme {text lexeme rest : List Char}
    (h : splitLexeme text = some (lexeme, rest)) :
    text = lexeme ++ rest ∧ Lexeme lexeme rest := by
  unfold splitLexeme at h
  split at h
  · simp at h
  · simp only [Option.some.injEq, Prod.mk.injEq] at h
    obtain ⟨rfl, rfl⟩ := h
    exact ⟨rfl, .returnNewline _⟩
  · next rest' hnewline =>
    simp only [Option.some.injEq, Prod.mk.injEq] at h
    obtain ⟨rfl, rfl⟩ := h
    refine ⟨rfl, .loneReturn ?_⟩
    intro hhead
    obtain ⟨tail, rfl⟩ := List.head?_eq_some_iff.1 hhead
    exact hnewline tail rfl
  · next c tail hreturn _ =>
    split at h
    · next hc =>
      simp only [Option.some.injEq, Prod.mk.injEq] at h
      obtain ⟨rfl, rfl⟩ := h
      simp only [isPunctuation, Bool.or_eq_true, beq_iff_eq] at hc
      rcases hc with ((rfl | rfl) | rfl) | rfl
      · exact ⟨rfl, .newline _⟩
      · exact ⟨rfl, .tick _⟩
      · exact ⟨rfl, .openParen _⟩
      · exact ⟨rfl, .closeParen _⟩
    · split at h
      · next hletter =>
        simp only [Option.some.injEq, Prod.mk.injEq] at h
        obtain ⟨rfl, rfl⟩ := h
        refine ⟨by simp, .word ?_ (endsRun_dropWhile _ _)⟩
        simp [isWord, hletter]
      · split at h
        · next hstarts =>
          simp only [Option.some.injEq, Prod.mk.injEq] at h
          obtain ⟨rfl, rfl⟩ := h
          refine ⟨by simp, .number ?_ (endsRun_dropWhile _ _)⟩
          simp [isNumberLexeme, startsNumber_takeWhile hstarts]
        · simp at h

/-- What is found at the head of a text are the lexemes, each in front of what follows it. -/
theorem splitLexeme_eq_some_iff {text lexeme rest : List Char} :
    splitLexeme text = some (lexeme, rest) ↔ text = lexeme ++ rest ∧ Lexeme lexeme rest := by
  constructor
  · exact lexeme_of_splitLexeme
  · rintro ⟨rfl, h⟩
    exact splitLexeme_append h

theorem Lexeme.ne_nil {lexeme rest : List Char} (h : Lexeme lexeme rest) : lexeme ≠ [] := by
  rintro rfl
  have hlt := length_lt_of_splitLexeme (splitLexeme_eq_some_iff.2 ⟨rfl, h⟩)
  exact Nat.lt_irrefl _ hlt

/-- No lexeme starts with a blank, so blanks are only found between lexemes. -/
theorem Lexeme.endsRun_isBlank {lexeme rest : List Char} (h : Lexeme lexeme rest)
    (behind : List Char) : EndsRun isBlank (lexeme ++ behind) := by
  cases h with
  | newline => exact .cons (by decide) _
  | returnNewline => exact .cons (by decide) _
  | loneReturn hrest => exact .cons (by decide) _
  | tick => exact .cons (by decide) _
  | openParen => exact .cons (by decide) _
  | closeParen => exact .cons (by decide) _
  | word hword hrest =>
    obtain _ | ⟨c, letters⟩ := lexeme
    · simp [isWord] at hword
    · simp only [isWord, Bool.and_eq_true] at hword
      exact .cons (isBlank_eq_false_of_isAlphabetic hword.1) _
  | number hnumber hrest =>
    obtain _ | ⟨c, letters⟩ := lexeme
    · simp [isNumberLexeme] at hnumber
    · simp only [isNumberLexeme, Bool.and_eq_true] at hnumber
      exact .cons (isBlank_eq_false_of_startsNumber hnumber.1) _

end SmallLisp
