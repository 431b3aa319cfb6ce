import SmallLisp.Proofs.Lexemes
import SmallLisp.Proofs.Rounding

/-!
# Numbers survive writing

The text of an integer or of a finite real is a sign and digits, and for a real a point between
digits.  Such a text is delimited as one number, and what it spells is the number it was written
for, bit for bit: the minus sign of a zero is kept, and no digit is lost.

What makes this true of reals is `Shortest.nearestMagnitude_decimal`.  The rest is about digits:
in positional form a decimal may get zeros at either end, and these change neither the
coefficient nor, by `Decimal.nearestMagnitude_mul_pow`, the double that is read.
-/

namespace SmallLisp

namespace Numeral

/-- A run of at least one decimal digit. -/
structure Digits (run : List Char) : Prop where
  ne_nil : run ≠ []
  all : run.all Char.isDigit = true

theorem digits_toDigits (n : Nat) : Digits (Nat.toDigits 10 n) := by
  refine ⟨Nat.toDigits_ne_nil, List.all_eq_true.2 fun c hc => ?_⟩
  exact Nat.isDigit_of_mem_toDigits (by decide) (by decide) hc

theorem natOfDigits_toDigits (n : Nat) : natOfDigits (Nat.toDigits 10 n) = n :=
  Nat.ofDigitChars_ten_toDigits

theorem Digits.isDigit_of_mem {run : List Char} (h : Digits run) {c : Char} (hc : c ∈ run) :
    c.isDigit = true := List.all_eq_true.1 h.all c hc

theorem not_mem_of_all_isDigit {run : List Char} (h : run.all Char.isDigit = true) {c : Char}
    (hc : c.isDigit = false) : c ∉ run := by
  intro hmem
  rw [List.all_eq_true.1 h c hmem] at hc
  cases hc

theorem Digits.not_mem {run : List Char} (h : Digits run) {c : Char} (hc : c.isDigit = false) :
    c ∉ run := not_mem_of_all_isDigit h.all hc

theorem Digits.all_isNumberChar {run : List Char} (h : Digits run) :
    run.all isNumberChar = true := by
  refine List.all_eq_true.2 fun c hc => ?_
  rw [isNumberChar, h.isDigit_of_mem hc, Bool.true_or]

/-! ## Signs -/

/-- The sign in front of a negative number. -/
def sign (negative : Bool) : List Char := if negative then ['-'] else []

theorem splitSign_sign (negative : Bool) {whole : List Char} (h : Digits whole)
    (rest : List Char) :
    splitSign (sign negative ++ (whole ++ rest)) = (negative, whole ++ rest) := by
  cases negative with
  | true => rfl
  | false =>
    obtain _ | ⟨c, whole⟩ := whole
    · exact absurd rfl h.ne_nil
    · have hc : c.isDigit = true := h.isDigit_of_mem List.mem_cons_self
      have hminus : c ≠ '-' := by
        rintro rfl
        exact absurd hc (by decide)
      have hplus : c ≠ '+' := by
        rintro rfl
        exact absurd hc (by decide)
      simp [sign, splitSign, hminus, hplus]

/-- A sign and digits are delimited as a number, with any digits and points behind them. -/
theorem isNumberLexeme_sign (negative : Bool) {whole rest : List Char} (h : Digits whole)
    (hrest : rest.all isNumberChar = true) :
    isNumberLexeme (sign negative ++ (whole ++ rest)) = true := by
  obtain _ | ⟨c, whole⟩ := whole
  · exact absurd rfl h.ne_nil
  · have hc : c.isDigit = true := h.isDigit_of_mem List.mem_cons_self
    have hwhole : (c :: whole).all isNumberChar = true := h.all_isNumberChar
    rw [List.all_cons, Bool.and_eq_true] at hwhole
    cases negative <;> simp_all [sign, isNumberLexeme, startsNumber]

/-! ## Integers -/

theorem ofInteger_eq (n : Int) :
    ofInteger n = sign (decide (n < 0)) ++ (Nat.toDigits 10 n.natAbs ++ []) := by
  cases n with
  | ofNat n =>
    simp [ofInteger, sign]
  | negSucc n => simp [ofInteger, sign, Int.negSucc_lt_zero]

theorem magnitude?_of_digits {run : List Char} (h : Digits run) :
    magnitude? run = some (natOfDigits run) := by
  have hhead : run.head?.any Char.isDigit = true := by
    obtain _ | ⟨c, run⟩ := run
    · exact absurd rfl h.ne_nil
    · exact h.isDigit_of_mem List.mem_cons_self
  have hall : (run.all fun c => c.isDigit || c == '_') = true := by
    refine List.all_eq_true.2 fun c hc => ?_
    rw [h.isDigit_of_mem hc, Bool.true_or]
  have hfilter : run.filter Char.isDigit = run := by
    rw [List.filter_eq_self]
    exact fun c hc => h.isDigit_of_mem hc
  simp [magnitude?, hhead, hall, hfilter]

/-- An integer is read back. -/
theorem integer?_ofInteger (n : Int) : integer? (ofInteger n) = some n := by
  have hdigits := digits_toDigits n.natAbs
  rw [ofInteger_eq, integer?, splitSign_sign _ hdigits, List.append_nil]
  simp only [magnitude?_of_digits hdigits, natOfDigits_toDigits, decide_eq_true_eq]
  change some (if n < 0 then -(n.natAbs : Int) else n.natAbs) = some n
  rw [Option.some.injEq]
  by_cases hneg : n < 0
  · rw [if_pos hneg]
    omega
  · rw [if_neg hneg]
    omega

/-! ## Reals -/

theorem natOfDigits_append (whole fraction : List Char) :
    natOfDigits (whole ++ fraction) =
      10 ^ fraction.length * natOfDigits whole + natOfDigits fraction := by
  rw [natOfDigits, Nat.ofDigitChars_append, Nat.ofDigitChars_eq_ofDigitChars_zero]
  rfl

/-- Zeros in front of digits do not count. -/
theorem natOfDigits_leftpad (n : Nat) (run : List Char) :
    natOfDigits (List.leftpad n '0' run) = natOfDigits run := by
  rw [List.leftpad, natOfDigits, Nat.ofDigitChars_append, Nat.ofDigitChars_replicate_zero,
    Nat.mul_zero]
  rfl

theorem digits_leftpad (n : Nat) {run : List Char} (h : Digits run) :
    Digits (List.leftpad n '0' run) := by
  refine ⟨by simp [List.leftpad, h.ne_nil], ?_⟩
  rw [List.leftpad, List.all_append, h.all, Bool.and_true]
  refine List.all_eq_true.2 fun c hc => ?_
  rw [List.eq_of_mem_replicate hc]
  rfl

/-- Digits around a point are a decimal without a power of ten.  On one side of the point there
may be none. -/
theorem decimal?_of_digits {whole fraction : List Char} (hwhole : whole.all Char.isDigit = true)
    (hfraction : fraction.all Char.isDigit = true) (hne : whole ++ fraction ≠ []) :
    decimal? (whole ++ '.' :: fraction) =
      some ⟨natOfDigits (whole ++ fraction), -(fraction.length : Int)⟩ := by
  have hpoint : EndsRun Char.isDigit ('.' :: fraction) := .cons (by decide) _
  have htake : fraction.takeWhile Char.isDigit = fraction := by
    simpa using takeWhile_append_of_endsRun hfraction (.nil _)
  have hdrop : fraction.dropWhile Char.isDigit = [] := by
    simpa using dropWhile_append_of_endsRun hfraction (.nil _)
  simp only [decimal?, takeWhile_append_of_endsRun hwhole hpoint,
    dropWhile_append_of_endsRun hwhole hpoint, htake, hdrop, if_neg hne]
  simp [exponent?]

/-- A positional text is digits around a point, and these digits are read as the double that
the decimal is read as. -/
theorem exists_positional_eq (d : Decimal) :
    ∃ whole fraction, d.positional = whole ++ '.' :: fraction ∧ Digits whole ∧ Digits fraction ∧
      (Decimal.mk (natOfDigits (whole ++ fraction)) (-(fraction.length : Int))).nearestMagnitude =
        d.nearestMagnitude := by
  obtain ⟨coefficient, exponent⟩ := d
  cases exponent with
  | ofNat e =>
    refine ⟨Nat.toDigits 10 (coefficient * 10 ^ e), ['0'], rfl, digits_toDigits _,
      ⟨by simp, by decide⟩, ?_⟩
    -- The zero behind the point is one more digit and one more place.
    have hdigits : natOfDigits (Nat.toDigits 10 (coefficient * 10 ^ e) ++ ['0']) =
        coefficient * 10 ^ (e + 1) := by
      rw [natOfDigits_append, natOfDigits_toDigits, Nat.pow_succ, ← Nat.mul_assoc coefficient]
      exact Nat.mul_comm 10 _
    have hexponent : -((['0'] : List Char).length : Int) = Int.ofNat e - ((e + 1 : Nat) : Int) := by
      simp only [List.length_cons, List.length_nil, Int.ofNat_eq_natCast]
      omega
    rw [hdigits, hexponent, Decimal.nearestMagnitude_mul_pow]
  | negSucc e =>
    refine ⟨Nat.toDigits 10 (coefficient / 10 ^ (e + 1)),
      List.leftpad (e + 1) '0' (Nat.toDigits 10 (coefficient % 10 ^ (e + 1))), rfl,
      digits_toDigits _, digits_leftpad _ (digits_toDigits _), ?_⟩
    have hlt : coefficient % 10 ^ (e + 1) < 10 ^ (e + 1) :=
      Nat.mod_lt _ (Nat.pow_pos (by decide))
    -- The remainder has as many digits as there are places, once it is padded.
    have hlength : (List.leftpad (e + 1) '0'
        (Nat.toDigits 10 (coefficient % 10 ^ (e + 1)))).length = e + 1 := by
      have hle := (Nat.length_toDigits_le_iff (b := 10) (by decide) (Nat.succ_pos e)).2 hlt
      rw [List.length_leftpad]
      exact Nat.max_eq_left hle
    rw [natOfDigits_append, hlength, natOfDigits_toDigits, natOfDigits_leftpad,
      natOfDigits_toDigits, Nat.div_add_mod]
    rfl

end Numeral

namespace Binary64

/-- The text of a finite double. -/
theorem text_of_isFinite {x : Binary64} (h : x.isFinite = true) :
    x.text = Numeral.sign x.negative ++ (Shortest.decimal x.magnitude).positional := by
  have hlt : x.magnitude < infinityCode := of_decide_eq_true h
  have hnan : x.isNaN = false := decide_eq_false (Nat.not_lt_of_lt hlt)
  have hinfinite : x.isInfinite = false := beq_eq_false_iff_ne.2 (Nat.ne_of_lt hlt)
  simp [text, hnan, hinfinite, Numeral.sign]

/-- A finite double is read back, bit for bit. -/
theorem real?_text {x : Binary64} (h : x.isFinite = true) : Numeral.real? x.text = some x := by
  obtain ⟨whole, fraction, hpositional, hwhole, hfraction, hnearest⟩ :=
    Numeral.exists_positional_eq (Shortest.decimal x.magnitude)
  rw [Shortest.nearestMagnitude_decimal (of_decide_eq_true h)] at hnearest
  have hne : whole ++ fraction ≠ [] := by simp [hwhole.ne_nil]
  rw [text_of_isFinite h, hpositional, Numeral.real?, Numeral.splitSign_sign _ hwhole]
  simp only [Numeral.decimal?_of_digits hwhole.all hfraction.all hne, Option.map_some,
    Option.some.injEq]
  obtain ⟨negative, magnitude, hmagnitude⟩ := x
  simp only [Decimal.toBinary64, Binary64.mk.injEq, true_and]
  exact hnearest

/-- The text of a finite double is a sign and digits around one point. -/
theorem exists_text_eq {x : Binary64} (h : x.isFinite = true) :
    ∃ whole fraction, x.text = Numeral.sign x.negative ++ (whole ++ '.' :: fraction) ∧
      Numeral.Digits whole ∧ Numeral.Digits fraction := by
  obtain ⟨whole, fraction, hpositional, hwhole, hfraction, -⟩ :=
    Numeral.exists_positional_eq (Shortest.decimal x.magnitude)
  exact ⟨whole, fraction, by rw [text_of_isFinite h, hpositional], hwhole, hfraction⟩

end Binary64

namespace Number

/-- Whether a number is an integer or a finite real. -/
def isFinite : Number → Bool
  | integer _ => true
  | real x => x.isFinite

/-- What is written for a finite number is delimited as one number. -/
theorem isNumberLexeme_chars {n : Number} (h : n.isFinite = true) :
    isNumberLexeme n.chars = true := by
  cases n with
  | integer n =>
    rw [chars, Numeral.ofInteger_eq]
    exact Numeral.isNumberLexeme_sign _ (Numeral.digits_toDigits _) rfl
  | real x =>
    obtain ⟨whole, fraction, htext, hwhole, hfraction⟩ := Binary64.exists_text_eq h
    rw [chars, htext]
    refine Numeral.isNumberLexeme_sign _ hwhole ?_
    rw [List.all_cons, hfraction.all_isNumberChar]
    rfl

/-- The number of points in the text of a finite number. -/
def points : Number → Nat
  | integer _ => 0
  | real _ => 1

theorem count_point_chars {n : Number} (h : n.isFinite = true) :
    n.chars.count '.' = n.points := by
  have hsign : ∀ negative, (Numeral.sign negative).count '.' = 0 := by decide
  have hdigits : ∀ {run : List Char}, Numeral.Digits run → run.count '.' = 0 :=
    fun hrun => List.count_eq_zero.2 (hrun.not_mem (by decide))
  cases n with
  | integer n =>
    rw [chars, Numeral.ofInteger_eq, List.append_nil, List.count_append, hsign,
      hdigits (Numeral.digits_toDigits _)]
    rfl
  | real x =>
    obtain ⟨whole, fraction, htext, hwhole, hfraction⟩ := Binary64.exists_text_eq h
    rw [chars, htext, List.count_append, List.count_append, hsign, hdigits hwhole,
      List.count_cons_self, hdigits hfraction]
    rfl

/-- **A finite number is read back.** -/
theorem read?_chars {n : Number} (h : n.isFinite = true) : read? n.chars = some n := by
  have hcount := count_point_chars h
  cases n with
  | integer n =>
    have hpoint : (Number.integer n).chars.contains '.' = false := by
      simpa using List.count_eq_zero.1 hcount
    rw [read?, hpoint]
    simp [chars, Numeral.integer?_ofInteger]
  | real x =>
    have hpos : 0 < (Number.real x).chars.count '.' := by
      rw [hcount]
      exact Nat.one_pos
    have hpoint : (Number.real x).chars.contains '.' = true := by
      simpa using List.count_pos_iff.1 hpos
    rw [read?, hpoint]
    simp [chars, Binary64.real?_text h]

/-- What is written for a finite number is the token of that number. -/
theorem ofNumber_chars {n : Number} (h : n.isFinite = true) :
    Token.ofNumber n.chars = .ok (.number n) := by
  have hcount : ¬1 < n.chars.count '.' := by
    rw [count_point_chars h]
    cases n <;> simp [points]
  rw [Token.ofNumber, if_neg hcount, read?_chars h]

end Number

/-! ## Every number lexeme spells a number -/

namespace Numeral

/-- Digits and points with one point at most are digits, or digits around a point. -/
theorem all_isDigit_or_exists_point {run : List Char} (hrun : run.all isNumberChar = true)
    (hcount : run.count '.' ≤ 1) :
    '.' ∉ run ∧ run.all Char.isDigit = true ∨
      ∃ whole fraction, run = whole ++ '.' :: fraction ∧ whole.all Char.isDigit = true ∧
        fraction.all Char.isDigit = true := by
  induction run with
  | nil => exact .inl ⟨by simp, rfl⟩
  | cons c run ih =>
    rw [List.all_cons, Bool.and_eq_true] at hrun
    by_cases hpoint : c = '.'
    · subst hpoint
      rw [List.count_cons_self] at hcount
      have hnone : '.' ∉ run := List.count_eq_zero.1 (by omega)
      refine .inr ⟨[], run, rfl, rfl, List.all_eq_true.2 fun d hd => ?_⟩
      have hd' := List.all_eq_true.1 hrun.2 d hd
      simp only [isNumberChar, Bool.or_eq_true, beq_iff_eq] at hd'
      rcases hd' with hdigit | rfl
      · exact hdigit
      · exact absurd hd hnone
    · have hdigit : c.isDigit = true := by simpa [isNumberChar, hpoint] using hrun.1
      rw [List.count_cons_of_ne hpoint] at hcount
      rcases ih hrun.2 hcount with ⟨hnone, hall⟩ | ⟨whole, fraction, rfl, hwhole, hfraction⟩
      · exact .inl ⟨by simp [Ne.symm hpoint, hnone], by simp [hdigit, hall]⟩
      · exact .inr ⟨c :: whole, fraction, rfl, by simp [hdigit, hwhole], hfraction⟩

/-- A text that is delimited as a number is digits and points, a digit among them, behind a sign
that is a minus or missing. -/
theorem exists_splitSign_eq {letters : List Char} (h : isNumberLexeme letters = true) :
    ∃ negative body, splitSign letters = (negative, body) ∧ letters = sign negative ++ body ∧
      body.all isNumberChar = true ∧ body.any Char.isDigit = true := by
  obtain _ | ⟨c, rest⟩ := letters
  · simp [isNumberLexeme] at h
  · simp only [isNumberLexeme, startsNumber, Bool.and_eq_true, Bool.or_eq_true, beq_iff_eq] at h
    obtain ⟨hstarts, hrest⟩ := h
    -- A digit begins the number, or a digit stands behind the first character, which is a minus
    -- or the point.
    rcases hstarts with hdigit | ⟨hsign, hhead⟩
    · have hdigits : Digits [c] := ⟨by simp, by simp [hdigit]⟩
      refine ⟨false, c :: rest, splitSign_sign false hdigits rest, rfl, ?_, ?_⟩
      · simp [isNumberChar, hdigit, hrest]
      · simp [hdigit]
    · obtain ⟨d, rest', rfl⟩ : ∃ d rest', rest = d :: rest' := by
        cases rest with
        | nil => simp at hhead
        | cons d rest' => exact ⟨d, rest', rfl⟩
      have hd : d.isDigit = true := by simpa using hhead
      rcases hsign with rfl | rfl
      · exact ⟨true, d :: rest', rfl, rfl, hrest, by simp [hd]⟩
      · have hbody : ('.' :: d :: rest').all isNumberChar = true := by
          rw [List.all_cons, hrest]
          rfl
        exact ⟨false, '.' :: d :: rest', rfl, rfl, hbody, by simp [hd]⟩

end Numeral

/-- Whatever is delimited as a number is read, unless it has more than one point: digits as an
integer, and digits around a point as a real. -/
theorem Number.read?_cases {letters : List Char} (h : isNumberLexeme letters = true)
    (hcount : letters.count '.' ≤ 1) :
    (∃ negative digits, letters = Numeral.sign negative ++ digits ∧ Numeral.Digits digits ∧
      read? letters = some (.integer
        (if negative then -(Numeral.natOfDigits digits : Int) else Numeral.natOfDigits digits))) ∨
    ∃ negative whole fraction, letters = Numeral.sign negative ++ (whole ++ '.' :: fraction) ∧
      whole.all Char.isDigit = true ∧ fraction.all Char.isDigit = true ∧
      read? letters = some (.real (Decimal.toBinary64 negative
        ⟨Numeral.natOfDigits (whole ++ fraction), -(fraction.length : Int)⟩)) := by
  obtain ⟨negative, body, hsplit, rfl, hbody, hdigit⟩ := Numeral.exists_splitSign_eq h
  have hsign : '.' ∉ Numeral.sign negative := by cases negative <;> decide
  rw [List.count_append, List.count_eq_zero.2 hsign, Nat.zero_add] at hcount
  have hne : body ≠ [] := by
    rintro rfl
    simp at hdigit
  rcases Numeral.all_isDigit_or_exists_point hbody hcount with
    ⟨hnone, hall⟩ | ⟨whole, fraction, rfl, hwhole, hfraction⟩
  · refine .inl ⟨negative, body, rfl, ⟨hne, hall⟩, ?_⟩
    simp [read?, hsign, hnone, Numeral.integer?, hsplit, Numeral.magnitude?_of_digits ⟨hne, hall⟩]
  · refine .inr ⟨negative, whole, fraction, rfl, hwhole, hfraction, ?_⟩
    have hdigits : whole ++ fraction ≠ [] := by
      intro hnil
      obtain ⟨rfl, rfl⟩ := List.append_eq_nil_iff.1 hnil
      exact absurd hdigit (by decide)
    simp [read?, Numeral.real?, hsplit, Numeral.decimal?_of_digits hwhole hfraction hdigits]

theorem Number.exists_read?_eq_some {letters : List Char} (h : isNumberLexeme letters = true)
    (hcount : letters.count '.' ≤ 1) : ∃ n, read? letters = some n := by
  rcases read?_cases h hcount with ⟨_, _, -, -, hread⟩ | ⟨_, _, _, -, -, -, hread⟩
  · exact ⟨_, hread⟩
  · exact ⟨_, hread⟩

end SmallLisp
