import SmallLisp.Proofs.NearestDouble
import SmallLisp.Proofs.NumberText
import SmallLisp.Proofs.Resumption

/-!
# What a number in a text stands for

A numeral is read by the decimal system: each digit counts for a power of ten that its place says,
tenths and less behind the point, and a minus in front makes it negative (`Numeral.value`).  What a
scanner delimits as a number it reads as that number, exactly without a point, and as the nearest
double with one (`Number.StandsFor`).  The lexical error for a numeral that spells no number is
never reported, for there is no such numeral.
-/

namespace SmallLisp

/-! ## The decimal system -/

namespace Numeral

/-- The number that a digit stands for. -/
def digit (c : Char) : ℕ := c.toNat - '0'.toNat

/-- Digits in front of the point. -/
def wholeValue : List Char → ℕ
  | [] => 0
  | c :: rest => digit c * 10 ^ rest.length + wholeValue rest

/-- Digits behind the point. -/
def fractionValue : List Char → ℚ
  | [] => 0
  | c :: rest => (digit c + fractionValue rest) / 10

/-- Digits, a point among them or not. -/
def unsignedValue (text : List Char) : ℚ :=
  wholeValue (text.takeWhile (· != '.')) + fractionValue (text.dropWhile (· != '.')).tail

/-- The number that a numeral stands for. -/
def value : List Char → ℚ
  | '-' :: text => -unsignedValue text
  | text => unsignedValue text

theorem natOfDigits_cons (c : Char) (rest : List Char) :
    natOfDigits (c :: rest) = digit c * 10 ^ rest.length + natOfDigits rest := by
  rw [natOfDigits, Nat.ofDigitChars_cons, Nat.ofDigitChars_eq_ofDigitChars_zero, Nat.mul_zero,
    Nat.zero_add, Nat.mul_comm (10 ^ rest.length)]
  rfl

theorem wholeValue_eq (digits : List Char) : wholeValue digits = natOfDigits digits := by
  induction digits with
  | nil => rfl
  | cons c rest ih => rw [wholeValue, natOfDigits_cons, ih]

theorem fractionValue_eq (digits : List Char) :
    fractionValue digits = natOfDigits digits / 10 ^ digits.length := by
  induction digits with
  | nil => simp [fractionValue, natOfDigits]
  | cons c rest ih =>
    have hpow : (10 : ℚ) ^ rest.length ≠ 0 := pow_ne_zero _ (by norm_num)
    rw [fractionValue, natOfDigits_cons, ih, List.length_cons, pow_succ, ← div_div, Nat.cast_add,
      Nat.cast_mul, Nat.cast_pow, Nat.cast_ofNat, add_div _ _ (10 ^ rest.length),
      mul_div_cancel_right₀ _ hpow]

theorem all_ne_point {run : List Char} (h : run.all Char.isDigit = true) :
    run.all (· != '.') = true := by
  refine List.all_eq_true.2 fun c hc => bne_iff_ne.2 ?_
  rintro rfl
  exact not_mem_of_all_isDigit h (by decide) hc

theorem unsignedValue_of_digits {digits : List Char} (h : digits.all Char.isDigit = true) :
    unsignedValue digits = natOfDigits digits := by
  have hnone := EndsRun.nil (· != '.')
  have htake := takeWhile_append_of_endsRun (all_ne_point h) hnone
  have hdrop := dropWhile_append_of_endsRun (all_ne_point h) hnone
  rw [List.append_nil] at htake hdrop
  rw [unsignedValue, htake, hdrop, wholeValue_eq, List.tail_nil, fractionValue, add_zero]

/-- Digits around a point are one coefficient, of which as many digits as are behind the point are
behind it. -/
theorem unsignedValue_of_point {whole : List Char} (hwhole : whole.all Char.isDigit = true)
    (fraction : List Char) :
    unsignedValue (whole ++ '.' :: fraction) =
      (Decimal.mk (natOfDigits (whole ++ fraction)) (-(fraction.length : Int))).value := by
  have hpoint : EndsRun (· != '.') ('.' :: fraction) := .cons (by decide) fraction
  have hpow : (10 : ℚ) ^ fraction.length ≠ 0 := pow_ne_zero _ (by norm_num)
  rw [unsignedValue, takeWhile_append_of_endsRun (all_ne_point hwhole) hpoint,
    dropWhile_append_of_endsRun (all_ne_point hwhole) hpoint, List.tail_cons, wholeValue_eq,
    fractionValue_eq, Decimal.value, zpow_neg, zpow_natCast, ← div_eq_mul_inv, natOfDigits_append,
    Nat.cast_add, add_div, Nat.cast_mul, Nat.cast_pow, Nat.cast_ofNat, mul_div_cancel_left₀ _ hpow]

theorem value_sign (negative : Bool) {body : List Char} (hbody : '-' ∉ body) :
    value (sign negative ++ body) = signed negative (unsignedValue body) := by
  cases negative with
  | true => rfl
  | false =>
    cases body with
    | nil => rfl
    | cons c rest =>
      have hc : c ≠ '-' := by
        rintro rfl
        exact hbody List.mem_cons_self
      simp [sign, signed, value, hc]

/-- The sign of a numeral is in front of it. -/
theorem head?_sign_append (negative : Bool) {body : List Char} (hbody : '-' ∉ body) :
    (sign negative ++ body).head? = some '-' ↔ negative = true := by
  cases negative with
  | true => simp [sign]
  | false =>
    cases body with
    | nil => simp [sign]
    | cons c rest => simp_all [sign, eq_comm]

end Numeral

/-! ## Numbers -/

/-- **A number is what a numeral stands for**: exactly if it is an integer, and as nearly as can be
if it is a real.  The sign of a real is that of the numeral, even if it is zero. -/
def Number.StandsFor (letters : List Char) : Number → Prop
  | .integer n => letters.count '.' = 0 ∧ (n : ℚ) = Numeral.value letters
  | .real x =>
    letters.count '.' = 1 ∧ (x.negative = true ↔ letters.head? = some '-') ∧
      x.IsNearest (Numeral.value letters)

/-- Whatever is delimited as a number stands for one, unless it has more than one point. -/
theorem Number.exists_standsFor {letters : List Char} (h : isNumberLexeme letters = true)
    (hcount : letters.count '.' ≤ 1) : ∃ n, read? letters = some n ∧ n.StandsFor letters := by
  have hsign : ∀ negative, (Numeral.sign negative).count '.' = 0 := by decide
  have hpoints : ∀ {run : List Char}, run.all Char.isDigit = true → run.count '.' = 0 :=
    fun hrun => List.count_eq_zero.2 (Numeral.not_mem_of_all_isDigit hrun (by decide))
  have hminus : ∀ {run : List Char}, run.all Char.isDigit = true → '-' ∉ run :=
    fun hrun => Numeral.not_mem_of_all_isDigit hrun (by decide)
  -- Signs and digits are no points, so counting the points tells the two kinds apart.
  rcases read?_cases h hcount with ⟨negative, digits, rfl, hdigits, hread⟩ |
    ⟨negative, whole, fraction, rfl, hwhole, hfraction, hread⟩
  · refine ⟨_, hread, ?_, ?_⟩
    · rw [List.count_append, hsign, hpoints hdigits.all]
    · rw [Numeral.value_sign negative (hminus hdigits.all),
        Numeral.unsignedValue_of_digits hdigits.all]
      cases negative with
      | false => rfl
      | true => exact Int.cast_neg _
  · have hbody : '-' ∉ whole ++ '.' :: fraction := by
      simp [hminus hwhole, hminus hfraction]
    refine ⟨_, hread, ?_, (Numeral.head?_sign_append negative hbody).symm, ?_⟩
    · rw [List.count_append, List.count_append, List.count_cons_self, hsign, hpoints hwhole,
        hpoints hfraction]
    · rw [Numeral.value_sign negative hbody, Numeral.unsignedValue_of_point hwhole]
      exact Decimal.isNearest_toBinary64 negative _

theorem Token.exists_ofLexeme_standsFor {letters : List Char} (h : isNumberLexeme letters = true)
    (hcount : letters.count '.' ≤ 1) :
    ∃ n, Token.ofLexeme letters = .ok (.number n) ∧ n.StandsFor letters := by
  obtain ⟨n, hread, hstands⟩ := Number.exists_standsFor h hcount
  refine ⟨n, ?_, hstands⟩
  rw [ofLexeme_of_isNumberLexeme h, ofNumber, if_neg (Nat.not_lt_of_le hcount), hread]

/-! ## Scanning -/

namespace Scanner

variable {d : Dialect} {s : Scanner}

/-- A scanner passes over the blanks first. -/
theorem next_eq_next_before (hs : s.ended = false) :
    s.next d = (before s.skipBlanks.rest s.skipBlanks.position).next d := by
  have hskip : (before s.skipBlanks.rest s.skipBlanks.position).skipBlanks =
      before s.skipBlanks.rest s.skipBlanks.position :=
    skipBlanks_before_of_endsRun (endsRun_dropWhile isBlank s.rest) _
  have hended : s.skipBlanks.ended = false := hs
  have hbefore : before s.skipBlanks.rest s.skipBlanks.position = s.skipBlanks := by
    simp [before, skipBlanks, hs]
  rw [next, next, hskip, hbefore]
  simp [hs, hended]

/-- No numeral is reported to spell no number. -/
theorem Request.ne_invalidNumber {p : Position} {text : List Char} {answer : Result} {s' : Scanner}
    (h : Request d p text answer s') (lexeme : String) (position : Position) :
    answer ≠ .error ⟨.invalidNumber lexeme, position⟩ := by
  cases h with
  | badLexeme hlexeme hbad =>
    obtain ⟨-, -, -, rfl⟩ := hlexeme.severalPoints_of_error hbad
    exact nofun
  | _ => exact nofun

theorem next_ne_invalidNumber (d : Dialect) (s : Scanner) (lexeme : String) (position : Position) :
    (s.next d).1 ≠ .error ⟨.invalidNumber lexeme, position⟩ := by
  cases hs : s.ended with
  | true =>
    rw [next_of_ended hs]
    exact nofun
  | false =>
    exact (request_next hs).ne_invalidNumber lexeme position

theorem ne_invalidNumber_of_mem_answers {k : Nat} {answer : Result}
    (h : answer ∈ answers d k s) (lexeme : String) (position : Position) :
    answer ≠ .error ⟨.invalidNumber lexeme, position⟩ := by
  induction k generalizing s with
  | zero => cases h
  | succ k ih =>
    rcases List.mem_cons.1 h with rfl | h
    · exact next_ne_invalidNumber d s lexeme position
    · exact ih h

/-- **Every number that a scanner delimits is read as what it stands for.**  It is never reported
to spell no number, however many tokens were asked for.  Where digits and points stand behind the
blanks that begin like a number, as far as they go, they are one token if there is one point among
them at most. -/
theorem numbers_stand_for (d : Dialect) (source : String) (k : Nat) :
    (∀ answer ∈ answers d k (ofSource source), ∀ lexeme position,
        answer ≠ .error ⟨.invalidNumber lexeme, position⟩) ∧
      ((afterRequests d k (ofSource source)).ended = false →
        ∀ letters behind,
          (afterRequests d k (ofSource source)).skipBlanks.rest = letters ++ behind →
          isNumberLexeme letters = true → EndsRun isNumberChar behind →
          letters.count '.' ≤ 1 →
          ∃ n : Number, n.StandsFor letters ∧
            ((afterRequests d k (ofSource source)).next d).1 =
              .ok ⟨.number n, (afterRequests d k (ofSource source)).skipBlanks.position⟩ ∧
            (afterRequests d (k + 1) (ofSource source)).rest = behind) := by
  refine ⟨fun answer hanswer => ne_invalidNumber_of_mem_answers hanswer, ?_⟩
  intro hended letters behind hrest hnumber hbehind hcount
  obtain ⟨n, hn, hstands⟩ := Token.exists_ofLexeme_standsFor hnumber hcount
  have hnext := next_eq_next_before (d := d) hended
  rw [hrest, next_before_lexeme (.number hnumber hbehind) hn] at hnext
  refine ⟨n, hstands, by rw [hnext], ?_⟩
  rw [afterRequests_succ, hnext, rest_before]

/-- Minus a half, behind a word. -/
theorem numbers_stand_for_half :
    ∃ x : Binary64, x.negative = true ∧ x.IsNearest (-1 / 2) ∧
      ((afterRequests .standard 1 (ofSource "x -0.5")).next .standard).1 =
        .ok ⟨.number (.real x), ⟨0, 2⟩⟩ := by
  have hvalue : Numeral.value "-0.5".toList = -1 / 2 := by
    have hsplit : "-0.5".toList.tail.takeWhile (· != '.') = ['0'] ∧
        ("-0.5".toList.tail.dropWhile (· != '.')).tail = ['5'] := by decide
    have hdigits : Numeral.digit '0' = 0 ∧ Numeral.digit '5' = 5 := by decide
    change -Numeral.unsignedValue "-0.5".toList.tail = -1 / 2
    rw [Numeral.unsignedValue, hsplit.1, hsplit.2]
    norm_num [Numeral.wholeValue, Numeral.fractionValue, hdigits]
  obtain ⟨n, hstands, hnext, -⟩ := (numbers_stand_for .standard "x -0.5" 1).2 (by decide +kernel)
    "-0.5".toList [] (by decide +kernel) (by decide +kernel) (.nil _) (by decide)
  cases n with
  | integer n => exact absurd hstands.1 (by decide)
  | real x =>
    obtain ⟨-, hsign, hnearest⟩ := hstands
    rw [hvalue] at hnearest
    exact ⟨x, hsign.2 rfl, hnearest, hnext⟩

end Scanner
end SmallLisp
