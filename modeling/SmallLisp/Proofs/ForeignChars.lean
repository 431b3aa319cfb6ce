import SmallLisp.Proofs.Lexemes

/-!
# Foreign characters

Tokens and expressions are shown and written with the letters and digits of words and numbers, with
parentheses, ticks and signs, and with spaces between them.  Everything else is foreign to them, and
so can be used to tell their texts apart: the equals signs of a header, and the ends of lines.
-/

namespace SmallLisp

/-- **A foreign character**: no word and no number has it, and it is none of the other characters
that are written between and around them. -/
structure IsForeign (c : Char) : Prop where
  isWordChar_eq_false : isWordChar c = false
  isNumberChar_eq_false : isNumberChar c = false
  not_mem : c ∉ ['(', ')', '\'', '-', '\\', '@', ' ']

namespace IsForeign

theorem equals : IsForeign '=' := ⟨by decide +kernel, by decide, by decide⟩

theorem newline : IsForeign '\n' := ⟨by decide +kernel, by decide, by decide⟩

theorem carriageReturn : IsForeign '\r' := ⟨by decide +kernel, by decide, by decide⟩

variable {c : Char} {letters : List Char}

theorem ne_of_mem (hc : IsForeign c) {c' : Char}
    (h : c' ∈ ['(', ')', '\'', '-', '\\', '@', ' ']) : c ≠ c' := by
  rintro rfl
  exact hc.not_mem h

theorem isDigit_eq_false (hc : IsForeign c) : c.isDigit = false := by
  have hnumber := hc.isNumberChar_eq_false
  rw [isNumberChar, Bool.or_eq_false_iff] at hnumber
  exact hnumber.1

theorem ne_point (hc : IsForeign c) : c ≠ '.' := by
  rintro rfl
  exact absurd hc.isNumberChar_eq_false (by decide)

theorem not_mem_of_all (hc : IsForeign c) (h : letters.all isWordChar = true) : c ∉ letters := by
  intro hmem
  have htrue := List.all_eq_true.1 h c hmem
  rw [hc.isWordChar_eq_false] at htrue
  cases htrue

theorem not_mem_of_isWord (hc : IsForeign c) (h : isWord letters = true) : c ∉ letters := by
  apply hc.not_mem_of_all
  cases letters with
  | nil => rfl
  | cons first letters =>
    rw [isWord, Bool.and_eq_true] at h
    rw [List.all_cons, h.2, isWordChar, h.1]
    rfl

theorem not_mem_of_isNumberLexeme (hc : IsForeign c) (h : isNumberLexeme letters = true) :
    c ∉ letters := by
  cases letters with
  | nil => simp
  | cons first letters =>
    rw [isNumberLexeme, Bool.and_eq_true] at h
    rw [List.mem_cons, not_or]
    constructor
    · rintro rfl
      rcases eq_or_isDigit_of_startsNumber h.1 with hsign | hpoint | hdigit
      · exact hc.ne_of_mem (by decide) hsign
      · exact hc.ne_point hpoint
      · rw [hc.isDigit_eq_false] at hdigit
        cases hdigit
    · intro hmem
      have htrue := List.all_eq_true.1 h.2 c hmem
      rw [hc.isNumberChar_eq_false] at htrue
      cases htrue

end IsForeign
end SmallLisp
