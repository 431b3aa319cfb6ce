import Mathlib.Algebra.Group.Nat.Defs
import SmallLisp.Expr.Sink
import SmallLisp.Text.Utf8

/-!
# The bytes of a character

UTF-8 writes a code point as a first byte, which tells how many more there are, and bytes of six
bits each (`utf8EncodeChar_eq`).  The machine that goes through bytes keeps the beginning of a
character as the bits so far, the number of bytes missing and the bounds for the next one.  What
these stand for is a set of code points, those whose encoding goes on from the bytes so far
(`PartialChar.Admits`), and a beginning is one that stands for the right set and not for an empty
one (`PartialChar.IsBeginning`).

The bounds are narrower than six bits only behind four first bytes, and that is where overlong
forms, surrogates and what is beyond the last code point are kept out: with these bounds every code
point that is admitted is that of a character, and one with an encoding of the right length.

The result is that the machine decides every byte correctly (`Takes`): a character is complete
when its encoding is, a beginning is kept while some character begins like that, and a byte is
refused exactly if no character does.
-/

namespace SmallLisp

/-! ## Code points -/

theorem lt_of_isValidChar {code : Nat} (h : code.isValidChar) : code < 0x110000 := by
  rcases h with h | h
  · omega
  · exact h.2

theorem toNat_ofNat_of_isValidChar {code : Nat} (h : code.isValidChar) :
    (Char.ofNat code).toNat = code := by
  rw [Char.ofNat, dif_pos h]
  rfl

/-- The last `n` bytes of an encoding, which hold the last `6 * n` bits of the code point. -/
def encodedTail (code : Nat) : Nat → List UInt8
  | 0 => []
  | n + 1 => UInt8.ofNat (0x80 + code / 64 ^ n % 64) :: encodedTail code n

@[simp] theorem length_encodedTail (code n : Nat) : (encodedTail code n).length = n := by
  induction n with
  | zero => rfl
  | succ n ih => rw [encodedTail, List.length_cons, ih]

/-- The number of bytes behind the first one in the encoding of a code point. -/
def tailLength (code : Nat) : Nat :=
  if code < 0x80 then 0 else if code < 0x800 then 1 else if code < 0x10000 then 2 else 3

/-- How a first byte is marked with the number of bytes behind it. -/
def leadMark : Nat → Nat
  | 0 => 0
  | 1 => 0xC0
  | 2 => 0xE0
  | _ => 0xF0

/-- The first byte of the encoding of a code point. -/
def leadByte (code : Nat) : Nat := leadMark (tailLength code) + code / 64 ^ tailLength code

theorem leadByte_cases (code : Nat) :
    (tailLength code = 0 ∧ code < 0x80 ∧ leadByte code = code) ∨
      (tailLength code = 1 ∧ 0x80 ≤ code ∧ code < 0x800 ∧ leadByte code = 0xC0 + code / 64) ∨
      (tailLength code = 2 ∧ 0x800 ≤ code ∧ code < 0x10000 ∧
        leadByte code = 0xE0 + code / 4096) ∨
      tailLength code = 3 ∧ 0x10000 ≤ code ∧ leadByte code = 0xF0 + code / 262144 := by
  rw [leadByte]
  rcases Nat.lt_or_ge code 0x80 with hone | hone
  · have htail : tailLength code = 0 := if_pos hone
    left
    simpa [htail, leadMark] using hone
  rcases Nat.lt_or_ge code 0x800 with htwo | htwo
  · have htail : tailLength code = 1 := by rw [tailLength, if_neg (by omega), if_pos htwo]
    right; left
    simpa [htail, leadMark] using ⟨hone, htwo⟩
  rcases Nat.lt_or_ge code 0x10000 with hthree | hthree
  · have htail : tailLength code = 2 := by
      rw [tailLength, if_neg (by omega), if_neg (by omega), if_pos hthree]
    right; right; left
    simpa [htail, leadMark] using ⟨htwo, hthree⟩
  · have htail : tailLength code = 3 := by
      rw [tailLength, if_neg (by omega), if_neg (by omega), if_neg (by omega)]
    right; right; right
    simpa [htail, leadMark] using hthree

/-- The encoding of a character is the first byte and the bytes behind it. -/
theorem utf8EncodeChar_eq (c : Char) :
    String.utf8EncodeChar c =
      UInt8.ofNat (leadByte c.toNat) :: encodedTail c.toNat (tailLength c.toNat) := by
  have hlt := lt_of_isValidChar c.valid
  have hval : c.val.toNat = c.toNat := rfl
  rw [hval] at hlt
  -- One case for each length.  The encoding of the library cuts the bits of the first byte to
  -- size, which changes nothing in a code point of that length.
  rcases leadByte_cases c.toNat with
    ⟨htail, hle, hlead⟩ | ⟨htail, hge, hlt, hlead⟩ | ⟨htail, hge, hlt, hlead⟩ | ⟨htail, hge, hlead⟩
  · have hone : c.toNat ≤ 0x7f := by omega
    simp [String.utf8EncodeChar, hval, hone, htail, hlead, encodedTail]
  · have hone : ¬ c.toNat ≤ 0x7f := by omega
    have htwo : c.toNat ≤ 0x7ff := by omega
    have hbits : c.toNat / 64 % 32 = c.toNat / 64 := by omega
    simp [String.utf8EncodeChar, hval, hone, htwo, htail, hlead, encodedTail, hbits,
      Nat.add_comm]
  · have hone : ¬ c.toNat ≤ 0x7f := by omega
    have htwo : ¬ c.toNat ≤ 0x7ff := by omega
    have hthree : c.toNat ≤ 0xffff := by omega
    have hbits : c.toNat / 4096 % 16 = c.toNat / 4096 := by omega
    simp [String.utf8EncodeChar, hval, hone, htwo, hthree, htail, hlead, encodedTail, hbits,
      Nat.add_comm]
  · have hone : ¬ c.toNat ≤ 0x7f := by omega
    have htwo : ¬ c.toNat ≤ 0x7ff := by omega
    have hthree : ¬ c.toNat ≤ 0xffff := by omega
    have hbits : c.toNat / 262144 % 8 = c.toNat / 262144 := by omega
    simp [String.utf8EncodeChar, hval, hone, htwo, hthree, htail, hlead, encodedTail, hbits,
      Nat.add_comm]

theorem utf8EncodeChar_ne_nil (c : Char) : String.utf8EncodeChar c ≠ [] := by
  rw [utf8EncodeChar_eq]
  exact List.cons_ne_nil _ _

theorem singleton_prefix_utf8EncodeChar_iff {b : UInt8} {c : Char} :
    [b] <+: String.utf8EncodeChar c ↔ leadByte c.toNat = b.toNat := by
  have hlt : leadByte c.toNat < 256 := by
    have hcode : c.toNat < 0x110000 := lt_of_isValidChar c.valid
    rcases leadByte_cases c.toNat with h | h | h | h <;> omega
  rw [utf8EncodeChar_eq, List.cons_prefix_cons]
  constructor
  · rintro ⟨rfl, -⟩
    rw [UInt8.toNat_ofNat_of_lt' hlt]
  · intro h
    rw [h, UInt8.ofNat_toNat]
    exact ⟨rfl, List.nil_prefix⟩

/-! ## Beginnings of characters -/

namespace PartialChar

variable {p : PartialChar} {b : UInt8} {m : Nat}

/-- Whether a code point goes on from here: it has the bits so far, and its next six bits are
within the bounds for the next byte. -/
structure Admits (p : PartialChar) (code : Nat) : Prop where
  bits_eq : code / 64 ^ p.missing = p.bits
  low_le : p.low ≤ 0x80 + code / 64 ^ (p.missing - 1) % 64
  le_high : 0x80 + code / 64 ^ (p.missing - 1) % 64 ≤ p.high

/-- **The beginning of a character.**  The code points that go on from here are those of the
characters whose encoding does, and there are some. -/
structure IsBeginning (p : PartialChar) : Prop where
  ne_nil : p.bytes ≠ []
  missing_pos : 0 < p.missing
  low_ge : 0x80 ≤ p.low
  high_le : p.high ≤ 0xBF
  exists_admits : ∃ code, p.Admits code
  admits_of_prefix : ∀ c : Char, p.bytes <+: String.utf8EncodeChar c → p.Admits c.toNat
  isValidChar_of_admits : ∀ code, p.Admits code → code.isValidChar
  encode_eq_of_admits : ∀ c : Char, p.Admits c.toNat →
    String.utf8EncodeChar c = p.bytes ++ encodedTail c.toNat p.missing

/-! ### Behind a first byte -/

theorem isBeginning_of_first {bits missing low high : Nat} (hmissing : 0 < missing)
    (hlead : leadMark missing + bits = b.toNat) (hlow : 0x80 ≤ low) (hhigh : high ≤ 0xBF)
    (hexists : ∃ code, Admits ⟨[b], bits, missing, low, high⟩ code)
    (hvalid : ∀ code, Admits ⟨[b], bits, missing, low, high⟩ code →
      code.isValidChar ∧ tailLength code = missing)
    (hadmits : ∀ code, code.isValidChar → leadByte code = b.toNat →
      Admits ⟨[b], bits, missing, low, high⟩ code) :
    IsBeginning ⟨[b], bits, missing, low, high⟩ where
  ne_nil := List.cons_ne_nil _ _
  missing_pos := hmissing
  low_ge := hlow
  high_le := hhigh
  exists_admits := hexists
  admits_of_prefix c h := hadmits c.toNat c.valid (singleton_prefix_utf8EncodeChar_iff.1 h)
  isValidChar_of_admits code h := (hvalid code h).1
  encode_eq_of_admits c h := by
    have htail := (hvalid c.toNat h).2
    have hbits : c.toNat / 64 ^ missing = bits := h.bits_eq
    rw [utf8EncodeChar_eq, leadByte, htail, hbits, hlead, UInt8.ofNat_toNat]
    rfl

/-- A character of two bytes. -/
theorem isBeginning_of_two (hb : 0xC2 ≤ b.toNat) (hb' : b.toNat < 0xE0) :
    IsBeginning ⟨[b], b.toNat - 0xC0, 1, 0x80, 0xBF⟩ := by
  refine isBeginning_of_first (by decide) (by simp only [leadMark]; omega) (by decide) (by decide)
    ⟨(b.toNat - 0xC0) * 64, ?_, ?_, ?_⟩ ?_ ?_
  · show (b.toNat - 0xC0) * 64 / 64 = b.toNat - 0xC0
    omega
  · exact Nat.le_add_right _ _
  · show 0x80 + (b.toNat - 0xC0) * 64 / 1 % 64 ≤ 0xBF
    omega
  · rintro code ⟨hbits, -, -⟩
    have hbits : code / 64 = b.toNat - 0xC0 := hbits
    refine ⟨.inl (by omega), ?_⟩
    rw [tailLength, if_neg (by omega), if_pos (by omega)]
  · intro code hcode hlead
    have hlt := lt_of_isValidChar hcode
    have hcases := leadByte_cases code
    refine ⟨?_, ?_, ?_⟩
    · show code / 64 = b.toNat - 0xC0
      omega
    · exact Nat.le_add_right _ _
    · show 0x80 + code / 1 % 64 ≤ 0xBF
      omega

/-- A character of three bytes.  Behind the first of these bytes smaller code points would have a
shorter encoding, and behind one of the others there would be the surrogates. -/
theorem isBeginning_of_three {low high : Nat} (hb : 0xE0 ≤ b.toNat) (hb' : b.toNat < 0xF0)
    (hlow : low = if b.toNat = 0xE0 then 0xA0 else 0x80)
    (hhigh : high = if b.toNat = 0xED then 0x9F else 0xBF) :
    IsBeginning ⟨[b], b.toNat - 0xE0, 2, low, high⟩ := by
  have hbounds : 0x80 ≤ low ∧ low ≤ high ∧ high ≤ 0xBF := by
    rw [hlow, hhigh]
    split <;> split <;> omega
  refine isBeginning_of_first (by decide) (by simp only [leadMark]; omega) hbounds.1 hbounds.2.2
    ⟨(b.toNat - 0xE0) * 4096 + (low - 0x80) * 64, ?_, ?_, ?_⟩ ?_ ?_
  · show ((b.toNat - 0xE0) * 4096 + (low - 0x80) * 64) / 4096 = b.toNat - 0xE0
    omega
  · show low ≤ 0x80 + ((b.toNat - 0xE0) * 4096 + (low - 0x80) * 64) / 64 % 64
    omega
  · show 0x80 + ((b.toNat - 0xE0) * 4096 + (low - 0x80) * 64) / 64 % 64 ≤ high
    omega
  · rintro code ⟨hbits, hle, hle'⟩
    have hbits : code / 4096 = b.toNat - 0xE0 := hbits
    have hle : low ≤ 0x80 + code / 64 % 64 := hle
    have hle' : 0x80 + code / 64 % 64 ≤ high := hle'
    -- The lower bound behind `0xE0` keeps out what two bytes hold, and the upper one behind
    -- `0xED` the surrogates.
    have hlarge : 0x800 ≤ code := by
      split at hlow <;> omega
    refine ⟨?_, ?_⟩
    · show code < 0xD800 ∨ 0xDFFF < code ∧ code < 0x110000
      split at hhigh <;> omega
    · rw [tailLength, if_neg (by omega), if_neg (by omega), if_pos (by omega)]
  · intro code hcode hlead
    have hlt := lt_of_isValidChar hcode
    have hcases := leadByte_cases code
    have hcode : code < 0xD800 ∨ 0xDFFF < code ∧ code < 0x110000 := hcode
    refine ⟨?_, ?_, ?_⟩
    · show code / 4096 = b.toNat - 0xE0
      omega
    · show low ≤ 0x80 + code / 64 % 64
      split at hlow <;> omega
    · show 0x80 + code / 64 % 64 ≤ high
      split at hhigh <;> omega

/-- A character of four bytes.  Behind the first of these bytes smaller code points would have a
shorter encoding, and behind the last of them there would be greater ones than there are. -/
theorem isBeginning_of_four {low high : Nat} (hb : 0xF0 ≤ b.toNat) (hb' : b.toNat ≤ 0xF4)
    (hlow : low = if b.toNat = 0xF0 then 0x90 else 0x80)
    (hhigh : high = if b.toNat = 0xF4 then 0x8F else 0xBF) :
    IsBeginning ⟨[b], b.toNat - 0xF0, 3, low, high⟩ := by
  have hbounds : 0x80 ≤ low ∧ low ≤ high ∧ high ≤ 0xBF := by
    rw [hlow, hhigh]
    split <;> split <;> omega
  refine isBeginning_of_first (by decide) (by simp only [leadMark]; omega) hbounds.1 hbounds.2.2
    ⟨(b.toNat - 0xF0) * 262144 + (low - 0x80) * 4096, ?_, ?_, ?_⟩ ?_ ?_
  · show ((b.toNat - 0xF0) * 262144 + (low - 0x80) * 4096) / 262144 = b.toNat - 0xF0
    omega
  · show low ≤ 0x80 + ((b.toNat - 0xF0) * 262144 + (low - 0x80) * 4096) / 4096 % 64
    omega
  · show 0x80 + ((b.toNat - 0xF0) * 262144 + (low - 0x80) * 4096) / 4096 % 64 ≤ high
    omega
  · rintro code ⟨hbits, hle, hle'⟩
    have hbits : code / 262144 = b.toNat - 0xF0 := hbits
    have hle : low ≤ 0x80 + code / 4096 % 64 := hle
    have hle' : 0x80 + code / 4096 % 64 ≤ high := hle'
    -- The lower bound behind `0xF0` keeps out what three bytes hold, and the upper one behind
    -- `0xF4` what is no code point.
    have hlarge : 0x10000 ≤ code := by
      split at hlow <;> omega
    refine ⟨.inr ⟨by omega, ?_⟩, ?_⟩
    · split at hhigh <;> omega
    · rw [tailLength, if_neg (by omega), if_neg (by omega), if_neg (by omega)]
  · intro code hcode hlead
    have hlt := lt_of_isValidChar hcode
    have hcases := leadByte_cases code
    refine ⟨?_, ?_, ?_⟩
    · show code / 262144 = b.toNat - 0xF0
      omega
    · show low ≤ 0x80 + code / 4096 % 64
      split at hlow <;> omega
    · show 0x80 + code / 4096 % 64 ≤ high
      split at hhigh <;> omega

/-! ### Behind one more byte -/

theorem IsBeginning.exists_missing_eq (hp : p.IsBeginning) : ∃ m, p.missing = m + 1 :=
  Nat.exists_eq_succ_of_ne_zero (Nat.ne_of_gt hp.missing_pos)

/-- Some character begins like this, and some of its bytes are missing. -/
theorem IsBeginning.exists_utf8EncodeChar_eq (hp : p.IsBeginning) :
    ∃ c n, String.utf8EncodeChar c = p.bytes ++ encodedTail c.toNat (n + 1) := by
  obtain ⟨m, hm⟩ := hp.exists_missing_eq
  obtain ⟨code, hcode⟩ := hp.exists_admits
  have hc := toNat_ofNat_of_isValidChar (hp.isValidChar_of_admits _ hcode)
  rw [← hc] at hcode
  exact ⟨Char.ofNat code, m, by rw [hp.encode_eq_of_admits _ hcode, hm]⟩

/-- A code point has the bits so far and those of a byte behind them exactly if it goes on from
here with this byte. -/
theorem IsBeginning.div_eq_iff (hp : p.IsBeginning) (hm : p.missing = m + 1)
    (hlow : p.low ≤ b.toNat) (hhigh : b.toNat ≤ p.high) {code : Nat} :
    code / 64 ^ m = p.bits * 64 + (b.toNat - 0x80) ↔
      p.Admits code ∧ 0x80 + code / 64 ^ m % 64 = b.toNat := by
  have hlow' : 0x80 ≤ b.toNat := Nat.le_trans hp.low_ge hlow
  have hhigh' : b.toNat ≤ 0xBF := Nat.le_trans hhigh hp.high_le
  have hdiv : code / 64 ^ (m + 1) = code / 64 ^ m / 64 := by
    rw [Nat.pow_succ, Nat.div_div_eq_div_mul]
  constructor
  · intro h
    -- The last six bits are those of the byte, and in front of them are the bits so far.
    have hbyte : 0x80 + code / 64 ^ m % 64 = b.toNat := by omega
    refine ⟨⟨?_, ?_, ?_⟩, hbyte⟩
    · rw [hm, hdiv, h]
      omega
    · rwa [hm, Nat.add_sub_cancel, hbyte]
    · rwa [hm, Nat.add_sub_cancel, hbyte]
  · rintro ⟨hadmits, hbyte⟩
    have hbits := hadmits.bits_eq
    rw [hm, hdiv] at hbits
    omega

/-- A character goes on with a byte exactly if its code point does. -/
theorem IsBeginning.append_prefix_iff (hp : p.IsBeginning) (hm : p.missing = m + 1) {c : Char} :
    p.bytes ++ [b] <+: String.utf8EncodeChar c ↔
      p.Admits c.toNat ∧ 0x80 + c.toNat / 64 ^ m % 64 = b.toNat := by
  have hencode : p.Admits c.toNat → String.utf8EncodeChar c =
      p.bytes ++ (UInt8.ofNat (0x80 + c.toNat / 64 ^ m % 64) :: encodedTail c.toNat m) := by
    intro hadmits
    rw [hp.encode_eq_of_admits c hadmits, hm, encodedTail]
  have hlt : 0x80 + c.toNat / 64 ^ m % 64 < 256 := by omega
  constructor
  · intro h
    have hadmits := hp.admits_of_prefix c ((List.prefix_append _ _).trans h)
    rw [hencode hadmits, List.prefix_append_right_inj, List.cons_prefix_cons] at h
    refine ⟨hadmits, ?_⟩
    rw [h.1, UInt8.toNat_ofNat_of_lt' hlt]
  · rintro ⟨hadmits, hbyte⟩
    rw [hencode hadmits, List.prefix_append_right_inj, List.cons_prefix_cons, hbyte,
      UInt8.ofNat_toNat]
    exact ⟨rfl, List.nil_prefix⟩

/-- The last byte of a character. -/
theorem IsBeginning.utf8EncodeChar_eq_append (hp : p.IsBeginning) (hm : p.missing = 1)
    (hlow : p.low ≤ b.toNat) (hhigh : b.toNat ≤ p.high) :
    String.utf8EncodeChar (Char.ofNat (p.bits * 64 + (b.toNat - 0x80))) = p.bytes ++ [b] := by
  obtain ⟨hadmits, hbyte⟩ := (hp.div_eq_iff (m := 0) hm hlow hhigh).1 (Nat.div_one _)
  have hcode := toNat_ofNat_of_isValidChar (hp.isValidChar_of_admits _ hadmits)
  rw [← hcode] at hadmits
  rw [hp.encode_eq_of_admits _ hadmits, hm, encodedTail, encodedTail, hcode, hbyte,
    UInt8.ofNat_toNat]

/-- A byte in the middle of a character, behind which any six bits may come. -/
theorem IsBeginning.isBeginning_append (hp : p.IsBeginning) (hm : p.missing = m + 1 + 1)
    (hlow : p.low ≤ b.toNat) (hhigh : b.toNat ≤ p.high) :
    IsBeginning ⟨p.bytes ++ [b], p.bits * 64 + (b.toNat - 0x80), m + 1, 0x80, 0xBF⟩ := by
  -- Behind a further byte the bounds are those of any six bits, so they say nothing more.
  have hadmits_iff : ∀ code,
      Admits ⟨p.bytes ++ [b], p.bits * 64 + (b.toNat - 0x80), m + 1, 0x80, 0xBF⟩ code ↔
        p.Admits code ∧ 0x80 + code / 64 ^ (m + 1) % 64 = b.toNat := by
    intro code
    rw [← hp.div_eq_iff hm hlow hhigh]
    have hrest : 0x80 + code / 64 ^ m % 64 ≤ 0xBF := by omega
    exact ⟨fun h => h.bits_eq, fun h => ⟨h, Nat.le_add_right _ _, hrest⟩⟩
  refine ⟨by simp, Nat.succ_pos m, Nat.le_refl _, Nat.le_refl _, ?_, ?_, ?_, ?_⟩
  · have hpos : 0 < 64 ^ (m + 1) := Nat.pow_pos (by decide)
    have hdiv := Nat.mul_div_cancel (p.bits * 64 + (b.toNat - 0x80)) hpos
    exact ⟨_, (hadmits_iff _).2 ((hp.div_eq_iff hm hlow hhigh).1 hdiv)⟩
  · intro c hc
    exact (hadmits_iff _).2 ((hp.append_prefix_iff hm).1 hc)
  · intro code hcode
    exact hp.isValidChar_of_admits code ((hadmits_iff code).1 hcode).1
  · intro c hc
    obtain ⟨hadmits, hbyte⟩ := (hadmits_iff _).1 hc
    rw [hp.encode_eq_of_admits c hadmits, hm, encodedTail, hbyte, UInt8.ofNat_toNat,
      List.append_assoc, List.singleton_append]

end PartialChar

/-! ## Every byte is decided correctly -/

/-- What a byte behind some pending bytes comes to.  A byte is refused if no character begins
like that.  By itself it is then all there is to refuse, and behind other bytes it is left out. -/
inductive Takes (pending : List UInt8) (b : UInt8) : ByteOutcome → Prop
  | complete {c : Char} (h : String.utf8EncodeChar c = pending ++ [b]) :
      Takes pending b (.complete c)
  | incomplete {p : PartialChar} (hbytes : p.bytes = pending ++ [b]) (hp : p.IsBeginning) :
      Takes pending b (.incomplete p)
  | refused {bytes : List UInt8} (hnone : ∀ c, ¬ pending ++ [b] <+: String.utf8EncodeChar c)
      (hbytes : bytes = if pending = [] then [b] else pending) :
      Takes pending b (.refused bytes)

theorem takes_refused_of_first {b : UInt8}
    (h : 0x80 ≤ b.toNat ∧ b.toNat < 0xC2 ∨ 0xF4 < b.toNat) : Takes [] b (.refused [b]) := by
  refine .refused ?_ rfl
  intro c hc
  have hlead := singleton_prefix_utf8EncodeChar_iff.1 hc
  have hlt : c.toNat < 0x110000 := lt_of_isValidChar c.valid
  rcases leadByte_cases c.toNat with hcases | hcases | hcases | hcases <;> omega

theorem takes_complete_of_first {b : UInt8} (h : b.toNat < 0x80) :
    Takes [] b (.complete (Char.ofNat b.toNat)) := by
  have hcode : (Char.ofNat b.toNat).toNat = b.toNat :=
    toNat_ofNat_of_isValidChar (.inl (by omega))
  have hcases := leadByte_cases b.toNat
  have htail : tailLength b.toNat = 0 := if_pos h
  have hlead : leadByte b.toNat = b.toNat := by omega
  refine .complete ?_
  rw [utf8EncodeChar_eq, hcode, htail, hlead, UInt8.ofNat_toNat]
  rfl

/-- The first byte of a character is decided correctly. -/
theorem takes_firstByte (b : UInt8) : Takes [] b (firstByte b) := by
  unfold firstByte
  simp only
  -- In the order of the tests: one byte, no first byte, two bytes, three with the bounds of
  -- `0xE0`, of `0xED` and of neither, and four in the same manner.
  split
  · next hone => exact takes_complete_of_first hone
  split
  · exact takes_refused_of_first (.inl (by omega))
  split
  · exact .incomplete rfl (PartialChar.isBeginning_of_two (by omega) (by omega))
  split
  · next hfirst =>
    have hp := PartialChar.isBeginning_of_three (b := b) (by omega) (by omega) rfl rfl
    rw [hfirst] at hp
    exact .incomplete rfl hp
  split
  · next hsurrogates =>
    have hp := PartialChar.isBeginning_of_three (b := b) (by omega) (by omega) rfl rfl
    rw [hsurrogates] at hp
    exact .incomplete rfl hp
  split
  · exact .incomplete rfl (PartialChar.isBeginning_of_three (by omega) (by omega)
      (by rw [if_neg (by omega)]) (by rw [if_neg (by omega)]))
  split
  · next hfirst =>
    have hp := PartialChar.isBeginning_of_four (b := b) (by omega) (by omega) rfl rfl
    rw [hfirst] at hp
    exact .incomplete rfl hp
  split
  · exact .incomplete rfl (PartialChar.isBeginning_of_four (by omega) (by omega)
      (by rw [if_neg (by omega)]) (by rw [if_neg (by omega)]))
  split
  · next hlast =>
    have hp := PartialChar.isBeginning_of_four (b := b) (by omega) (by omega) rfl rfl
    rw [hlast] at hp
    exact .incomplete rfl hp
  · exact takes_refused_of_first (.inr (by omega))

/-- So are the others. -/
theorem PartialChar.IsBeginning.takes_nextByte {p : PartialChar} (hp : p.IsBeginning) (b : UInt8) :
    Takes p.bytes b (nextByte p b) := by
  obtain ⟨m, hm⟩ := hp.exists_missing_eq
  unfold nextByte
  simp only
  split
  · next hb =>
    obtain ⟨hlow, hhigh⟩ := hb
    cases m with
    | zero =>
      rw [if_pos (Nat.le_of_eq hm)]
      exact .complete (hp.utf8EncodeChar_eq_append hm hlow hhigh)
    | succ m =>
      rw [if_neg (by omega), hm, Nat.add_sub_cancel]
      exact .incomplete rfl (hp.isBeginning_append hm hlow hhigh)
  · next hb =>
    refine .refused ?_ (by rw [if_neg hp.ne_nil])
    intro c hc
    obtain ⟨hadmits, hbyte⟩ := (hp.append_prefix_iff hm).1 hc
    have hlow := hadmits.low_le
    have hhigh := hadmits.le_high
    rw [hm, Nat.add_sub_cancel, hbyte] at hlow hhigh
    exact hb ⟨hlow, hhigh⟩

/-! ## Texts as bytes -/

/-- No encoding is the beginning of another. -/
theorem utf8EncodeChar_prefix_inj {c c' : Char}
    (h : String.utf8EncodeChar c <+: String.utf8EncodeChar c') : c = c' := by
  obtain ⟨rest, hrest⟩ := h
  have hc : ((String.utf8EncodeChar c).toByteArray ++ rest.toByteArray).utf8DecodeChar? 0 =
      some c := ByteArray.utf8DecodeChar?_utf8EncodeChar_append
  have hc' : ((String.utf8EncodeChar c').toByteArray ++ [].toByteArray).utf8DecodeChar? 0 =
      some c' := ByteArray.utf8DecodeChar?_utf8EncodeChar_append
  rw [← hrest, ← List.toByteArray_append, List.append_nil, List.toByteArray_append, hc] at hc'
  exact Option.some.inj hc'

@[simp] theorem utf8Bytes_nil : utf8Bytes [] = [] := rfl

@[simp] theorem utf8Bytes_cons (c : Char) (text : List Char) :
    utf8Bytes (c :: text) = String.utf8EncodeChar c ++ utf8Bytes text := List.flatMap_cons

theorem utf8Bytes_append (text text' : List Char) :
    utf8Bytes (text ++ text') = utf8Bytes text ++ utf8Bytes text' := List.flatMap_append

/-- A text is read off its bytes in one way only: one that is encoded at the head of the bytes
of another, with something behind that is no character, is the beginning of the other. -/
theorem prefix_of_utf8Bytes_prefix {text text' : List Char} {rest : List UInt8}
    (hrest : ∀ c, ¬ String.utf8EncodeChar c <+: rest)
    (h : utf8Bytes text' <+: utf8Bytes text ++ rest) : text' <+: text := by
  induction text generalizing text' with
  | nil =>
    cases text' with
    | nil => exact List.nil_prefix
    | cons c' text' =>
      rw [utf8Bytes_cons, utf8Bytes_nil, List.nil_append] at h
      exact absurd ((List.prefix_append _ _).trans h) (hrest c')
  | cons c text ih =>
    cases text' with
    | nil => exact List.nil_prefix
    | cons c' text' =>
      rw [utf8Bytes_cons, utf8Bytes_cons, List.append_assoc] at h
      have hfirst : String.utf8EncodeChar c' <+: String.utf8EncodeChar c ∨
          String.utf8EncodeChar c <+: String.utf8EncodeChar c' :=
        List.prefix_or_prefix_of_prefix ((List.prefix_append _ _).trans h) (List.prefix_append _ _)
      -- No encoding is the beginning of another, so the first characters agree.
      obtain rfl : c' = c := by
        rcases hfirst with hfirst | hfirst
        · exact utf8EncodeChar_prefix_inj hfirst
        · exact (utf8EncodeChar_prefix_inj hfirst).symm
      rw [List.prefix_append_right_inj] at h
      exact List.cons_prefix_cons.2 ⟨rfl, ih h⟩

theorem utf8Bytes_injective {text text' : List Char} (h : utf8Bytes text = utf8Bytes text') :
    text = text' := by
  have hnone : ∀ c, ¬ String.utf8EncodeChar c <+: [] := by
    intro c hc
    exact utf8EncodeChar_ne_nil c (List.prefix_nil.1 hc)
  have hle : text <+: text' := prefix_of_utf8Bytes_prefix hnone (by simp [h])
  have hge : text' <+: text := prefix_of_utf8Bytes_prefix hnone (by simp [h])
  exact hle.eq_of_length_le hge.length_le

end SmallLisp
