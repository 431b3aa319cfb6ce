/-!
# UTF-8, one byte at a time

Bytes become characters through a machine whose only memory is the beginning of a character that
is not complete.  The well-formed sequences of UTF-8 are told by their first byte, which fixes
the number of bytes behind it and, for the second byte, which values it may have: the narrower
bounds there are what rules out overlong forms, surrogates, and everything beyond the last code
point.  So every beginning that the machine keeps can be completed to a character, and a byte is
refused as soon as nothing that begins like this is well-formed.

A refusal names the longest beginning that could still have been completed; a byte that can
begin nothing is refused by itself.
-/

namespace SmallLisp

/-- The beginning of a character: its bytes so far, the bits of the code point they carry, the
number of bytes missing, and the bounds for the next one. -/
structure PartialChar where
  bytes : List UInt8
  bits : Nat
  missing : Nat
  low : Nat
  high : Nat
  deriving DecidableEq, Repr

/-- What a byte makes of the bytes before it. -/
inductive ByteOutcome where
  | complete (c : Char)
  | incomplete (p : PartialChar)
  | refused (bytes : List UInt8)
  deriving Repr

/-- A byte at the beginning of a character. -/
def firstByte (b : UInt8) : ByteOutcome :=
  let n := b.toNat
  if n < 0x80 then .complete (Char.ofNat n)
  else if n < 0xC2 then .refused [b]
  else if n < 0xE0 then .incomplete ⟨[b], n - 0xC0, 1, 0x80, 0xBF⟩
  else if n = 0xE0 then .incomplete ⟨[b], 0, 2, 0xA0, 0xBF⟩
  else if n = 0xED then .incomplete ⟨[b], 0xD, 2, 0x80, 0x9F⟩
  else if n < 0xF0 then .incomplete ⟨[b], n - 0xE0, 2, 0x80, 0xBF⟩
  else if n = 0xF0 then .incomplete ⟨[b], 0, 3, 0x90, 0xBF⟩
  else if n < 0xF4 then .incomplete ⟨[b], n - 0xF0, 3, 0x80, 0xBF⟩
  else if n = 0xF4 then .incomplete ⟨[b], 4, 3, 0x80, 0x8F⟩
  else .refused [b]

/-- A byte behind the beginning of a character.  If it does not fit, what is refused are the
bytes before it. -/
def nextByte (p : PartialChar) (b : UInt8) : ByteOutcome :=
  let n := b.toNat
  if p.low ≤ n ∧ n ≤ p.high then
    let bits := p.bits * 64 + (n - 0x80)
    if p.missing ≤ 1 then .complete (Char.ofNat bits)
    else .incomplete ⟨p.bytes ++ [b], bits, p.missing - 1, 0x80, 0xBF⟩
  else .refused p.bytes

/-- A byte behind the bytes of a character that are already there, if any. -/
def takeByte (pending : Option PartialChar) (b : UInt8) : ByteOutcome :=
  match pending with
  | none => firstByte b
  | some p => nextByte p b

end SmallLisp
