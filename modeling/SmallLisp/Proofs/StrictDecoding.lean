import SmallLisp.Proofs.Encoding
import SmallLisp.Proofs.Portions

/-!
# Strict decoding is exact

A source decodes to a text exactly if its bytes are the encoding of that text.  If they are not the
encoding of any, then the characters that are decoded are those of the longest text whose encoding
the bytes begin with, each at its place, and the error is behind them: it stands where the next
character would, and it names the bytes that a strict decoder has to refuse there (`IsRefusal`).

Everything is proved along the bytes, for the decoder alone.  Between two of them it is behind the
text decoded so far, and has pending the beginning of a character (`StrictDecoder.feed_cases`); what
that is worth is said by `Takes`, one byte at a time.  The places come from the loop over its
answers, which is the same for any decoder.
-/

namespace SmallLisp

/-! ## What has to be refused -/

/-- Whether some character begins with these bytes. -/
def BeginsCharacter (bytes : List UInt8) : Prop := ∃ c, bytes <+: String.utf8EncodeChar c

/-- **What a strict decoder refuses** at the head of some bytes, with what is behind: the longest
beginning of a character that is there, which is not all of one; or one byte, if no character
begins with it. -/
structure IsRefusal (refused behind : List UInt8) : Prop where
  ne_nil : refused ≠ []
  length_le : refused.length ≤ 3
  begins_or_single : BeginsCharacter refused ∨ refused.length = 1
  longest : ∀ longer, longer <+: refused ++ behind → BeginsCharacter longer → longer <+: refused
  no_character : ∀ c, ¬ String.utf8EncodeChar c <+: refused ++ behind

/-- What begins an append either ends in the first part or has a byte of the second. -/
theorem prefix_append_cases {front behind longer : List UInt8} (h : longer <+: front ++ behind) :
    longer <+: front ∨ ∃ b, behind.head? = some b ∧ front ++ [b] <+: longer := by
  rcases List.prefix_or_prefix_of_prefix h (List.prefix_append front behind) with
    hle | ⟨rest, rfl⟩
  · exact .inl hle
  · rw [List.prefix_append_right_inj] at h
    obtain _ | ⟨b, rest⟩ := rest
    · exact .inl (by simp)
    · obtain ⟨later, rfl⟩ := h
      refine .inr ⟨b, rfl, ?_⟩
      rw [List.prefix_append_right_inj]
      exact List.cons_prefix_cons.2 ⟨rfl, List.nil_prefix⟩

/-- The beginning of a character is refused if no character goes on with the next byte, and so it
is at the end of the bytes. -/
theorem PartialChar.IsBeginning.isRefusal {p : PartialChar} (hp : p.IsBeginning)
    {behind : List UInt8}
    (hnone : ∀ b, behind.head? = some b → ∀ c, ¬ p.bytes ++ [b] <+: String.utf8EncodeChar c) :
    IsRefusal p.bytes behind := by
  obtain ⟨c, n, hc⟩ := hp.exists_utf8EncodeChar_eq
  have hbegins : p.bytes <+: String.utf8EncodeChar c := by
    rw [hc]
    exact List.prefix_append _ _
  have hlength : p.bytes.length + (n + 1) = (String.utf8EncodeChar c).length := by
    rw [hc, List.length_append, length_encodedTail]
  refine ⟨hp.ne_nil, ?_, .inl ⟨c, hbegins⟩, ?_, ?_⟩
  · have hsize := c.utf8Size_le_four
    rw [← String.length_utf8EncodeChar] at hsize
    omega
  -- A longer beginning would go on with the next byte, which no character does.
  · rintro longer hlonger ⟨c', hc'⟩
    rcases prefix_append_cases hlonger with hle | ⟨b, hb, hge⟩
    · exact hle
    · exact absurd (hge.trans hc') (hnone b hb c')
  · intro c' hc'
    rcases prefix_append_cases hc' with hle | ⟨b, hb, hge⟩
    · obtain rfl := utf8EncodeChar_prefix_inj (hle.trans hbegins)
      have hshort := hle.length_le
      omega
    · exact hnone b hb c' hge

/-- A byte that no character begins with is refused by itself. -/
theorem isRefusal_singleton {b : UInt8} (hnone : ∀ c, ¬ [b] <+: String.utf8EncodeChar c)
    (behind : List UInt8) : IsRefusal [b] behind := by
  -- The byte begins no character, so only the empty beginning is one.
  have hnil : ∀ longer, longer <+: [b] ++ behind → BeginsCharacter longer → longer = [] := by
    rintro longer hlonger ⟨c, hc⟩
    obtain _ | ⟨first, longer⟩ := longer
    · rfl
    · obtain ⟨rfl, -⟩ := List.cons_prefix_cons.1 hlonger
      have hfirst : [first] <+: first :: longer :=
        List.cons_prefix_cons.2 ⟨rfl, List.nil_prefix⟩
      exact absurd (hfirst.trans hc) (hnone c)
  refine ⟨List.cons_ne_nil _ _, Nat.le_add_left 1 2, .inr rfl, ?_, ?_⟩
  · intro longer hlonger hbegins
    rw [hnil longer hlonger hbegins]
    exact List.nil_prefix
  · intro c hc
    exact utf8EncodeChar_ne_nil c (hnil _ hc ⟨c, List.prefix_refl _⟩)

/-- Bytes that are refused behind a text are not in the encoding of any. -/
theorem IsRefusal.utf8Bytes_ne {refused behind : List UInt8} (h : IsRefusal refused behind)
    (text text' : List Char) : utf8Bytes text' ≠ utf8Bytes text ++ (refused ++ behind) := by
  intro heq
  obtain ⟨more, rfl⟩ : text' <+: text :=
    prefix_of_utf8Bytes_prefix h.no_character (by simp [heq])
  rw [utf8Bytes_append, List.append_assoc, List.self_eq_append_right] at heq
  exact h.ne_nil (List.append_eq_nil_iff.1 (List.append_eq_nil_iff.1 heq).2).1

namespace StrictDecoder

/-! ## Along the bytes -/

/-- The bytes of the character that is not complete. -/
def pendingBytes : Option PartialChar → List UInt8
  | none => []
  | some p => p.bytes

/-- What is pending is the beginning of a character. -/
def IsSound (pending : Option PartialChar) : Prop := ∀ p ∈ pending, p.IsBeginning

theorem isSound_none : IsSound none := by
  simp [IsSound]

theorem isSound_some {p : PartialChar} (h : p.IsBeginning) : IsSound (some p) := by
  rintro _ ⟨⟩
  exact h

variable {pending : Option PartialChar}

theorem IsSound.takes (hsound : IsSound pending) (b : UInt8) :
    Takes (pendingBytes pending) b (takeByte pending b) := by
  cases pending with
  | none => exact takes_firstByte b
  | some p => exact (hsound p rfl).takes_nextByte b

theorem IsSound.exists_isRefusal (hsound : IsSound pending) {b : UInt8} {refused : List UInt8}
    (hnone : ∀ c, ¬ pendingBytes pending ++ [b] <+: String.utf8EncodeChar c)
    (hrefused : refused = if pendingBytes pending = [] then [b] else pendingBytes pending)
    (bytes : List UInt8) :
    ∃ behind, pendingBytes pending ++ b :: bytes = refused ++ behind ∧
      IsRefusal refused behind := by
  cases pending with
  | none =>
    subst hrefused
    exact ⟨bytes, rfl, isRefusal_singleton hnone bytes⟩
  | some p =>
    have hp := hsound p rfl
    -- What is refused is what is pending; the byte behind it is looked at again.
    have hne : pendingBytes (some p) ≠ [] := hp.ne_nil
    rw [if_neg hne] at hrefused
    subst hrefused
    refine ⟨b :: bytes, rfl, hp.isRefusal ?_⟩
    rintro _ ⟨⟩
    exact hnone

/-- What going through some bytes comes to: a text is read off them, behind what was pending.
Then either the beginning of a character is left over, or something has to be refused.  The
induction is on the bytes; a character that is complete leaves nothing pending. -/
theorem feed_cases (hsound : IsSound pending) (bytes : List UInt8) :
    (∃ text pending', feed pending bytes = (text, .ok pending') ∧ IsSound pending' ∧
        pendingBytes pending ++ bytes = utf8Bytes text ++ pendingBytes pending') ∨
      ∃ text refused behind, feed pending bytes = (text, .error refused) ∧
        pendingBytes pending ++ bytes = utf8Bytes text ++ (refused ++ behind) ∧
        IsRefusal refused behind := by
  induction bytes generalizing pending with
  | nil => exact .inl ⟨[], pending, rfl, hsound, List.append_nil _⟩
  | cons b bytes ih =>
    have htakes := hsound.takes b
    rw [feed]
    generalize takeByte pending b = outcome at htakes
    cases htakes with
    | @complete c hc =>
      have hbytes : ∀ text rest, bytes = utf8Bytes text ++ rest →
          pendingBytes pending ++ b :: bytes = utf8Bytes (c :: text) ++ rest := by
        rintro text rest rfl
        rw [List.append_cons, ← hc, utf8Bytes_cons, List.append_assoc]
      rcases ih isSound_none with
        ⟨text, pending', hfeed, hsound', heq⟩ | ⟨text, refused, behind, hfeed, heq, hrefusal⟩
      · exact .inl ⟨c :: text, pending', by simp [hfeed], hsound', hbytes _ _ heq⟩
      · exact .inr ⟨c :: text, refused, behind, by simp [hfeed], hbytes _ _ heq, hrefusal⟩
    | @incomplete p hbytes hp =>
      rw [List.append_cons, ← hbytes]
      exact ih (isSound_some hp)
    | @refused refused hnone hrefused =>
      obtain ⟨behind, hbehind, hrefusal⟩ := hsound.exists_isRefusal hnone hrefused bytes
      exact .inr ⟨[], refused, behind, rfl, hbehind, hrefusal⟩

end StrictDecoder

/-! ## What is delivered -/

/-- The bytes that are delivered without a failure, up to the first portion that is empty. -/
inductive Delivers : List Delivery → List UInt8 → Prop
  | nil : Delivers [] []
  | stop (later : List Delivery) : Delivers (.bytes [] :: later) []
  | portion {portion bytes : List UInt8} {later : List Delivery} (hne : portion ≠ [])
      (hlater : Delivers later bytes) : Delivers (.bytes portion :: later) (portion ++ bytes)

namespace Delivers

variable {deliveries : List Delivery} {bytes : List UInt8}

/-- All bytes in one portion, which is empty if there are none. -/
theorem whole (bytes : List UInt8) : Delivers [.bytes bytes] bytes := by
  obtain _ | ⟨b, bytes⟩ := bytes
  · exact .stop []
  · simpa using Delivers.portion (List.cons_ne_nil b bytes) .nil

theorem run_eq (h : Delivers deliveries bytes) (pending : Option PartialChar) :
    StrictDecoder.run pending deliveries =
      StrictDecoder.continueWith StrictDecoder.atEndOfInput (StrictDecoder.feed pending bytes) := by
  induction h generalizing pending with
  | nil => rfl
  | stop later => rfl
  | @portion portion bytes later hne hlater ih =>
    have hlater : (fun pending' => StrictDecoder.run pending' later) = fun pending' =>
        StrictDecoder.continueWith StrictDecoder.atEndOfInput (StrictDecoder.feed pending' bytes) :=
      funext ih
    rw [StrictDecoder.run_bytes pending hne, hlater, StrictDecoder.feed_append]

/-- Either the bytes are the encoding of a text, which is decoded, or something is refused behind
one. -/
theorem decoded_cases (h : Delivers deliveries bytes) :
    (∃ text, bytes = utf8Bytes text ∧
        Decoded.ofDeliveries deliveries = ⟨Position.start.placed text, none⟩) ∨
      ∃ text refused behind, bytes = utf8Bytes text ++ (refused ++ behind) ∧
        IsRefusal refused behind ∧
        Decoded.ofDeliveries deliveries = ⟨Position.start.placed text,
          some ⟨.invalidUtf8 refused, Position.start.afterAll text⟩⟩ := by
  rw [Decoded.ofDeliveries_eq, h.run_eq]
  rcases StrictDecoder.feed_cases StrictDecoder.isSound_none bytes with
    ⟨text, pending, hfeed, hsound, hbytes⟩ | ⟨text, refused, behind, hfeed, hbytes, hrefusal⟩
  · change bytes = _ at hbytes
    have hyield : StrictDecoder.continueWith StrictDecoder.atEndOfInput (text, .ok pending) =
        (StrictDecoder.atEndOfInput pending).behind text := rfl
    rw [hfeed, hyield]
    cases pending with
    | none =>
      rw [StrictDecoder.pendingBytes, List.append_nil] at hbytes
      refine .inl ⟨text, hbytes, ?_⟩
      simp [Decoded.ofYield, StrictDecoder.Yield.behind, StrictDecoder.atEndOfInput_eq]
    | some p =>
      -- What is left over at the end is the beginning of a character, and nothing follows it.
      have hrefusal : IsRefusal p.bytes [] := (hsound p rfl).isRefusal (by simp)
      rw [StrictDecoder.pendingBytes] at hbytes
      refine .inr ⟨text, p.bytes, [], by rwa [List.append_nil], hrefusal, ?_⟩
      simp [Decoded.ofYield, StrictDecoder.Yield.behind, StrictDecoder.atEndOfInput_eq,
        DecodeError.ofFault]
  · rw [hfeed]
    exact .inr ⟨text, refused, behind, hbytes, hrefusal, rfl⟩

/-- The encoding of a text is decoded. -/
theorem ofDeliveries_eq {text : List Char} (h : Delivers deliveries (utf8Bytes text)) :
    Decoded.ofDeliveries deliveries = ⟨Position.start.placed text, none⟩ := by
  rcases h.decoded_cases with ⟨text', htext, hdecoded⟩ | ⟨text', refused, behind, htext, hrefusal, -⟩
  · rw [hdecoded, utf8Bytes_injective htext]
  · exact absurd htext (hrefusal.utf8Bytes_ne text' text)

theorem decodeText_eq_ok_iff (h : Delivers deliveries bytes) (s : String) :
    decodeText deliveries = .ok s ↔ utf8Bytes s.toList = bytes := by
  constructor
  · intro hs
    rcases h.decoded_cases with ⟨text, rfl, hdecoded⟩ | ⟨text, refused, behind, -, -, hdecoded⟩
    · rw [decodeText, hdecoded] at hs
      simp only [Position.map_value_placed, Except.ok.injEq] at hs
      rw [← hs, String.toList_ofList]
    · rw [decodeText, hdecoded] at hs
      cases hs
  · rintro rfl
    rw [decodeText, h.ofDeliveries_eq]
    simp only [Position.map_value_placed, String.ofList_toList]

/-- What is no encoding of a text is refused behind the longest text that there is. -/
theorem exists_isRefusal (h : Delivers deliveries bytes)
    (hnone : ∀ s : String, utf8Bytes s.toList ≠ bytes) :
    ∃ text refused behind, bytes = utf8Bytes text ++ (refused ++ behind) ∧
      IsRefusal refused behind ∧ (∀ text', utf8Bytes text' <+: bytes → text' <+: text) ∧
      Decoded.ofDeliveries deliveries = ⟨Position.start.placed text,
        some ⟨.invalidUtf8 refused, Position.start.afterAll text⟩⟩ := by
  rcases h.decoded_cases with ⟨text, rfl, -⟩ | ⟨text, refused, behind, rfl, hrefusal, hdecoded⟩
  · exact absurd (by rw [String.toList_ofList]) (hnone (String.ofList text))
  · exact ⟨text, refused, behind, rfl, hrefusal,
      fun text' => prefix_of_utf8Bytes_prefix hrefusal.no_character, hdecoded⟩

end Delivers

/-- **Decoding is strict and exact.**  Let some bytes be delivered without a failure.

They decode to a text exactly if they are its encoding, and then to its characters at their places.

If they are the encoding of no text, then what is decoded are the characters, at their places, of
the longest text that is encoded at their head, and behind these the one error: it names the bytes
that have to be refused there, and its position is that behind the last character. -/
theorem ofDeliveries_exact {deliveries : List Delivery} {bytes : List UInt8}
    (h : Delivers deliveries bytes) :
    (∀ s : String, decodeText deliveries = .ok s ↔ utf8Bytes s.toList = bytes) ∧
      (∀ text, utf8Bytes text = bytes →
        Decoded.ofDeliveries deliveries = ⟨Position.start.placed text, none⟩) ∧
      ((∀ s : String, utf8Bytes s.toList ≠ bytes) →
        ∃ text refused behind, bytes = utf8Bytes text ++ (refused ++ behind) ∧
          IsRefusal refused behind ∧ (∀ text', utf8Bytes text' <+: bytes → text' <+: text) ∧
          Decoded.ofDeliveries deliveries = ⟨Position.start.placed text,
            some ⟨.invalidUtf8 refused, Position.start.afterAll text⟩⟩) := by
  refine ⟨h.decodeText_eq_ok_iff, ?_, h.exists_isRefusal⟩
  rintro text rfl
  exact h.ofDeliveries_eq

/-- A text with a line break and a character of two bytes, delivered up to an empty portion; and the
same with a character of three bytes that breaks off, in front of a byte that could begin one. -/
theorem ofDeliveries_exact_cut :
    decodeText [.bytes [0x0A, 0xC3], .bytes [0xA9], .bytes [], .failure "late"] = .ok "\né" ∧
      ∃ text refused behind, [0x0A, 0xC3, 0xA9, 0xE2, 0x82, 0x28] =
          utf8Bytes text ++ (refused ++ behind) ∧ IsRefusal refused behind ∧
        Position.start.afterAll text = ⟨1, 1⟩ ∧ refused = [0xE2, 0x82] := by
  have hwhole : Delivers [.bytes [0x0A, 0xC3], .bytes [0xA9], .bytes [], .failure "late"]
      [0x0A, 0xC3, 0xA9] :=
    .portion (by decide) (.portion (by decide) (.stop _))
  have hbroken : Delivers [.bytes [0x0A, 0xC3, 0xA9, 0xE2], .bytes [0x82, 0x28]]
      [0x0A, 0xC3, 0xA9, 0xE2, 0x82, 0x28] :=
    .portion (by decide) (.portion (by decide) .nil)
  have herror : (Decoded.ofDeliveries [.bytes [0x0A, 0xC3, 0xA9, 0xE2], .bytes [0x82, 0x28]]).error =
      some ⟨.invalidUtf8 [0xE2, 0x82], ⟨1, 1⟩⟩ := by decide +kernel
  have hnone : ∀ s : String, utf8Bytes s.toList ≠ [0x0A, 0xC3, 0xA9, 0xE2, 0x82, 0x28] := by
    intro s hs
    have hok := ((ofDeliveries_exact hbroken).1 s).2 hs
    simp only [decodeText, herror] at hok
    cases hok
  obtain ⟨text, refused, behind, hbytes, hrefusal, -, hdecoded⟩ :=
    (ofDeliveries_exact hbroken).2.2 hnone
  rw [hdecoded, Option.some.injEq, Positioned.mk.injEq, DecodeError.invalidUtf8.injEq] at herror
  exact ⟨((ofDeliveries_exact hwhole).1 _).2 (by decide), text, refused, behind, hbytes, hrefusal,
    herror.2, herror.1⟩

end SmallLisp
