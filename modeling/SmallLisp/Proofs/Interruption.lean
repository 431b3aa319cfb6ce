import SmallLisp.Proofs.StrictDecoding

/-!
# Where a source ends

A source may end in several ways: it has delivered all it has, it delivers a portion without bytes,
or it fails.  All that decoding makes of it depends on the bytes in front of the first end and on
what kind of end that is (`StrictDecoder.run_eq_continueWith`).

An end that is no failure finds fault with a character that it cuts off.  A failure does not, since
the character could have been completed.  What nothing could have repaired, on the other hand, is
refused before the failure is met.  So the bytes in front of a failure decide whether it is
reported: it is unless no encoding of a text begins with them (`IsHopeless`).
-/

namespace SmallLisp

/-! ## The first end -/

namespace Delivery

/-- Whether nothing behind a delivery is looked at: it is a portion without bytes, or a failure. -/
def isEnd : Delivery → Bool
  | bytes [] => true
  | bytes (_ :: _) => false
  | failure _ => true

/-- The bytes of a delivery. -/
def contents : Delivery → List UInt8
  | bytes portion => portion
  | failure _ => []

end Delivery

/-- The first end among some deliveries. -/
def firstEnd (deliveries : List Delivery) : Option Delivery := deliveries.find? Delivery.isEnd

/-- The deliveries through the first end, which is the last of them. -/
def throughEnd : List Delivery → List Delivery
  | [] => []
  | delivery :: later =>
    if delivery.isEnd then [delivery] else delivery :: throughEnd later

/-- The bytes that are delivered in front of the first end. -/
def bytesBeforeEnd (deliveries : List Delivery) : List UInt8 :=
  (deliveries.takeWhile fun delivery => !delivery.isEnd).flatMap Delivery.contents

theorem firstEnd_throughEnd (deliveries : List Delivery) :
    firstEnd (throughEnd deliveries) = firstEnd deliveries := by
  induction deliveries with
  | nil => rfl
  | cons delivery later ih =>
    unfold firstEnd at ih ⊢
    by_cases hend : delivery.isEnd
    · simp [throughEnd, hend]
    · simp [throughEnd, hend, ih]

theorem bytesBeforeEnd_throughEnd (deliveries : List Delivery) :
    bytesBeforeEnd (throughEnd deliveries) = bytesBeforeEnd deliveries := by
  induction deliveries with
  | nil => rfl
  | cons delivery later ih =>
    unfold bytesBeforeEnd at ih ⊢
    by_cases hend : delivery.isEnd
    · simp [throughEnd, hend]
    · simp [throughEnd, hend, ih]

theorem bytesBeforeEnd_whole (bytes : List UInt8) : bytesBeforeEnd [.bytes bytes] = bytes := by
  cases bytes with
  | nil => rfl
  | cons b bytes => simp [bytesBeforeEnd, Delivery.isEnd, Delivery.contents]

theorem firstEnd_whole_ne_failure (bytes : List UInt8) (message : String) :
    firstEnd [.bytes bytes] ≠ some (.failure message) := by
  cases bytes <;> simp [firstEnd, Delivery.isEnd]

namespace StrictDecoder

/-- What a decoder says to the first end: it reports a failure, and takes any other end as the end
of the input. -/
def atEnd : Option Delivery → Option PartialChar → Yield
  | some (.failure message), _ => ⟨[], some (.failure message)⟩
  | _, pending => atEndOfInput pending

theorem atEnd_of_ne_failure {last : Option Delivery}
    (h : ∀ message, last ≠ some (.failure message)) : atEnd last = atEndOfInput := by
  funext pending
  rw [atEnd]
  exact fun message => h message

/-- Decoding depends on the bytes in front of the first end, and on that end. -/
theorem run_eq_continueWith (pending : Option PartialChar) (deliveries : List Delivery) :
    run pending deliveries =
      continueWith (atEnd (firstEnd deliveries)) (feed pending (bytesBeforeEnd deliveries)) := by
  induction deliveries generalizing pending with
  | nil => rfl
  | cons delivery later ih =>
    cases delivery with
    | failure message => rfl
    | bytes portion =>
      cases portion with
      | nil => rfl
      | cons b bs =>
        rw [run_bytes pending (List.cons_ne_nil b bs), funext ih]
        exact (feed_append pending (b :: bs) (bytesBeforeEnd later) (atEnd (firstEnd later))).symm

end StrictDecoder

/-! ## What cannot be told apart -/

/-- Sources that are not told apart: they have the same characters at the same places and the
same error, the same text, and the same program in each dialect. -/
structure SameReading (deliveries deliveries' : List Delivery) : Prop where
  decoded : Decoded.ofDeliveries deliveries = Decoded.ofDeliveries deliveries'
  text : decodeText deliveries = decodeText deliveries'
  program : ∀ d, readDelivered d deliveries = readDelivered d deliveries'

theorem sameReading_of_decoded {deliveries deliveries' : List Delivery}
    (h : Decoded.ofDeliveries deliveries = Decoded.ofDeliveries deliveries') :
    SameReading deliveries deliveries' := by
  have htext : decodeText deliveries = decodeText deliveries' := by rw [decodeText, decodeText, h]
  refine ⟨h, htext, fun d => ?_⟩
  rw [readDelivered, readDelivered, htext]

theorem sameReading_of_throughEnd {deliveries deliveries' : List Delivery}
    (h : throughEnd deliveries' = throughEnd deliveries) : SameReading deliveries deliveries' := by
  apply sameReading_of_decoded
  rw [Decoded.ofDeliveries_eq, Decoded.ofDeliveries_eq, StrictDecoder.run_eq_continueWith,
    StrictDecoder.run_eq_continueWith, ← firstEnd_throughEnd, ← bytesBeforeEnd_throughEnd, ← h,
    firstEnd_throughEnd, bytesBeforeEnd_throughEnd]

/-! ## What is hopeless -/

/-- **Bytes that nothing behind them can make the encoding of a text.** -/
def IsHopeless (bytes : List UInt8) : Prop := ∀ text, ¬ bytes <+: utf8Bytes text

namespace StrictDecoder

variable {pending : Option PartialChar}

theorem IsSound.beginsCharacter (hsound : IsSound pending) :
    BeginsCharacter (pendingBytes pending) := by
  cases pending with
  | none => exact ⟨'a', List.nil_prefix⟩
  | some p =>
    obtain ⟨c, n, hc⟩ := (hsound p rfl).exists_utf8EncodeChar_eq
    exact ⟨c, hc ▸ List.prefix_append _ _⟩

theorem IsSound.no_character (hsound : IsSound pending) (c : Char) :
    ¬ String.utf8EncodeChar c <+: pendingBytes pending := by
  cases pending with
  | none =>
    intro hc
    exact utf8EncodeChar_ne_nil c (List.prefix_nil.1 hc)
  | some p =>
    have hrefusal : IsRefusal p.bytes [] := (hsound p rfl).isRefusal (by simp)
    simpa [pendingBytes] using hrefusal.no_character c

/-- What has been refused stays refused, whatever is behind it. -/
theorem isHopeless_of_feed_eq_error {bytes refused : List UInt8} {text : List Char}
    (h : feed none bytes = (text, .error refused)) : IsHopeless bytes := by
  rintro longer ⟨more, hmore⟩
  have hall := feed_append none bytes more fun _ => ⟨[], none⟩
  rw [h, hmore] at hall
  -- The encoding of a text is gone through without a fault, but the fault in front is still there.
  rcases feed_cases isSound_none (utf8Bytes longer) with
    ⟨text', pending, hfeed, -⟩ | ⟨text', refused', behind, -, hbytes, hrefusal⟩
  · rw [hfeed] at hall
    cases hall
  · exact hrefusal.utf8Bytes_ne text' longer hbytes

/-- The beginning of a character may yet become one. -/
theorem not_isHopeless (hsound : IsSound pending) (text : List Char) :
    ¬ IsHopeless (utf8Bytes text ++ pendingBytes pending) := by
  obtain ⟨c, hc⟩ := hsound.beginsCharacter
  refine fun h => h (text ++ [c]) ?_
  rw [utf8Bytes_append, List.prefix_append_right_inj]
  simpa using hc

end StrictDecoder

/-! ## Failures -/

section

variable {deliveries : List Delivery}

/-- Where there is no failure, all that counts is the bytes. -/
theorem sameReading_whole (h : ∀ message, firstEnd deliveries ≠ some (.failure message)) :
    SameReading deliveries [.bytes (bytesBeforeEnd deliveries)] := by
  apply sameReading_of_decoded
  rw [Decoded.ofDeliveries_eq, Decoded.ofDeliveries_eq, StrictDecoder.run_eq_continueWith,
    StrictDecoder.run_eq_continueWith, StrictDecoder.atEnd_of_ne_failure h,
    StrictDecoder.atEnd_of_ne_failure (firstEnd_whole_ne_failure _), bytesBeforeEnd_whole]

/-- A failure behind hopeless bytes is never met. -/
theorem sameReading_whole_of_isHopeless (h : IsHopeless (bytesBeforeEnd deliveries)) :
    SameReading deliveries [.bytes (bytesBeforeEnd deliveries)] ∧
      ∃ text refused behind,
        bytesBeforeEnd deliveries = utf8Bytes text ++ (refused ++ behind) ∧
        IsRefusal refused behind ∧
        Decoded.ofDeliveries deliveries = ⟨Position.start.placed text,
          some ⟨.invalidUtf8 refused, Position.start.afterAll text⟩⟩ := by
  have hrun := StrictDecoder.run_eq_continueWith none deliveries
  have hwhole := StrictDecoder.run_eq_continueWith none [.bytes (bytesBeforeEnd deliveries)]
  rw [bytesBeforeEnd_whole] at hwhole
  rcases StrictDecoder.feed_cases StrictDecoder.isSound_none (bytesBeforeEnd deliveries) with
    ⟨text, pending, -, hsound, hbytes⟩ | ⟨text, refused, behind, hfeed, hbytes, hrefusal⟩
  · refine absurd ?_ (StrictDecoder.not_isHopeless hsound text)
    rwa [← hbytes]
  · -- Both sources stop at the fault, so neither gets to its end.
    rw [hfeed, StrictDecoder.continueWith] at hrun hwhole
    refine ⟨sameReading_of_decoded ?_, text, refused, behind, hbytes, hrefusal, ?_⟩
    · rw [Decoded.ofDeliveries_eq, Decoded.ofDeliveries_eq, hrun, hwhole]
    · rw [Decoded.ofDeliveries_eq, hrun]
      rfl

/-- Behind bytes that are not hopeless, a failure is reported behind the characters that are
complete. -/
theorem ofDeliveries_failure {message : String}
    (hend : firstEnd deliveries = some (.failure message))
    (h : ¬ IsHopeless (bytesBeforeEnd deliveries)) :
    ∃ text dropped, bytesBeforeEnd deliveries = utf8Bytes text ++ dropped ∧
      BeginsCharacter dropped ∧
      (∀ text', utf8Bytes text' <+: bytesBeforeEnd deliveries → text' <+: text) ∧
      Decoded.ofDeliveries deliveries = ⟨Position.start.placed text,
        some ⟨.io message, Position.start.afterAll text⟩⟩ := by
  have hrun := StrictDecoder.run_eq_continueWith none deliveries
  rcases StrictDecoder.feed_cases StrictDecoder.isSound_none (bytesBeforeEnd deliveries) with
    ⟨text, pending, hfeed, hsound, hbytes⟩ | ⟨text, refused, behind, hfeed, -, -⟩
  · change bytesBeforeEnd deliveries = _ at hbytes
    refine ⟨text, StrictDecoder.pendingBytes pending, hbytes, hsound.beginsCharacter, ?_, ?_⟩
    · intro text' htext'
      rw [hbytes] at htext'
      exact prefix_of_utf8Bytes_prefix hsound.no_character htext'
    -- The bytes pending are dropped, and the failure stands where their character would have
    -- stood.
    · rw [Decoded.ofDeliveries_eq, hrun, hfeed, hend]
      simp [StrictDecoder.continueWith, StrictDecoder.atEnd, StrictDecoder.Yield.behind,
        Decoded.ofYield, DecodeError.ofFault]
  · exact absurd (StrictDecoder.isHopeless_of_feed_eq_error hfeed) h

end

/-! ## Item by item -/

/-- What a source hands on, one after the other: the characters, and an error behind them. -/
def Decoded.items (decoded : Decoded) :
    List (Except (Positioned DecodeError) (Positioned Char)) :=
  decoded.chars.map .ok ++ decoded.error.toList.map .error

/-- Nothing is behind an error. -/
theorem Decoded.eq_nil_of_items_eq {decoded : Decoded} {error : Positioned DecodeError}
    {front behind : List (Except (Positioned DecodeError) (Positioned Char))}
    (h : decoded.items = front ++ .error error :: behind) :
    behind = [] ∧ decoded.error = some error := by
  obtain ⟨chars, last⟩ := decoded
  have hchars : ∀ rest, chars.map Except.ok ≠ front ++ .error error :: rest := by
    intro rest hrest
    have hmem : Except.error error ∈ chars.map Except.ok := by simp [hrest]
    obtain ⟨c, -, hc⟩ := List.mem_map.1 hmem
    cases hc
  cases last with
  | none => exact absurd (by simpa [items] using h) (hchars behind)
  | some last =>
    change chars.map Except.ok ++ [Except.error last] = front ++ .error error :: behind at h
    rcases List.eq_nil_or_concat behind with rfl | ⟨later, item, rfl⟩
    · obtain ⟨-, hlast⟩ := List.append_inj' h rfl
      cases hlast
      exact ⟨rfl, rfl⟩
    · rw [List.concat_eq_append, ← List.cons_append, ← List.append_assoc] at h
      exact absurd (List.append_inj' h rfl).1 (hchars later)

theorem readDelivered_of_error {deliveries : List Delivery} {error : Positioned DecodeError}
    (h : (Decoded.ofDeliveries deliveries).error = some error) :
    decodeText deliveries = .error error ∧
      ∀ d, readDelivered d deliveries = .error (error.map .decoding) := by
  have htext : decodeText deliveries = .error error := by
    rw [decodeText]
    simp only [h]
  refine ⟨htext, fun d => ?_⟩
  rw [readDelivered, htext]

/-- **An end takes effect where it stands.**  What comes of a source depends on its deliveries
through the first end.  If that is no failure, then what counts is the bytes in front of it.

A failure behind hopeless bytes is not met: what is refused among them is reported.  Behind bytes
that are not hopeless it is reported, at the place behind the last character of the longest text
that is encoded there, and the beginning of a further character is dropped.

Nothing is handed on behind an error, and with an error there is neither a text nor a program. -/
theorem ofDeliveries_firstEnd (deliveries : List Delivery) :
    (∀ deliveries', throughEnd deliveries' = throughEnd deliveries →
        SameReading deliveries deliveries') ∧
      ((∀ message, firstEnd deliveries ≠ some (.failure message)) →
        SameReading deliveries [.bytes (bytesBeforeEnd deliveries)]) ∧
      (∀ message, firstEnd deliveries = some (.failure message) →
        (IsHopeless (bytesBeforeEnd deliveries) →
          SameReading deliveries [.bytes (bytesBeforeEnd deliveries)] ∧
            ∃ text refused behind,
              bytesBeforeEnd deliveries = utf8Bytes text ++ (refused ++ behind) ∧
              IsRefusal refused behind ∧
              Decoded.ofDeliveries deliveries = ⟨Position.start.placed text,
                some ⟨.invalidUtf8 refused, Position.start.afterAll text⟩⟩) ∧
        (¬ IsHopeless (bytesBeforeEnd deliveries) →
          ∃ text dropped, bytesBeforeEnd deliveries = utf8Bytes text ++ dropped ∧
            BeginsCharacter dropped ∧
            (∀ text', utf8Bytes text' <+: bytesBeforeEnd deliveries → text' <+: text) ∧
            Decoded.ofDeliveries deliveries = ⟨Position.start.placed text,
              some ⟨.io message, Position.start.afterAll text⟩⟩)) ∧
      ∀ front error behind,
        (Decoded.ofDeliveries deliveries).items = front ++ .error error :: behind →
          behind = [] ∧ decodeText deliveries = .error error ∧
            ∀ d, readDelivered d deliveries = .error (error.map .decoding) := by
  refine ⟨fun deliveries' => sameReading_of_throughEnd, sameReading_whole, fun message hend => ?_,
    fun front error behind h => ?_⟩
  · exact ⟨sameReading_whole_of_isHopeless, ofDeliveries_failure hend⟩
  · obtain ⟨hbehind, herror⟩ := Decoded.eq_nil_of_items_eq h
    exact ⟨hbehind, readDelivered_of_error herror⟩

/-- A failure cuts off a character of three bytes; another comes behind a byte that no character
begins with; and a third comes behind the end of the input. -/
theorem ofDeliveries_firstEnd_cut :
    (firstEnd [.bytes [0x61, 0xE2], .bytes [0x82], .failure "late", .bytes [0xAC]] =
          some (.failure "late") ∧
        ¬ IsHopeless [0x61, 0xE2, 0x82] ∧
        throughEnd [.bytes [0x61, 0xE2], .bytes [0x82], .failure "late"] =
          throughEnd [.bytes [0x61, 0xE2], .bytes [0x82], .failure "late", .bytes [0xAC]] ∧
        (∃ text dropped, [0x61, 0xE2, 0x82] = utf8Bytes text ++ dropped ∧
          BeginsCharacter dropped ∧
          (∀ text', utf8Bytes text' <+: [0x61, 0xE2, 0x82] → text' <+: text) ∧
          Decoded.ofDeliveries
              [.bytes [0x61, 0xE2], .bytes [0x82], .failure "late", .bytes [0xAC]] =
            ⟨Position.start.placed text, some ⟨.io "late", Position.start.afterAll text⟩⟩) ∧
        decodeText [.bytes [0x61, 0xE2], .bytes [0x82], .failure "late", .bytes [0xAC]] =
          .error ⟨.io "late", ⟨0, 1⟩⟩ ∧
        SameReading [.bytes [0x61, 0xE2], .bytes [0x82], .failure "late", .bytes [0xAC]]
          [.bytes [0x61, 0xE2], .bytes [0x82], .failure "late"]) ∧
      (firstEnd [.bytes [0x61, 0x80], .failure "late"] = some (.failure "late") ∧
        IsHopeless [0x61, 0x80] ∧
        SameReading [.bytes [0x61, 0x80], .failure "late"] [.bytes [0x61, 0x80]]) ∧
      (∀ message, firstEnd [.bytes [0x61], .bytes [], .failure "late"] ≠ some (.failure message)) ∧
        SameReading [.bytes [0x61], .bytes [], .failure "late"] [.bytes [0x61]] := by
  have hcut : ¬ IsHopeless [0x61, 0xE2, 0x82] := fun h => h ['a', '€'] (by decide)
  have hbroken : IsHopeless [0x61, 0x80] := StrictDecoder.isHopeless_of_feed_eq_error rfl
  have hended : ∀ message, firstEnd [.bytes [0x61], .bytes [], .failure "late"] ≠
      some (.failure message) := by simp [firstEnd, Delivery.isEnd]
  obtain ⟨halike, -, hfailure, hitems⟩ := ofDeliveries_firstEnd
    [.bytes [0x61, 0xE2], .bytes [0x82], .failure "late", .bytes [0xAC]]
  obtain ⟨-, -, hrefused, -⟩ := ofDeliveries_firstEnd [.bytes [0x61, 0x80], .failure "late"]
  exact ⟨⟨rfl, hcut, rfl, (hfailure "late" rfl).2 hcut,
      (hitems [.ok ⟨'a', ⟨0, 0⟩⟩] ⟨.io "late", ⟨0, 1⟩⟩ [] rfl).2.1, halike _ rfl⟩,
    ⟨rfl, hbroken, ((hrefused "late" rfl).1 hbroken).1⟩, hended,
    (ofDeliveries_firstEnd _).2.1 hended⟩

end SmallLisp
