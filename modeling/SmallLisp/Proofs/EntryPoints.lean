import SmallLisp.Proofs.StrictDecoding
import SmallLisp.Proofs.TokenList
import SmallLisp.Source.Files

/-!
# All ways to a program agree

A program is read from a text in memory, from what a source delivers, or from a file, and each of
the three has its own kind of error around the one that counts.  They agree: the encoding of a
text, in whatever portions it is delivered and whether or not a file holds it, comes to the same
program as the text itself, or to the same error at the same position.

Bytes that are the encoding of no text come to no program.  The error is the one in the bytes, at
its place, although the reader could have found another one in the text before that place: it never
gets to see that text.
-/

namespace SmallLisp

theorem readDelivered_eq_of_error {deliveries : List Delivery} {error : Positioned DecodeError}
    (h : decodeText deliveries = .error error) (d : Dialect) :
    readDelivered d deliveries = .error (error.map .decoding) := by
  rw [readDelivered, h]

theorem Directory.openPath_eq_of_file {dir : Directory} {path : String} {bytes : List UInt8}
    (h : dir.resolve path = .ok (.file bytes)) : dir.openPath path = .ok [.bytes bytes] := by
  rw [openPath, h]

namespace Delivers

variable {deliveries : List Delivery}

/-- The encoding of a text reads as the text does. -/
theorem readDelivered_eq {s : String} (h : Delivers deliveries (utf8Bytes s.toList))
    (d : Dialect) :
    readDelivered d deliveries = (readProgram d s).mapError (Positioned.map .source) := by
  rw [readDelivered, (h.decodeText_eq_ok_iff s).2 rfl]

theorem readOpened_eq {s : String} (h : Delivers deliveries (utf8Bytes s.toList)) (d : Dialect)
    (path : String) :
    readOpened d path (.ok deliveries) =
      (readProgram d s).mapError fun error => .at (error.map .source) (.file path) := by
  rw [readOpened, h.readDelivered_eq d]
  cases readProgram d s <;> rfl

/-- Bytes that are no encoding of a text are refused behind the longest text at their head. -/
theorem exists_decodeText_eq_error {bytes : List UInt8} (h : Delivers deliveries bytes)
    (hnone : ∀ s : String, utf8Bytes s.toList ≠ bytes) :
    ∃ text refused behind, bytes = utf8Bytes text ++ (refused ++ behind) ∧
      IsRefusal refused behind ∧
      decodeText deliveries = .error ⟨.invalidUtf8 refused, Position.start.afterAll text⟩ := by
  obtain ⟨text, refused, behind, hbytes, hrefusal, -, hdecoded⟩ := h.exists_isRefusal hnone
  exact ⟨text, refused, behind, hbytes, hrefusal, by rw [decodeText, hdecoded]⟩

end Delivers

/-- What is refused depends on the bytes only, so all deliveries of the same bytes have the same
error. -/
theorem Delivers.decodeText_eq {deliveries deliveries' : List Delivery} {bytes : List UInt8}
    (h : Delivers deliveries bytes) (h' : Delivers deliveries' bytes) :
    decodeText deliveries = decodeText deliveries' := by
  have hrun : Decoded.ofDeliveries deliveries = Decoded.ofDeliveries deliveries' := by
    rw [Decoded.ofDeliveries_eq, Decoded.ofDeliveries_eq, h.run_eq, h'.run_eq]
  rw [decodeText, hrun, decodeText]

/-- **All ways to a program agree.**  Let some bytes be delivered without a failure, and let a file
hold them.

If they are the encoding of a text, then reading what is delivered, reading the text under a name,
and reading the file come to the program that the text reads as, or to the error that it has, and
around it only what says where the text comes from.

If they are the encoding of no text, then reading what is delivered and reading the file fail, with
the error of decoding and at its position, which is behind the longest text at their head.  That
holds whatever that text would read as. -/
theorem entryPoints_agree {deliveries : List Delivery} {bytes : List UInt8}
    (h : Delivers deliveries bytes) {dir : Directory} {path : String}
    (hfile : dir.resolve path = .ok (.file bytes)) (d : Dialect) :
    (∀ s : String, utf8Bytes s.toList = bytes →
        readDelivered d deliveries = (readProgram d s).mapError (Positioned.map .source) ∧
        (∀ name, readText d s name =
          (readProgram d s).mapError fun error => .at (error.map .source) (.named name)) ∧
        ∀ opened, opened = .ok deliveries ∨ opened = dir.openPath path →
          readOpened d path opened =
            (readProgram d s).mapError fun error => .at (error.map .source) (.file path)) ∧
      ((∀ s : String, utf8Bytes s.toList ≠ bytes) →
        ∃ text refused behind, bytes = utf8Bytes text ++ (refused ++ behind) ∧
          IsRefusal refused behind ∧
          ∃ error, error = ⟨.invalidUtf8 refused, Position.start.afterAll text⟩ ∧
            decodeText deliveries = .error error ∧
            readDelivered d deliveries = .error (error.map .decoding) ∧
            ∀ opened, opened = .ok deliveries ∨ opened = dir.openPath path →
              readOpened d path opened = .error (.at (error.map .decoding) (.file path))) := by
  have hopen := Directory.openPath_eq_of_file hfile
  constructor
  · rintro s rfl
    refine ⟨h.readDelivered_eq d, fun name => rfl, ?_⟩
    rintro opened (rfl | rfl)
    · exact h.readOpened_eq d path
    · rw [hopen]
      exact (Delivers.whole _).readOpened_eq d path
  · intro hnone
    obtain ⟨text, refused, behind, hbytes, hrefusal, herror⟩ :=
      h.exists_decodeText_eq_error hnone
    have hwhole := (h.decodeText_eq (Delivers.whole bytes)).symm.trans herror
    refine ⟨text, refused, behind, hbytes, hrefusal, _, rfl, herror,
      readDelivered_eq_of_error herror d, ?_⟩
    rintro opened (rfl | rfl)
    · rw [readOpened, readDelivered_eq_of_error herror d]
      rfl
    · rw [hopen, readOpened, readDelivered_eq_of_error hwhole d]
      rfl

/-- A file that holds a closing parenthesis and then a byte that begins no character: the reader
would stop at the parenthesis, but the error is that of the byte.  A file with the letter `x` reads
as the text does. -/
theorem entryPoints_agree_files :
    readProgram .standard ")" =
        .error ⟨.grammatical (.unexpectedToken (.plain .closeParen)), ⟨0, 0⟩⟩ ∧
      readOpened .standard "a" ((Directory.create {} "a" (.file [0x29, 0xFF])).openPath "a") =
        .error (.at ⟨.decoding (.invalidUtf8 [0xFF]), ⟨0, 1⟩⟩ (.file "a")) ∧
      readOpened .standard "a" ((Directory.create {} "a" (.file [0x78])).openPath "a") =
        .ok ⟨[.identifier "x"]⟩ := by
  have hclosing : TokenStream.ofSource .standard ")" =
      ⟨[⟨.plain .closeParen, ⟨0, 0⟩⟩], .endOfInput ⟨0, 1⟩⟩ := by decide +kernel
  have hletter : TokenStream.ofSource .standard "x" =
      ⟨[⟨.identifier "x", ⟨0, 0⟩⟩], .endOfInput ⟨0, 1⟩⟩ := by decide +kernel
  have hread : readProgram .standard "x" = .ok ⟨[.identifier "x"]⟩ := by
    rw [readProgram_eq_readFrom, hletter]
    rfl
  have hbroken : Delivers [.bytes [0x29], .bytes [0xFF]] [0x29, 0xFF] :=
    .portion (by decide) (.portion (by decide) .nil)
  have hwhole : Delivers [.bytes [0x78]] [0x78] := .portion (by decide) .nil
  have hbrokenFile : (Directory.create {} "a" (.file [0x29, 0xFF])).resolve "a" =
      .ok (.file [0x29, 0xFF]) := by rfl
  have hwholeFile : (Directory.create {} "a" (.file [0x78])).resolve "a" =
      .ok (.file [0x78]) := by rfl
  have herror : decodeText [.bytes [0x29], .bytes [0xFF]] =
      .error ⟨.invalidUtf8 [0xFF], ⟨0, 1⟩⟩ := by rfl
  have hnone : ∀ s : String, utf8Bytes s.toList ≠ [0x29, 0xFF] := by
    intro s hs
    have hok := (hbroken.decodeText_eq_ok_iff s).2 hs
    rw [herror] at hok
    cases hok
  obtain ⟨-, hrefused⟩ := entryPoints_agree hbroken hbrokenFile .standard
  obtain ⟨_, _, _, -, -, error, -, hdecode, -, hopened⟩ := hrefused hnone
  obtain rfl := Except.error.inj (hdecode.symm.trans herror)
  obtain ⟨-, -, hsame⟩ := (entryPoints_agree hwhole hwholeFile .standard).1 "x" (by decide)
  refine ⟨?_, hopened _ (.inr rfl), ?_⟩
  · rw [readProgram_eq_readFrom, hclosing]
    rfl
  · rw [hsame _ (.inr rfl), hread]
    rfl

end SmallLisp
