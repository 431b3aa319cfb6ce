import SmallLisp.Source.Reading

/-!
# However the bytes are cut

A source may deliver its bytes one at a time or all at once, and a character may begin in one
portion and end in a later one.  A decoder carries over each cut the beginning of a character that
is not complete.  So going through two portions in turn is going through the bytes of both
(`StrictDecoder.feed_append`), and what a decoder says in all is a function of the bytes
(`StrictDecoder.run_append_portions`).  Between the source and the decoder there may be a buffer
that hands on large portions piece by piece; that is one more way to cut the bytes.

Nor does it matter how the decoder cuts the text into pieces: what is decoded are the characters of
all pieces at their places, and behind them the fault (`Decoded.ofDeliveries_eq`).

An empty portion is the end of the input, whatever comes behind it, so a cut has none.
-/

namespace SmallLisp

/-! ## Characters at their places -/

/-- The characters of a text at their places, if the text begins at `p`: the place of each is
found by going through the characters before it. -/
def Position.placed (p : Position) (text : List Char) : List (Positioned Char) :=
  text.mapIdx fun k c => ⟨c, p.afterAll (text.take k)⟩

@[simp] theorem Position.placed_nil (p : Position) : p.placed [] = [] := rfl

@[simp] theorem Position.placed_cons (p : Position) (c : Char) (text : List Char) :
    p.placed (c :: text) = ⟨c, p⟩ :: (p.after c).placed text := List.mapIdx_cons

theorem Position.placed_append (p : Position) (front behind : List Char) :
    p.placed (front ++ behind) = p.placed front ++ (p.afterAll front).placed behind := by
  induction front generalizing p with
  | nil => rfl
  | cons c front ih => rw [List.cons_append, placed_cons, placed_cons, ih]; rfl

@[simp] theorem Position.length_placed (p : Position) (text : List Char) :
    (p.placed text).length = text.length := List.length_mapIdx

theorem Position.getElem?_placed (p : Position) (text : List Char) (i : Nat) :
    (p.placed text)[i]? = text[i]?.map (⟨·, p.afterAll (text.take i)⟩) := List.getElem?_mapIdx

@[simp] theorem Position.map_value_placed (p : Position) (text : List Char) :
    (p.placed text).map Positioned.value = text := by
  induction text generalizing p with
  | nil => rfl
  | cons c text ih => rw [placed_cons, List.map_cons, ih]

/-! ## Piece by piece -/

namespace StrictDecoder

/-- What the answers of a decoder come to: the text of all pieces, and the fault behind it if
there is one. -/
structure Yield where
  text : List Char
  fault : Option Fault

/-- The text of a piece in front of what comes behind it. -/
def Yield.behind (piece : List Char) (later : Yield) : Yield := ⟨piece ++ later.text, later.fault⟩

def Yield.of : List Answer → Yield
  | [] => ⟨[], none⟩
  | .ok piece :: rest => (Yield.of rest).behind piece
  | .error fault :: _ => ⟨[], some fault⟩

/-- What a decoder says to some deliveries. -/
def run (pending : Option PartialChar) (deliveries : List Delivery) : Yield :=
  .of (answers pending deliveries)

/-- What a decoder says to the end of the input. -/
def atEndOfInput (pending : Option PartialChar) : Yield := .of (finish pending)

theorem atEndOfInput_eq (pending : Option PartialChar) :
    atEndOfInput pending = ⟨[], pending.map fun p => .invalidSequence p.bytes⟩ := by
  cases pending with
  | none => rfl
  | some p => rfl

end StrictDecoder

namespace Decoded

/-- What is decoded from a yield, from a place on: its characters at their places, and its fault
behind the last of them. -/
def ofYield (p : Position) (y : StrictDecoder.Yield) : Decoded :=
  ⟨p.placed y.text, y.fault.map fun fault => ⟨.ofFault fault, p.afterAll y.text⟩⟩

theorem ofPiece_eq (p : Position) (later : Position → Decoded) (piece : List Char) :
    ofPiece p later piece =
      ⟨p.placed piece ++ (later (p.afterAll piece)).chars, (later (p.afterAll piece)).error⟩ := by
  induction piece generalizing p with
  | nil => rfl
  | cons c piece ih => rw [ofPiece, ih, Position.placed_cons, Position.afterAll_cons]; rfl

/-- The loop over the answers sees nothing of how the text is cut into pieces. -/
theorem ofAnswers_eq (p : Position) (answers : List StrictDecoder.Answer) :
    ofAnswers p answers = ofYield p (.of answers) := by
  induction answers generalizing p with
  | nil => rfl
  | cons answer rest ih =>
    cases answer with
    | error fault => rfl
    | ok piece =>
      rw [ofAnswers, ofPiece_eq, ih]
      simp only [ofYield, StrictDecoder.Yield.of, StrictDecoder.Yield.behind,
        Position.placed_append, Position.afterAll_append]

theorem ofDeliveries_eq (deliveries : List Delivery) :
    ofDeliveries deliveries = ofYield .start (StrictDecoder.run none deliveries) :=
  ofAnswers_eq .start _

end Decoded

/-! ## Portions one after the other -/

namespace StrictDecoder

/-- What is said in all, if `later` is what is said behind some bytes, with what is pending there.
Nothing is said behind a fault. -/
def continueWith (later : Option PartialChar → Yield) :
    List Char × Except (List UInt8) (Option PartialChar) → Yield
  | (piece, .error bytes) => ⟨piece, some (.invalidSequence bytes)⟩
  | (piece, .ok pending) => (later pending).behind piece

/-- A character in front of the others stays there. -/
theorem continueWith_cons (later : Option PartialChar → Yield) (c : Char)
    (result : List Char × Except (List UInt8) (Option PartialChar)) :
    continueWith later (c :: result.1, result.2) = (continueWith later result).behind [c] := by
  obtain ⟨piece, bytes | pending⟩ := result
  · rfl
  · rfl

/-- Bytes are decoded one after the other, and it does not matter where one looks at the
decoder in between. -/
theorem feed_append (pending : Option PartialChar) (front behind : List UInt8)
    (later : Option PartialChar → Yield) :
    continueWith later (feed pending (front ++ behind)) =
      continueWith (fun pending' => continueWith later (feed pending' behind))
        (feed pending front) := by
  induction front generalizing pending with
  | nil => rfl
  | cons b front ih =>
    rw [List.cons_append, feed, feed]
    split
    · rw [continueWith_cons, continueWith_cons, ih]
    · exact ih _
    · rfl

/-- A portion with some bytes in it is gone through, and then the rest is. -/
theorem run_bytes (pending : Option PartialChar) {portion : List UInt8} (h : portion ≠ [])
    (rest : List Delivery) :
    run pending (.bytes portion :: rest) =
      continueWith (fun pending' => run pending' rest) (feed pending portion) := by
  obtain ⟨b, bs, rfl⟩ := List.exists_cons_of_ne_nil h
  rw [run, answers]
  split
  · next piece bytes hfeed =>
    rw [hfeed, continueWith, Yield.of, Yield.of, Yield.behind, List.append_nil]
  · next piece pending' hfeed =>
    rw [hfeed, continueWith, Yield.of]
    rfl

/-- Portions are decoded as if they were one.  The induction is on the portions, and what is
pending behind the first of them is where the others begin. -/
theorem run_append_portions (pending : Option PartialChar) {portions : List (List UInt8)}
    (h : ∀ portion ∈ portions, portion ≠ []) (rest : List Delivery) :
    run pending (portions.map .bytes ++ rest) =
      continueWith (fun pending' => run pending' rest) (feed pending portions.flatten) := by
  induction portions generalizing pending with
  | nil => rfl
  | cons portion portions ih =>
    obtain ⟨hportion, hportions⟩ := List.forall_mem_cons.1 h
    -- The equation for the other portions holds whatever is pending, so it can be used under the
    -- function.
    have hlater : (fun pending' => run pending' (portions.map .bytes ++ rest)) =
        fun pending' => continueWith (fun pending'' => run pending'' rest)
          (feed pending' portions.flatten) := by
      funext pending'
      exact ih pending' hportions
    rw [List.map_cons, List.cons_append, run_bytes pending hportion, hlater, List.flatten_cons,
      feed_append]

end StrictDecoder

/-! ## Cuts -/

/-- **A cut of some bytes** into portions that are not empty. -/
structure IsCut (bytes : List UInt8) (portions : List (List UInt8)) : Prop where
  flatten_eq : portions.flatten = bytes
  ne_nil : ∀ portion ∈ portions, portion ≠ []

/-- What is decoded from a cut is decoded from the bytes. -/
theorem IsCut.ofDeliveries_eq {bytes : List UInt8} {portions : List (List UInt8)}
    (h : IsCut bytes portions) :
    Decoded.ofDeliveries (portions.map .bytes) = Decoded.ofYield .start
      (StrictDecoder.continueWith StrictDecoder.atEndOfInput (StrictDecoder.feed none bytes)) := by
  have hrun := StrictDecoder.run_append_portions none h.ne_nil []
  rw [List.append_nil, h.flatten_eq] at hrun
  rw [Decoded.ofDeliveries_eq, hrun]
  rfl

/-- The pieces in which a buffer of `size + 1` bytes hands on a portion. -/
def bufferedPieces (size : Nat) : List UInt8 → List (List UInt8)
  | [] => []
  | b :: bs => (b :: bs.take size) :: bufferedPieces size (bs.drop size)
termination_by bytes => bytes.length

theorem isCut_bufferedPieces (size : Nat) (portion : List UInt8) :
    IsCut portion (bufferedPieces size portion) := by
  fun_induction bufferedPieces size portion with
  | case1 => exact ⟨rfl, by simp⟩
  | case2 b bs ih =>
    refine ⟨?_, List.forall_mem_cons.2 ⟨List.cons_ne_nil _ _, ih.ne_nil⟩⟩
    rw [List.flatten_cons, ih.flatten_eq, List.cons_append, List.take_append_drop]

/-- A cut remains one if every portion of it is cut again. -/
theorem IsCut.flatMap {bytes : List UInt8} {portions : List (List UInt8)}
    (h : IsCut bytes portions) {pieces : List UInt8 → List (List UInt8)}
    (hpieces : ∀ portion, IsCut portion (pieces portion)) :
    IsCut bytes (portions.flatMap pieces) := by
  refine ⟨?_, ?_⟩
  · rw [← h.flatten_eq]
    clear h
    induction portions with
    | nil => rfl
    | cons portion portions ih =>
      rw [List.flatMap_cons, List.flatten_append, (hpieces portion).flatten_eq, ih,
        List.flatten_cons]
  · intro piece hpiece
    obtain ⟨portion, -, hmem⟩ := List.mem_flatMap.1 hpiece
    exact (hpieces portion).ne_nil piece hmem

/-- **What a source decodes to does not depend on how its bytes are cut**: the characters and their
places, the error and its place, the text, and the program that is read from it in any dialect. -/
theorem readDelivered_eq_of_isCut {bytes : List UInt8} {portions portions' : List (List UInt8)}
    (h : IsCut bytes portions) (h' : IsCut bytes portions') :
    Decoded.ofDeliveries (portions.map .bytes) = Decoded.ofDeliveries (portions'.map .bytes) ∧
      decodeText (portions.map .bytes) = decodeText (portions'.map .bytes) ∧
      (∀ d, readDelivered d (portions.map .bytes) = readDelivered d (portions'.map .bytes)) ∧
      ∀ size, Decoded.ofDeliveries ((portions.flatMap (bufferedPieces size)).map .bytes) =
        Decoded.ofDeliveries (portions.map .bytes) := by
  have hdecoded : Decoded.ofDeliveries (portions.map .bytes) =
      Decoded.ofDeliveries (portions'.map .bytes) := by
    rw [h.ofDeliveries_eq, h'.ofDeliveries_eq]
  have htext : decodeText (portions.map .bytes) = decodeText (portions'.map .bytes) := by
    rw [decodeText, decodeText, hdecoded]
  refine ⟨hdecoded, htext, ?_, ?_⟩
  · intro d
    rw [readDelivered, readDelivered, htext]
  · intro size
    rw [(h.flatMap (isCut_bufferedPieces size)).ofDeliveries_eq, h.ofDeliveries_eq]

/-- A cut through a character of two bytes.  What is wrong behind it is reported where it is. -/
theorem readDelivered_eq_of_isCut_inside :
    Decoded.ofDeliveries [.bytes [0xC3], .bytes [0xA9, 0x80]] =
        Decoded.ofDeliveries [.bytes [0xC3, 0xA9, 0x80]] ∧
      readDelivered .standard [.bytes [0xC3], .bytes [0xA9, 0x80]] =
        .error ⟨.decoding (.invalidUtf8 [0x80]), ⟨0, 1⟩⟩ := by
  have hcut : IsCut [0xC3, 0xA9, 0x80] [[0xC3], [0xA9, 0x80]] := ⟨rfl, by decide⟩
  have hwhole : IsCut [0xC3, 0xA9, 0x80] [[0xC3, 0xA9, 0x80]] := ⟨rfl, by decide⟩
  have herror : (Decoded.ofDeliveries [.bytes [0xC3, 0xA9, 0x80]]).error =
      some ⟨.invalidUtf8 [0x80], ⟨0, 1⟩⟩ := by decide +kernel
  obtain ⟨hdecoded, -, hread, -⟩ := readDelivered_eq_of_isCut hcut hwhole
  refine ⟨hdecoded, (hread .standard).trans ?_⟩
  rw [List.map_cons, List.map_nil, readDelivered, decodeText]
  simp only [herror]
  rfl

end SmallLisp
