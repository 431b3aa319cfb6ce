import SmallLisp.Text.Utf8

/-!
# A strict decoder

A decoder stands between a source of bytes and whoever needs characters.  It is asked again and
again, and answers with pieces of text until it has nothing more to say, or with a fault.  Of a
decoder for UTF-8 the following is expected, and no more:

* All characters in front of a fault are delivered before it, in pieces of any size.  How the bytes
  are cut into portions makes no difference to the text.
* The fault names the bytes that are wrong: as many as could still begin a character, and one if
  there is none; at the end of the input, all bytes of a character that is cut off.
* A portion without bytes is the end of the input, whatever stands behind it.  A failure of the
  source is met where it stands, and the beginning of a character in front of it is lost.
-/

namespace SmallLisp

/-- **One answer of a source** that is asked for more: some bytes, or a failure in the words of
whoever provides the source.  No bytes at all is the end of the input. -/
inductive Delivery where
  | bytes (bytes : List UInt8)
  | failure (message : String)
  deriving Repr

namespace StrictDecoder

/-- What stops a decoder. -/
inductive Fault where
  | failure (message : String)
  | invalidSequence (bytes : List UInt8)
  deriving DecidableEq, Repr

/-- An answer of a decoder: a piece of text, or the fault that stopped it. -/
abbrev Answer := Except Fault (List Char)

/-- Goes through the bytes of a portion, behind the beginning of a character if one is pending: the
characters completed on the way, and what is pending then or the bytes that are refused. -/
def feed (pending : Option PartialChar) :
    List UInt8 → List Char × Except (List UInt8) (Option PartialChar)
  | [] => ([], .ok pending)
  | b :: rest =>
    match takeByte pending b with
    | .complete c =>
      let later := feed none rest
      (c :: later.1, later.2)
    | .incomplete p => feed (some p) rest
    | .refused bytes => ([], .error bytes)

/-- The end of the input: a character that is not complete never will be. -/
def finish (pending : Option PartialChar) : List Answer :=
  pending.toList.map fun p => .error (.invalidSequence p.bytes)

/-- **All answers of a decoder** to the end of the input or the first fault, a piece for each
portion. -/
def answers (pending : Option PartialChar) : List Delivery → List Answer
  | [] => finish pending
  | .failure message :: _ => [.error (.failure message)]
  | .bytes [] :: _ => finish pending
  | .bytes (b :: bs) :: rest =>
    match feed pending (b :: bs) with
    | (piece, .error bytes) => [.ok piece, .error (.invalidSequence bytes)]
    | (piece, .ok pending') => .ok piece :: answers pending' rest

end StrictDecoder
end SmallLisp
