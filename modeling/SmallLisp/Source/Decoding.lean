import SmallLisp.Source.StrictDecoder
import SmallLisp.Text.Position

/-!
# Decoding what a source delivers

The pieces of text that a decoder answers with are gone through character by character, and each
character gets its place.  The first fault ends this: it is reported at the place that the next
character would have had, and nothing is asked of the decoder any more.
-/

namespace SmallLisp

/-- Why a source cannot be decoded. -/
inductive DecodeError where
  | io (message : String)
  | invalidUtf8 (bytes : List UInt8)
  deriving DecidableEq, Repr

/-- A list of bytes as messages show it: decimal numbers between brackets. -/
def bytesText (bytes : List UInt8) : String :=
  "[" ++ ", ".intercalate (bytes.map fun b => toString b.toNat) ++ "]"

/-- The wording of a decoding error. -/
def DecodeError.message : DecodeError → String
  | io message => message
  | invalidUtf8 bytes => "invalid UTF-8 byte sequence " ++ bytesText bytes

/-- **The result of decoding**: the characters with their places, and the error behind them, if
there was one. -/
structure Decoded where
  chars : List (Positioned Char)
  error : Option (Positioned DecodeError)
  deriving Repr

/-- A fault of the decoder, as it is reported. -/
def DecodeError.ofFault : StrictDecoder.Fault → DecodeError
  | .failure message => .io message
  | .invalidSequence bytes => .invalidUtf8 bytes

namespace Decoded

/-- The characters of a piece in front of what is decoded behind it. -/
def ofPiece (p : Position) (later : Position → Decoded) : List Char → Decoded
  | [] => later p
  | c :: piece =>
    let behind := ofPiece (p.after c) later piece
    { behind with chars := ⟨c, p⟩ :: behind.chars }

/-- Goes through the answers of a decoder, from a place on. -/
def ofAnswers (p : Position) : List StrictDecoder.Answer → Decoded
  | [] => ⟨[], none⟩
  | .ok piece :: rest => ofPiece p (fun p' => ofAnswers p' rest) piece
  | .error fault :: _ => ⟨[], some ⟨.ofFault fault, p⟩⟩

/-- **The characters that a source delivers**, up to its end or the first error. -/
def ofDeliveries (deliveries : List Delivery) : Decoded :=
  ofAnswers .start (StrictDecoder.answers none deliveries)

end Decoded

/-- The text of a source, if all of it can be decoded. -/
def decodeText (deliveries : List Delivery) : Except (Positioned DecodeError) String :=
  let decoded := Decoded.ofDeliveries deliveries
  match decoded.error with
  | none => .ok (String.ofList (decoded.chars.map Positioned.value))
  | some error => .error error

end SmallLisp
