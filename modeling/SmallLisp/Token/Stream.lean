import SmallLisp.Token.Scanner

/-!
# Streams of tokens

All that a scanner will answer, up to and including the first answer behind which nothing new
can come: the end of the input, or a lexical error.
-/

namespace SmallLisp

/-- How a stream of tokens ends. -/
inductive StreamEnd where
  | endOfInput (position : Position)
  | failure (error : Positioned LexError)
  deriving DecidableEq, Repr

/-- **A stream of tokens**: the tokens before its end, and how it ends.  The token for the end
of the input is not among the tokens. -/
structure TokenStream where
  tokens : List (Positioned Token)
  ending : StreamEnd
  deriving DecidableEq, Repr

namespace Scanner

/-- The stream of a scanner's tokens.  Every token but the end of the input uses up text, which
is why there are finitely many. -/
def stream (d : Dialect) (s : Scanner) : TokenStream :=
  match _h : s.next d with
  | (.error error, _) => ⟨[], .failure error⟩
  | (.ok t, s') =>
    if _hkind : t.value.kind = .eof then ⟨[], .endOfInput t.position⟩
    else
      let later := stream d s'
      ⟨t :: later.tokens, later.ending⟩
termination_by s.rest.length
decreasing_by exact length_next_lt _h _hkind

end Scanner

namespace TokenStream

/-- The stream of a source text's tokens. -/
def ofSource (d : Dialect) (source : String) : TokenStream := (Scanner.ofSource source).stream d

/-- The tokens as a listing shows them, with or without the ends of lines. -/
def shown (showsLineEnds : Bool) (stream : TokenStream) : List (Positioned Token) :=
  stream.tokens.filter fun t => showsLineEnds || t.value.kind != .endLine

/-- The answers of a listing in order: the tokens shown, then the end of the input or the
error. -/
def listing (showsLineEnds : Bool) (stream : TokenStream) : List Scanner.Result :=
  (stream.shown showsLineEnds).map .ok ++
    [match stream.ending with
      | .endOfInput position => .ok ⟨.plain .eof, position⟩
      | .failure error => .error error]

end TokenStream
end SmallLisp
