import SmallLisp.Expr.Layout

/-!
# Writing to an output that may fail

A program is written expression by expression and each expression part by part, every part by
itself handing strings to the output.  What takes them may fail, and then nothing more is handed to
it: the failure of a part is the failure of the expression around it.  So the writer puts the spaces
as it goes, and never sees the layout of a whole expression.

The output that matters here takes bytes until it has no room left.  Writing a string to one without
enough room writes what still fits, and fails.
-/

namespace SmallLisp

/-! ## Any output -/

section

variable {σ : Type} (put : List Char → σ → Except σ σ)

/-- Writes strings one after the other, up to the first failure.  Here as in all that follows, `put`
is how an output takes one string, and a failure comes with the output as it was left. -/
def writeStrokes : List (List Char) → σ → Except σ σ
  | [] => pure
  | stroke :: strokes => put stroke >=> writeStrokes strokes

/-- Writes names, each behind a space. -/
def writeSpacedNames : List String → σ → Except σ σ
  | [] => pure
  | name :: names => put [' '] >=> put name.toList >=> writeSpacedNames names

/-- Writes a list of names in parentheses. -/
def writeNames : List String → σ → Except σ σ
  | [] => put ['('] >=> put [')']
  | name :: names => put ['('] >=> put name.toList >=> writeSpacedNames put names >=> put [')']

/-- Writes the beginning of a form: the parenthesis, and the keyword that heads it. -/
def writeHead (k : Keyword) : σ → Except σ σ := put ['('] >=> put k.word.toList

mutual

/-- **Writes an expression** to an output, part by part. -/
def Expr.writeWith : Expr → σ → Except σ σ
  | .integer n => put (Numeral.ofInteger n)
  | .real x => put x.text
  | .boolean b => put (booleanWord b).toList
  | .identifier name => put name.toList
  | .string s => put (quoted s.toList)
  | .list items => put ['('] >=> writeItemsWith items >=> put [')']
  | .call function arguments =>
    put ['('] >=> put function.toList >=> writeSpacedWith arguments >=> put [')']
  | .quote e => put ['\''] >=> e.writeWith
  | .setq name value =>
    writeHead put .setq >=> put [' '] >=> put name.toList >=> put [' '] >=> value.writeWith >=>
      put [')']
  | .cond test yes none =>
    writeHead put .cond >=> put [' '] >=> test.writeWith >=> put [' '] >=> yes.writeWith >=>
      put [')']
  | .cond test yes (some no) =>
    writeHead put .cond >=> put [' '] >=> test.writeWith >=> put [' '] >=> yes.writeWith >=>
      put [' '] >=> no.writeWith >=> put [')']
  | .func name parameters body =>
    writeHead put .func >=> put [' '] >=> put name.toList >=> put [' '] >=>
      writeNames put parameters >=> writeSpacedWith body >=> put [')']
  | .lambda parameters body =>
    writeHead put .lambda >=> put [' '] >=> writeNames put parameters >=> put [' '] >=>
      body.writeWith >=> put [')']
  | .lambdaCall parameters body arguments =>
    put ['('] >=>
      (writeHead put .lambda >=> put [' '] >=> writeNames put parameters >=> put [' '] >=>
        body.writeWith >=> put [')']) >=>
      writeSpacedWith arguments >=> put [')']
  | .prog parameters body =>
    writeHead put .prog >=> put [' '] >=> writeNames put parameters >=> writeSpacedWith body >=>
      put [')']
  | .whileLoop condition body =>
    writeHead put .whileLoop >=> put [' '] >=> condition.writeWith >=> writeSpacedWith body >=>
      put [')']

/-- Writes expressions with a space between every two. -/
def Expr.writeItemsWith : List Expr → σ → Except σ σ
  | [] => pure
  | e :: es => e.writeWith >=> writeSpacedWith es

/-- Writes expressions, each behind a space. -/
def Expr.writeSpacedWith : List Expr → σ → Except σ σ
  | [] => pure
  | e :: es => put [' '] >=> e.writeWith >=> writeSpacedWith es

end

/-- Writes expressions, each on a line of its own. -/
def Expr.writeLinesWith : List Expr → σ → Except σ σ
  | [] => pure
  | e :: es => e.writeWith put >=> put ['\n'] >=> writeLinesWith es

/-- **Writes a program** to an output. -/
def Program.writeWith (p : Program) : σ → Except σ σ := Expr.writeLinesWith put p.expressions

end

/-! ## An output with room for some bytes -/

/-- **An output**: what has been written to it, and how many bytes it can hold in all, if there
is a limit. -/
structure Sink where
  limit : Option Nat := none
  written : List UInt8 := []
  deriving DecidableEq, Repr

/-- The encoding of a text in UTF-8. -/
def utf8Bytes (text : List Char) : List UInt8 := text.flatMap String.utf8EncodeChar

namespace Sink

/-- What is reported when an output had no room for all of a string. -/
def fullMessage : String := "failed to write whole buffer"

/-- Writes bytes to an output.  If there is room for only some of them, those are written, and
the output they are in is the error. -/
def write (sink : Sink) (bytes : List UInt8) : Except Sink Sink :=
  let all := sink.written ++ bytes
  match sink.limit with
  | none => .ok { sink with written := all }
  | some n =>
    if all.length ≤ n then .ok { sink with written := all }
    else .error { sink with written := all.take n }

/-- Writes a string to an output. -/
def put (stroke : List Char) (sink : Sink) : Except Sink Sink := sink.write (utf8Bytes stroke)

/-- The output after an attempt to write, failed or not. -/
def afterAttempt : Except Sink Sink → Sink
  | .ok sink => sink
  | .error sink => sink

end Sink

/-- Writes a program to an output with room for some bytes. -/
def Program.writeTo (p : Program) (sink : Sink) : Except Sink Sink := p.writeWith Sink.put sink

end SmallLisp
