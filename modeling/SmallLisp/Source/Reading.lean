import SmallLisp.Reader.Basic
import SmallLisp.Source.Decoding
import SmallLisp.Text.Quoted

/-!
# Programs from somewhere

A program is read from a text in memory, from whatever a source delivers, or from a file.  All
three end in the same reader of expressions.  A source that cannot be decoded never gets there,
so an error in the bytes is reported even if the text before it has an error of its own.

Errors say where they are: at a position, and in a source that has a name.  The messages follow
the form that editors recognise, with the position directly behind the name of a file.
-/

namespace SmallLisp

/-- Why a source is no program. -/
inductive ReadError where
  | decoding (error : DecodeError)
  | source (error : SourceError)
  deriving DecidableEq, Repr

def ReadError.message : ReadError → String
  | decoding error => error.message
  | source error => error.message

/-- An error and its position, as a message. -/
def Positioned.messageWith {α : Type} (message : α → String) (error : Positioned α) : String :=
  message error.value ++ " " ++ error.position.text

/-- **Where a text comes from**: a file, or something without a path that is known by a name. -/
inductive Origin where
  | file (path : String)
  | named (name : String)
  deriving DecidableEq, Repr

namespace Origin

/-- An origin as messages show it: a path is quoted, a name stands in parentheses. -/
def text : Origin → String
  | file path => quotedString path
  | named name => "(" ++ name ++ ")"

/-- The word between an error and the place it comes from. -/
def linkWord : Origin → String
  | file _ => "in"
  | named _ => "from"

/-- An error at a position of a text from somewhere, as a message. -/
def locate (origin : Origin) (message : String) (position : Position) : String :=
  message ++ " " ++ origin.linkWord ++ " " ++ origin.text ++ position.text

end Origin

/-- Why a program with an origin could not be read: the source could not be opened, or there is
an error in it. -/
inductive LocatedError where
  | cannotOpen (message : String) (origin : Origin)
  | at (error : Positioned ReadError) (origin : Origin)
  deriving DecidableEq, Repr

def LocatedError.message : LocatedError → String
  | cannotOpen message origin => origin.text ++ ": " ++ message
  | .at error origin => origin.locate error.value.message error.position

/-- Reads a program from all that a source delivers. -/
def readDelivered (d : Dialect) (deliveries : List Delivery) :
    Except (Positioned ReadError) Program :=
  match decodeText deliveries with
  | .error error => .error (error.map .decoding)
  | .ok source => (readProgram d source).mapError (Positioned.map .source)

/-- Reads a program from a text in memory that is known by a name. -/
def readText (d : Dialect) (source name : String) : Except LocatedError Program :=
  (readProgram d source).mapError fun error => .at (error.map .source) (.named name)

/-- What opening a file comes to: deliveries, or the reason why there are none. -/
abbrev Opened := Except String (List Delivery)

/-- Reads a program from a file that has been opened or could not be. -/
def readOpened (d : Dialect) (path : String) (opened : Opened) : Except LocatedError Program :=
  match opened with
  | .error message => .error (.cannotOpen message (.file path))
  | .ok deliveries => (readDelivered d deliveries).mapError fun error => .at error (.file path)

end SmallLisp
