/-!
# Dialects

Two independent choices make a dialect of the language: whether lists headed by the name of a
form are read as that form, and what a character means that no token starts with.  A third
choice, whether ends of lines are shown, belongs to a listing of tokens and changes nothing
about what is read.
-/

namespace SmallLisp

/-- **What varies between dialects.** -/
structure Dialect where
  /-- A list headed by the name of a special form or of a built-in function, or by a lambda
  expression, is read as that form; otherwise every list is a plain list. -/
  readsForms : Bool := true
  /-- A character that no token starts with ends the input silently; otherwise it is an
  error. -/
  endsAtUnknown : Bool := true
  deriving DecidableEq, Repr

namespace Dialect

/-- The language as it is: forms, and a silent end at an unknown character. -/
def standard : Dialect := {}

/-- Plain lists only. -/
def plainLists : Dialect := { readsForms := false }

/-- Forms, and unknown characters reported. -/
def strict : Dialect := { endsAtUnknown := false }

end Dialect

/-- A dialect, and whether a listing of tokens shows the ends of lines. -/
structure Settings where
  dialect : Dialect := .standard
  showsLineEnds : Bool := false
  deriving DecidableEq, Repr

end SmallLisp
