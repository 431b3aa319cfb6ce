/-!
# Places in a text

A position is a line and a column, both counted from zero and both counted in characters.  In
messages the line is counted from one, which is what editors show; the column stays as it is.
-/

namespace SmallLisp

/-- **A place in a text**: how many line breaks lie before it, and how many characters lie
between the last of them and the place. -/
structure Position where
  line : Nat := 0
  column : Nat := 0
  deriving DecidableEq, Repr, Inhabited

namespace Position

/-- The beginning of a text. -/
def start : Position := {}

/-- The first place on the next line. -/
def nextLine (p : Position) : Position := ⟨p.line + 1, 0⟩

/-- The place behind a character that stands at `p`.  Only the newline character ends a line
here; a lone carriage return takes up a column like any other character. -/
def after (p : Position) (c : Char) : Position :=
  if c = '\n' then p.nextLine else ⟨p.line, p.column + 1⟩

/-- The place behind a text that begins at `p`. -/
def afterAll (p : Position) (text : List Char) : Position := text.foldl after p

/-- The form in which messages give a position: the line counted from one, the column from
zero. -/
def text (p : Position) : String := s!"@{p.line + 1}.{p.column}"

@[simp] theorem afterAll_nil (p : Position) : p.afterAll [] = p := rfl

@[simp] theorem afterAll_cons (p : Position) (c : Char) (cs : List Char) :
    p.afterAll (c :: cs) = (p.after c).afterAll cs := rfl

theorem afterAll_append (p : Position) (a b : List Char) :
    p.afterAll (a ++ b) = (p.afterAll a).afterAll b := by
  simp [afterAll]

example : (Position.mk 0 7).text = "@1.7" := by decide

end Position

/-- A thing together with the place where it begins. -/
structure Positioned (α : Type) where
  value : α
  position : Position
  deriving DecidableEq, Repr

/-- Changes the thing and leaves it where it is. -/
def Positioned.map {α β : Type} (f : α → β) (p : Positioned α) : Positioned β :=
  ⟨f p.value, p.position⟩

end SmallLisp
