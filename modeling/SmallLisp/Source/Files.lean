import SmallLisp.Source.Reading

/-!
# A directory of files

The files that paths refer to, as a value: what opening a path comes to is then a function of
the path.  A path leads from the working directory through its components; directories that
files lie in exist without being mentioned.  The checks come in the order in which a path is
followed, so of two faults in a path the first one counts.

Opening a directory works, and the first attempt to read it fails.
-/

namespace SmallLisp

/-- What can lie at a path. -/
inductive Entry where
  | file (contents : List UInt8)
  | directory
  deriving Repr

/-- Why a path cannot be opened. -/
inductive OpenError where
  | nulInPath
  | notFound
  | nameTooLong
  | notADirectory
  deriving DecidableEq, Repr

def OpenError.message : OpenError → String
  | nulInPath => "file name contained an unexpected NUL byte"
  | notFound => "No such file or directory (os error 2)"
  | nameTooLong => "File name too long (os error 36)"
  | notADirectory => "Not a directory (os error 20)"

/-- What is reported when a directory is read. -/
def isADirectoryMessage : String := "Is a directory (os error 21)"

/-- The longest component that a path may have, in bytes. -/
def maxComponentLength : Nat := 255

/-- The length from which on a path as a whole is too long, in bytes. -/
def pathLengthLimit : Nat := 4096

/-- The components of a path. -/
def pathComponents (path : String) : List (List Char) := path.toList.splitOn '/'

/-- **A working directory**: what lies in it and below, by path, the latest first. -/
structure Directory where
  entries : List (String × Entry) := []
  deriving Repr

namespace Directory

/-- Puts something at a path, in place of what was there. -/
def create (dir : Directory) (path : String) (entry : Entry) : Directory :=
  ⟨(path, entry) :: dir.entries⟩

/-- One component further: a component that is empty or a point stays where it is, two points go
back. -/
def descend (location : List (List Char)) (component : List Char) : List (List Char) :=
  if component = [] ∨ component = ['.'] then location
  else if component = ['.', '.'] then location.dropLast
  else location ++ [component]

/-- The location that a path names, whether or not something is there. -/
def location (path : String) : List (List Char) := (pathComponents path).foldl descend []

/-- What is at a location.  A location that has something below it is a directory, and so is the
working directory itself. -/
def lookup (dir : Directory) (place : List (List Char)) : Option Entry :=
  match dir.entries.find? fun entry => location entry.1 == place with
  | some entry => some entry.2
  | none =>
    if place = [] ∨ dir.entries.any fun entry => place.isPrefixOf (location entry.1) then
      some .directory
    else none

/-- Follows the components of a path from a location. -/
def follow (dir : Directory) :
    List (List Char) → List (List Char) → Except OpenError Entry
  | place, [] =>
    match dir.lookup place with
    | some entry => .ok entry
    | none => .error .notFound
  | place, component :: rest =>
    match dir.lookup place with
    | none => .error .notFound
    | some (.file _) => .error .notADirectory
    | some .directory =>
      if maxComponentLength < (String.ofList component).utf8ByteSize then .error .nameTooLong
      else follow dir (descend place component) rest

/-- What a path leads to. -/
def resolve (dir : Directory) (path : String) : Except OpenError Entry :=
  if path.toList.contains '\x00' then .error .nulInPath
  else if path = "" then .error .notFound
  else if pathLengthLimit ≤ path.utf8ByteSize then .error .nameTooLong
  else dir.follow [] (pathComponents path)

/-- **Opens a path**: the deliveries of what is there, or the reason why it cannot be opened. -/
def openPath (dir : Directory) (path : String) : Opened :=
  match dir.resolve path with
  | .error error => .error error.message
  | .ok (.file contents) => .ok [.bytes contents]
  | .ok .directory => .ok [.failure isADirectoryMessage]

end Directory
end SmallLisp
