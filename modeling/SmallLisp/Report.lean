import SmallLisp.Expr.Layout
import SmallLisp.Source.Reading

/-!
# Reports on files

The command line reports on each file it is given, on its own and in order: a header, then
either the tokens of the file or its program, then a count.  A file that fails gets one message
instead of the count, on the other output; what was written before the failure stays.

A listing of tokens is indented by the parentheses open at each token.  A closing parenthesis
stands where its opening one stands; one that closes nothing stands at the margin.
-/

namespace SmallLisp

/-- **What the command line can be asked for.** -/
structure Options where
  /-- Read each file as a program; otherwise its tokens are listed. -/
  readsPrograms : Bool := false
  /-- Write out the tokens or the program, and not only their number. -/
  prints : Bool := false
  /-- Show where each token is. -/
  showsPositions : Bool := false
  showsLineEnds : Bool := false
  plainLists : Bool := false
  strict : Bool := false
  deriving DecidableEq, Repr

namespace Options

/-- The dialect that the options choose. -/
def dialect (o : Options) : Dialect :=
  { readsForms := !o.plainLists, endsAtUnknown := !o.strict }

/-- The options with one more flag set, if there is such a flag. -/
def withFlag? (o : Options) (flag : String) : Option Options :=
  if flag = "-a" ∨ flag = "--ast" then some { o with readsPrograms := true }
  else if flag = "--print" then some { o with prints := true }
  else if flag = "--pos" then some { o with showsPositions := true }
  else if flag = "-e" ∨ flag = "--end-lines" then some { o with showsLineEnds := true }
  else if flag = "-l" ∨ flag = "--lists" then some { o with plainLists := true }
  else if flag = "-s" ∨ flag = "--strict" then some { o with strict := true }
  else none

/-- The options that a list of flags sets. -/
def ofFlags? (flags : List String) : Option Options := flags.foldlM withFlag? {}

end Options

namespace Report

/-! ## Listings of tokens -/

/-- The indentation of a token inside `depth` open parentheses, and the number open behind it. -/
def indentation (depth : Nat) (kind : TokenKind) : Nat × Nat :=
  match kind with
  | .closeParen => (depth - 1, depth - 1)
  | .openParen => (depth, depth + 1)
  | _ => (depth, depth)

/-- One line of a listing: the indentation, the place if it is asked for, the kind and the text
of the token. -/
def tokenLine (showsPositions : Bool) (indent : Nat) (t : Positioned Token) : String :=
  String.ofList (List.replicate (2 * indent) ' ') ++
    (if showsPositions then t.position.text ++ " " else "") ++
    t.value.kind.label ++ " " ++ t.value.text

/-- The lines of a listing, from a depth on. -/
def listingLines (showsPositions : Bool) : Nat → List (Positioned Token) → List String
  | _, [] => []
  | depth, t :: rest =>
    let (indent, depth') := indentation depth t.value.kind
    tokenLine showsPositions indent t :: listingLines showsPositions depth' rest

/-! ## One file -/

/-- **The report on one file**: what goes to the standard output, and the message for the error
output if the file failed. -/
structure FileReport where
  output : String
  failure : Option String
  deriving DecidableEq, Repr

/-- A text as a line. -/
def line (s : String) : String := s ++ "\n"

/-- Several texts as lines. -/
def lines (texts : List String) : String := String.join (texts.map line)

/-- The line in front of the report on a file. -/
def header (path : String) : String := line ("=== " ++ path ++ " ===")

/-- The last line of the report on a file that did not fail. -/
def countLine (what count : String) : String :=
  line (";; count_" ++ what ++ " = " ++ count)

/-- What a counter of 32 bits shows that has counted `n` things.  Behind its largest number comes
its least one.  (A build that checks its arithmetic stops there, in the middle of the report; with
fewer things to count there is no difference.) -/
def counter (n : Nat) : Int32 := Int32.ofNat n

theorem header_eq (path : String) : header path = "=== " ++ path ++ " ===\n" := by
  simp [header, line, String.append_assoc]

theorem countLine_eq (what count : String) :
    countLine what count = ";; count_" ++ what ++ " = " ++ count ++ "\n" := by
  simp [countLine, line, String.append_assoc]

/-- The body of a report that lists the tokens of a source.  They are counted in 32 bits, as they
are listed; the expressions of a program have been stored and are counted without a bound. -/
def tokens (o : Options) (path : String) (opened : Opened) : FileReport :=
  match opened with
  | .error message => ⟨"", some (LocatedError.cannotOpen message (.file path)).message⟩
  | .ok deliveries =>
    match decodeText deliveries with
    | .error error => ⟨"", some ((Origin.file path).locate error.value.message error.position)⟩
    | .ok source =>
      let stream := TokenStream.ofSource o.dialect source
      let shown := stream.shown o.showsLineEnds
      let listing := if o.prints then lines (listingLines o.showsPositions 0 shown) else ""
      match stream.ending with
      | .endOfInput _ => ⟨listing ++ countLine "tokens" (toString (counter shown.length)), none⟩
      | .failure error =>
        ⟨listing, some ((Origin.file path).locate error.value.message error.position)⟩

/-- The body of a report that reads a source as a program. -/
def program (o : Options) (path : String) (opened : Opened) : FileReport :=
  match readOpened o.dialect path opened with
  | .error error => ⟨"", some error.message⟩
  | .ok p =>
    ⟨(if o.prints then p.text else "") ++ countLine "toplevel" (toString p.expressions.length), none⟩

/-- The report on one file. -/
def file (o : Options) (path : String) (opened : Opened) : FileReport :=
  let body := if o.readsPrograms then program o path opened else tokens o path opened
  { body with output := header path ++ body.output }

/-! ## A run over several files -/

/-- **The outcome of a run**: the two outputs, and the exit code. -/
structure Outcome where
  stdout : String
  stderr : String
  exit : Nat
  deriving DecidableEq, Repr

/-- The number of files that failed.  It needs no more than 32 bits, since a command line has no
more arguments than that. -/
def failureCount (reports : List FileReport) : Nat :=
  reports.countP fun report => report.failure.isSome

/-- What is said at the end if any file failed. -/
def summary (failures files : Nat) : String :=
  line ("Error: " ++ toString failures ++ " of " ++ toString files ++ " files failed")

theorem summary_eq (failures files : Nat) : summary failures files =
    "Error: " ++ toString failures ++ " of " ++ toString files ++ " files failed\n" := by
  simp [summary, line, String.append_assoc]

/-- The outcome of a run with these reports, in this order. -/
def outcome (reports : List FileReport) : Outcome :=
  let failures := failureCount reports
  { stdout := String.join (reports.map FileReport.output)
    stderr := lines (reports.filterMap FileReport.failure) ++
      if failures = 0 then "" else summary failures reports.length
    exit := if failures = 0 then 0 else 1 }

/-- **A run over several files**, given what opening a path comes to. -/
def run (o : Options) (openPath : String → Opened) (paths : List String) : Outcome :=
  outcome (paths.map fun path => file o path (openPath path))

end Report
end SmallLisp
