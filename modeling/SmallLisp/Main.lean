import SmallLisp.Report
import SmallLisp.Source.Files

/-!
# The command line

Flags, then paths; everything behind `--` is a path.  What to report is decided elsewhere: here
files are opened and read, one after the other, and the reports are written out as they come.
-/

namespace SmallLisp

/-- What the operating system says about a failure, with the number of the error. -/
def systemMessage (error : IO.Error) : String :=
  let numbered (details : String) (code : UInt32) : String :=
    details ++ " (os error " ++ toString code ++ ")"
  match error with
  | .alreadyExists _ code details => numbered details code
  | .otherError code details => numbered details code
  | .resourceBusy code details => numbered details code
  | .resourceVanished code details => numbered details code
  | .unsupportedOperation code details => numbered details code
  | .hardwareFault code details => numbered details code
  | .unsatisfiedConstraints code details => numbered details code
  | .illegalOperation code details => numbered details code
  | .protocolError code details => numbered details code
  | .timeExpired code details => numbered details code
  | .interrupted _ code details => numbered details code
  | .noFileOrDirectory _ code details => numbered details code
  | .invalidArgument _ code details => numbered details code
  | .permissionDenied _ code details => numbered details code
  | .resourceExhausted _ code details => numbered details code
  | .inappropriateType _ code details => numbered details code
  | .noSuchThing _ code details => numbered details code
  | .unexpectedEof => "unexpected end of file"
  | .userError message => message

/-- The number of bytes asked for at a time. -/
def portionSize : USize := 8192

/-- Everything that an open file delivers. -/
partial def deliveriesOf (handle : IO.FS.Handle) : IO (List Delivery) := do
  match ← (handle.read portionSize).toBaseIO with
  | .error error => return [.failure (systemMessage error)]
  | .ok portion =>
    if portion.isEmpty then return []
    else return .bytes portion.toList :: (← deliveriesOf handle)

/-- Opens a file and reads all of it. -/
def openFile (path : String) : IO Opened := do
  if path.toList.contains '\x00' then return .error OpenError.nulInPath.message
  match ← (IO.FS.Handle.mk path .read).toBaseIO with
  | .error error => return .error (systemMessage error)
  | .ok handle => return .ok (← deliveriesOf handle)

/-- The flags and the paths among the arguments. -/
def splitArguments (arguments : List String) : List String × List String :=
  let before := arguments.takeWhile (· != "--")
  let behind := arguments.drop (before.length + 1)
  (before.filter (·.startsWith "-"), before.filter (!·.startsWith "-") ++ behind)

/-- Reports on every file as it is read, and returns the reports. -/
def reportEach (o : Options) (paths : List String) : IO (List Report.FileReport) :=
  paths.mapM fun path => do
    let report := Report.file o path (← openFile path)
    IO.print report.output
    (← IO.getStdout).flush
    match report.failure with
    | some message => IO.eprint (Report.line message)
    | none => pure ()
    return report

end SmallLisp

open SmallLisp in
/-- Runs the command line on its arguments. -/
def main (arguments : List String) : IO UInt32 := do
  let (flags, paths) := splitArguments arguments
  match Options.ofFlags? flags, paths with
  | none, _ | _, [] =>
    IO.eprintln "usage: [--ast] [--print] [--pos] [--end-lines] [--lists] [--strict] [--] FILE..."
    return 2
  | some options, paths =>
    let failures := Report.failureCount (← reportEach options paths)
    if failures = 0 then return 0
    IO.eprint (Report.summary failures paths.length)
    return 1
