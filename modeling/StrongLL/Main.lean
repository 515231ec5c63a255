import StrongLL.CommandLine.Run
import StrongLL.Render.Writers

/-!
# The program

Reads the grammar from a file or from standard input, runs the request of the command line and
prints what it leaves behind.
-/

namespace StrongLL.CommandLine

set_option autoImplicit false

/-- The cause that a failure of the system stands for. -/
def SourceError.ofSystem : IO.Error → SourceError
  | .noFileOrDirectory .. => .missing
  | .inappropriateType .. => .isDirectory
  | error => .other (toString error)

/-- The text of the grammar, from a file if one is named. -/
def readSource (path : Option Text) : IO (Except SourceError Text) := do
  try
    let bytes ←
      match path with
      | some path => IO.FS.readBinFile path.string
      | none => (← IO.getStdin).readBinToEnd
    match String.fromUTF8? bytes with
    | some text => return .ok text.toList
    | none => return .error .notText
  catch error => return .error (.ofSystem error)

end StrongLL.CommandLine

open StrongLL StrongLL.CommandLine in
/-- Answers a command line. Refused arguments exit with two. -/
def main (arguments : List String) : IO UInt32 := do
  match CommandLine.read (arguments.map String.toList) with
  | .refused =>
    IO.eprintln "usage: llk-course-helper [OPTIONS] <prod|eps|lookahead|table|parse>..."
    return 2
  | .version =>
    IO.println CommandLine.version
    return 0
  | .run settings =>
    let answer := CommandLine.run .standard settings (← readSource settings.grammar)
    IO.print answer.printed.string
    IO.eprint answer.complaint.string
    return answer.exitCode.toUInt32
