import SpecTranspiler.Command.Run

/-!
# The command line program
-/

namespace SpecTranspiler

/-- The cause of a failed access to a file. -/
def FileError.ofIOError : IO.Error → FileError
  | .noFileOrDirectory .. => .notFound
  | .inappropriateType .. => .isDirectory
  | error => .other (toString error)

instance : MonadFiles IO where
  readFile path := do
    try
      return .ok (← IO.FS.readBinFile path)
    catch error => return .error (.ofIOError error)
  writeFile path content := do
    try
      IO.FS.writeBinFile path content
      return .ok ()
    catch error => return .error (.ofIOError error)

end SpecTranspiler

/-- Run the command on its arguments. -/
def main (arguments : List String) : IO UInt32 := do
  let report ← SpecTranspiler.runCommand arguments
  IO.print report.stdout
  IO.eprint report.stderr
  return report.exitCode.toUInt32
