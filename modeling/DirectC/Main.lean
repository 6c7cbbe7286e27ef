/-
# The program

Runs the command line on the files of the system.
-/
import DirectC.CommandLine

namespace DirectC

/-- The text of a byte string. One that is not valid is read byte by byte. -/
def textOf (b : Bytes) : String :=
  (String.fromUTF8? b.toByteArray).getD (String.ofList (b.map fun c => Char.ofNat c.toNat))

/-- Why the system refused. -/
def causeOf : IO.Error → FileError.Cause
  | .noFileOrDirectory .. => .missing
  | .inappropriateType _ _ details =>
    if details == "Is a directory" then .isDirectory else .notDirectory
  | .invalidArgument .. => .invalid
  | e => .other (Bytes.ofString (toString e))

/-- Runs an action on a path and says what was refused. A directory can be opened for reading, so
it is refused only when it is read. -/
def attempt {α : Type} (reading : Bool) (path : Bytes) (act : IO α) :
    IO (Except FileError α) := do
  try
    return .ok (← act)
  catch e =>
    let cause := causeOf e
    return .error ⟨if reading && cause == .isDirectory then "read" else "open", path, cause⟩

/-- Read, write and run for the owner, read and run for everyone else. -/
def executableRights : IO.FileRight where
  user := { read := true, write := true, execution := true }
  group := { read := true, execution := true }
  other := { read := true, execution := true }

/-- Access to the files of the system. -/
def systemFiles : Files IO where
  read path := attempt true path do
    return (← IO.FS.readBinFile (textOf path)).data.toList
  isFile path := do
    match ← attempt true path (IO.FS.readBinFile (textOf path)) with
    | .ok _ => return true
    | .error e => return e.cause matches .other _
  write path contents := attempt false path do
    IO.FS.writeBinFile (textOf path) contents.toByteArray
    IO.setAccessRights (textOf path) executableRights

end DirectC

/-- Runs the compiler. -/
def main (args : List String) : IO UInt32 := do
  let outcome ← DirectC.CommandLine.run DirectC.systemFiles (args.map DirectC.Bytes.ofString)
  (← IO.getStdout).write outcome.stdout.toByteArray
  (← IO.getStderr).write outcome.stderr.toByteArray
  return outcome.exitCode.toUInt32
