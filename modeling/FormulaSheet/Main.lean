/-
  The command line on the files of the machine.
-/
import FormulaSheet.Command.Run

namespace FormulaSheet

/-- A file fault by the code the system gives it; some codes come negated. -/
def FileFault.ofCode (code : UInt32) (description : String) : FileFault :=
  match min code.toNat (-code).toNat with
  | 2 => .notFound
  | 20 => .notADirectory
  | 21 => .isADirectory
  | other => .system description other

/-- What the system answers instead of a file. -/
def FileFault.ofError : IO.Error → FileFault
  | .noFileOrDirectory _ code details | .inappropriateType _ code details
  | .permissionDenied _ code details | .invalidArgument _ code details
  | .resourceExhausted _ code details | .alreadyExists _ code details
  | .otherError code details | .hardwareFault code details
  | .unsupportedOperation code details | .resourceBusy code details => .ofCode code details
  | other => .system (toString other) 0

/-- The result of an action on files. -/
def attempt {α : Type} (action : IO α) : IO (Except FileFault α) := do
  match ← action.toBaseIO with
  | .ok value => return .ok value
  | .error error => return .error (.ofError error)

/-- The names of the files in a directory. -/
def listFiles (path : String) : IO (List String) := do
  let directory : IO.FS.DirEntry := { root := path, fileName := "." }
  let entries ← directory.root.readDir
  let files ← entries.filterM fun entry => do
    match ← entry.path.metadata.toBaseIO with
    | .ok metadata => return metadata.type == .file
    | .error _ => return false
  return files.toList.map fun entry => entry.fileName

/-- Conversions on the files of the machine, with a log up to a level. -/
def machineAccess (level : Level) : Command.FileAccess IO where
  read path := attempt (IO.FS.readBinFile path)
  write path bytes := attempt (IO.FS.writeBinFile path bytes)
  list path := attempt (listFiles path)
  report event := do
    if event.level.rank ≤ level.rank then
      IO.eprint event.logEntry

end FormulaSheet

open FormulaSheet in
/-- Run the command line. -/
def main (arguments : List String) : IO UInt32 := do
  match Command.readArguments arguments with
  | .error error =>
    IO.eprint (Command.usageText error)
    return 2
  | .ok .help =>
    IO.print Command.helpText
    return 0
  | .ok .version =>
    IO.print Command.versionText
    return 0
  | .ok (.convert options) =>
    match ← (Command.convert (machineAccess options.level) options).run with
    | .ok () => return 0
    | .error failure =>
      IO.eprint failure.report
      return 1
