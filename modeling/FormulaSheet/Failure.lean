/-
  Why a conversion fails.

  * `FileFault` is what a file system answers instead of a file.
  * `Failure` is what a command reports: `headline` says what could not be
    done, `cause?` why; `summary` puts both on one line and `report` is the
    form in which a command ends.
-/
import FormulaSheet.LogicalLine
import FormulaSheet.Template

namespace FormulaSheet

/-- Why a file cannot be read or written. -/
inductive FileFault where
  | notFound
  | notADirectory
  | isADirectory
  /-- The bytes of the file are not text. -/
  | notText
  /-- Another error of the system. -/
  | system (description : String) (code : Nat)
  deriving DecidableEq, Repr, Inhabited

/-- The wording of a file fault. -/
def FileFault.message : FileFault → String
  | notFound => "No such file or directory (os error 2)"
  | notADirectory => "Not a directory (os error 20)"
  | isADirectory => "Is a directory (os error 21)"
  | notText => "stream did not contain valid UTF-8"
  | system description code => s!"{description} (os error {code})"

/-- Why a command fails. -/
inductive Failure where
  | unreadableFile (path : String) (fault : FileFault)
  | unreadableDirectory (path : String) (fault : FileFault)
  | unterminatedArray (path : String) (array : UnterminatedArray)
  /-- The rendering of a file does not come to an end. -/
  | endlessRendering (path : String)
  | missingMarker (cause : Template.MissingMarker)
  | unwritableFile (path : String) (fault : FileFault)
  /-- Some files of a directory were not converted. -/
  | incomplete (failed total : Nat)
  deriving DecidableEq, Repr, Inhabited

namespace Failure

/-- What could not be done. -/
def headline : Failure → String
  | unreadableFile path _ => s!"failed to read `{path}`"
  | unreadableDirectory path _ => s!"failed to read directory `{path}`"
  | unterminatedArray path _ => s!"failed to parse `{path}`"
  | endlessRendering path => s!"failed to render `{path}`"
  | missingMarker cause => cause.message
  | unwritableFile path _ => s!"failed to write `{path}`"
  | incomplete failed total => s!"{failed} of {total} files could not be converted"

/-- Why, if there is more to say. -/
def cause? : Failure → Option String
  | unreadableFile _ fault | unreadableDirectory _ fault | unwritableFile _ fault =>
    some fault.message
  | unterminatedArray _ array => some array.message
  | endlessRendering _ => some "an inlined function calls itself in an index"
  | missingMarker _ | incomplete _ _ => none

/-- Headline and cause on one line. -/
def summary (failure : Failure) : String :=
  match failure.cause? with
  | some cause => failure.headline ++ ": " ++ cause
  | none => failure.headline

/-- The last words of a command that fails. -/
def report (failure : Failure) : String :=
  match failure.cause? with
  | some cause => "Error: " ++ failure.headline ++ "\n\nCaused by:\n    " ++ cause ++ "\n"
  | none => "Error: " ++ failure.headline ++ "\n"

end Failure

end FormulaSheet
