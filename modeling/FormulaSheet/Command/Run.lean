/-
  Running a command line on a file tree.

  * `treeAccess` lets a conversion work on a file tree.
  * `execute` is all that a conversion does to a tree: what it prints, its exit
    code, and the tree afterwards.  `run` does so for a command line; one that is
    refused changes nothing.
-/
import FormulaSheet.Command.Conversion
import FormulaSheet.FileTree

namespace FormulaSheet.Command

/-- A file tree and what has been reported. -/
structure World where
  tree : FileTree
  log : Log := #[]
  deriving Inhabited

/-- Conversions on a file tree. -/
def treeAccess : FileAccess (StateM World) where
  read path := return (← get).tree.read path
  write path bytes := do
    match (← get).tree.write path bytes with
    | .error fault => return .error fault
    | .ok tree =>
      modify fun world => { world with tree }
      return .ok ()
  list path := return (← get).tree.list path
  report event := modify fun world => { world with log := world.log.push event }

/-- What a run leaves behind. -/
structure Outcome where
  exitCode : Nat
  stdout : String := ""
  stderr : String := ""
  tree : FileTree
  deriving Inhabited

/-- The text of a version request. -/
def versionText : String :=
  "labtotex 0.1.0\n"

/-- The text of a help request. -/
def helpText : String :=
  Text.document
    ["Writes the formulas of a MATLAB script into a LaTeX template",
     "",
     "Usage: labtotex [OPTIONS] --template <TEMPLATE> [SOURCE]",
     "",
     "Arguments:",
     "  [SOURCE]  Script to convert",
     "",
     "Options:",
     "  -d, --directory <DIRECTORY>",
     "          Convert every `.m` file in this directory into a `.tex` file next to it",
     "  -t, --template <TEMPLATE>",
     "          LaTeX document containing a `%labtotextstart` line",
     "  -o, --output <OUTPUT>",
     "          Defaults to the source path with a `.tex` extension",
     "      --no-inline",
     "          Write calls to anonymous functions as calls",
     "      --matrix <MATRIX>",
     "          bmatrix, pmatrix, vmatrix or matrix [default: bmatrix]",
     "      --declarations-tag <TAG>",
     "          Lines between `% begin - <TAG>` and `% end` are left out [default: labtotex]",
     "  -v, --verbose...",
     "          Log more, repeat for even more",
     "  -h, --help",
     "          Print help",
     "  -V, --version",
     "          Print version"]

/-- What a refused command line prints. -/
def usageText (error : UsageError) : String :=
  "error: " ++ error.message ++ "\n\nFor more information, try '--help'.\n"

/-- The log lines a run prints. -/
def logText (level : Level) (log : Log) : String :=
  String.join ((log.upTo level).map Event.logEntry)

/-- Do what the options of a command line ask for. -/
def execute (tree : FileTree) (options : Options) : Outcome :=
  let (result, world) := (convert treeAccess options).run.run { tree }
  let log := logText options.level world.log
  match result with
  | .ok () => { exitCode := 0, stderr := log, tree := world.tree }
  | .error failure => { exitCode := 1, stderr := log ++ failure.report, tree := world.tree }

/-- Run a command line on a file tree. -/
def run (tree : FileTree) (arguments : List String) : Outcome :=
  match readArguments arguments with
  | .error error => { exitCode := 2, stderr := usageText error, tree }
  | .ok .help => { exitCode := 0, stdout := helpText, tree }
  | .ok .version => { exitCode := 0, stdout := versionText, tree }
  | .ok (.convert options) => execute tree options

end FormulaSheet.Command
