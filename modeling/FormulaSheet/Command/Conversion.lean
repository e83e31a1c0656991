/-
  Converting scripts into documents.

  * `Converter.document` is the document of a script, without any file: the
    script less its declarations block, read, rendered, and spliced into the
    template.
  * `FileAccess` is what a conversion needs of its surroundings.
    `convertFile` writes one document; `convertDirectory` goes through the
    scripts of a directory in the order of their names and goes on after a
    failure; `convert` runs a whole job.
-/
import FormulaSheet.Command.Arguments
import FormulaSheet.Path
import FormulaSheet.Render
import FormulaSheet.Text.Lines

namespace FormulaSheet.Command

/-- What every conversion of a run shares. -/
structure Converter where
  template : List String
  tag : String
  options : RenderOptions
  deriving DecidableEq, Repr, Inhabited

namespace Converter

/-- The converter of a run with the given template text. -/
def ofOptions (o : Options) (template : String) : Converter where
  template := Text.lines template
  tag := o.tag
  options := { inlining := o.inlining, style := { matrix := o.matrix } }

/-- The event of lines that are left out. -/
def leftOutEvents (source : String) (block : DeclarationsBlock) : Log :=
  if block.declarations.isEmpty then #[] else #[.leftOut source block.declarations.length]

/-- The document of a script and the log of making it; `source` names the script
    in messages. -/
def document (c : Converter) (source text : String) : Except Failure String × Log :=
  let block := DeclarationsBlock.extract c.tag (Text.lines text)
  let log := block.events ++ leftOutEvents source block
  let (parsed, readLog) := Script.read {} block.remaining
  let log := log ++ readLog
  match parsed with
  | .error array => (.error (.unterminatedArray source array), log)
  | .ok script =>
    match script.renderLog c.options with
    | none => (.error (.endlessRendering source), log)
    | some (lines, renderLog) =>
      let log := log ++ renderLog
      match Template.splice c.template lines with
      | .error cause => (.error (.missingMarker cause), log)
      | .ok document => (.ok (Text.document document), log)

end Converter

/-- What a conversion needs of its surroundings. -/
structure FileAccess (m : Type → Type) where
  /-- The contents of a file. -/
  read : String → m (Except FileFault ByteArray)
  /-- Replace or create a file. -/
  write : String → ByteArray → m (Except FileFault Unit)
  /-- The names of the files in a directory. -/
  list : String → m (Except FileFault (List String))
  /-- Tell an event. -/
  report : Event → m Unit

section

variable {m : Type → Type} [Monad m] (files : FileAccess m)

/-- The text of a file. -/
def readText (path : String) : ExceptT Failure m String := do
  match ← files.read path with
  | .error fault => throw (.unreadableFile path fault)
  | .ok bytes =>
    match String.fromUTF8? bytes with
    | some text => return text
    | none => throw (.unreadableFile path .notText)

/-- Write the document of one script. -/
def convertFile (c : Converter) (source output : String) : ExceptT Failure m Unit := do
  let text ← readText files source
  let (result, log) := c.document source text
  log.toList.forM fun event => files.report event
  match result with
  | .error failure => throw failure
  | .ok document =>
    match ← files.write output document.toUTF8 with
    | .error fault => throw (.unwritableFile output fault)
    | .ok () => files.report (.converted source output)

/-- The scripts of a directory in order: the paths of its files with extension
    `m`. -/
def sources (directory : String) (names : List String) : List String :=
  ((names.filter fun name => Path.extension? name == some "m").mergeSort
    fun a b => !decide (b < a)).map (Path.join directory)

/-- The path of the document of a script. -/
def outputOf (source : String) : String :=
  Path.withExtension "tex" source

/-- Convert some scripts, each into the document next to it; the number of those
    that fail. -/
def convertEach (c : Converter) : List String → m Nat
  | [] => return 0
  | source :: sources => do
    let result ← (convertFile files c source (outputOf source)).run
    match result with
    | .ok () => convertEach c sources
    | .error failure =>
      files.report (.unconverted failure)
      return (← convertEach c sources) + 1

/-- Convert the scripts of a directory. -/
def convertDirectory (c : Converter) (directory : String) : ExceptT Failure m Unit := do
  match ← files.list directory with
  | .error fault => throw (.unreadableDirectory directory fault)
  | .ok names =>
    let scripts := sources directory names
    let failed ← (convertEach files c scripts : m Nat)
    if failed > 0 then
      throw (.incomplete failed scripts.length)

/-- Run a job. -/
def convert (o : Options) : ExceptT Failure m Unit := do
  let c := Converter.ofOptions o (← readText files o.template)
  match o.job with
  | .directory directory => convertDirectory files c directory
  | .file source output => convertFile files c source (output.getD (outputOf source))

end

end FormulaSheet.Command
