/-
  The arguments of the command line.

  * Options have a long name, some a short one; values follow as the next
    argument, after `=`, or right after a short name.  Short flags can be
    grouped.  `--` ends the options, a lone `-` is an ordinary argument.
  * `Given` collects what the arguments say, in order; only the verbosity may
    be repeated.  `readArguments` stops at the first argument that asks for the
    version or for help, or that is wrong.
  * `Given.options` checks what is required and what excludes each other.
-/
import FormulaSheet.DeclarationsBlock
import FormulaSheet.Event
import FormulaSheet.Style

namespace FormulaSheet.Command

/-- What a run converts. -/
inductive Job where
  /-- One script, and where its document goes. -/
  | file (source : String) (output : Option String)
  /-- All scripts of a directory. -/
  | directory (path : String)
  deriving DecidableEq, Repr, Inhabited

/-- What the arguments of a run ask for. -/
structure Options where
  job : Job
  template : String
  inlining : Bool := true
  matrix : Matrix := .bmatrix
  tag : String := DeclarationsBlock.defaultTag
  verbosity : Nat := 0
  deriving DecidableEq, Repr, Inhabited

/-- The log level of a verbosity. -/
def Options.level (o : Options) : Level :=
  match o.verbosity with
  | 0 => .warn
  | 1 => .info
  | 2 => .debug
  | _ => .trace

/-- What a command line asks for. -/
inductive Request where
  | convert (options : Options)
  | help
  | version
  deriving DecidableEq, Repr, Inhabited

/-- Options that take a value. -/
inductive Valued where
  | directory
  | template
  | output
  | matrix
  | tag
  deriving DecidableEq, Repr, Inhabited

/-- Options without a value. -/
inductive Flag where
  | noInline
  | verbose
  | help
  | version
  deriving DecidableEq, Repr, Inhabited

/-- An option. -/
inductive Switch where
  | valued (option : Valued)
  | flag (flag : Flag)
  deriving DecidableEq, Repr, Inhabited

/-- The option of a long name. -/
def Switch.ofLong? : String → Option Switch
  | "directory" => some (.valued .directory)
  | "template" => some (.valued .template)
  | "output" => some (.valued .output)
  | "matrix" => some (.valued .matrix)
  | "declarations-tag" => some (.valued .tag)
  | "no-inline" => some (.flag .noInline)
  | "verbose" => some (.flag .verbose)
  | "help" => some (.flag .help)
  | "version" => some (.flag .version)
  | _ => none

/-- The option of a short name. -/
def Switch.ofShort? : Char → Option Switch
  | 'd' => some (.valued .directory)
  | 't' => some (.valued .template)
  | 'o' => some (.valued .output)
  | 'v' => some (.flag .verbose)
  | 'h' => some (.flag .help)
  | 'V' => some (.flag .version)
  | _ => none

/-- Why a command line is refused. -/
inductive UsageError where
  | unexpected (argument : String)
  | missingValue (option : String)
  | invalidValue (value : String)
  | repeated (argument : String)
  | exclusive
  | missingSource
  | missingTemplate
  deriving DecidableEq, Repr, Inhabited

/-- The wording of a usage error. -/
def UsageError.message : UsageError → String
  | unexpected argument => s!"unexpected argument '{argument}'"
  | missingValue option => s!"a value is required for '{option}'"
  | invalidValue value => s!"invalid value '{value}'"
  | repeated argument => s!"'{argument}' cannot be used multiple times"
  | exclusive => "'--directory' cannot be used with a source or '--output'"
  | missingSource => "a source or '--directory' is required"
  | missingTemplate => "'--template' is required"

/-- What the arguments so far say. -/
structure Given where
  source : Option String := none
  directory : Option String := none
  template : Option String := none
  output : Option String := none
  noInline : Bool := false
  matrix : Option Matrix := none
  tag : Option String := none
  verbosity : Nat := 0
  deriving DecidableEq, Repr, Inhabited

namespace Given

/-- A value for an option that has none yet. -/
def once {α : Type} (old : Option α) (name : String) (new : α) : Except UsageError (Option α) :=
  match old with
  | none => .ok (some new)
  | some _ => .error (.repeated name)

/-- A path, which must not be empty. -/
def path (name value : String) : Except UsageError String :=
  if value.isEmpty then .error (.missingValue name) else .ok value

/-- Take up an argument that belongs to no option. -/
def addSource (g : Given) (value : String) : Except UsageError Given := do
  match g.source with
  | some _ => .error (.unexpected value)
  | none => return { g with source := some (← path "source" value) }

/-- Take up the value of an option. -/
def addValue (g : Given) (option : Valued) (value : String) : Except UsageError Given :=
  match option with
  | .directory => do
    let directory ← once g.directory "directory" (← path "directory" value)
    return { g with directory }
  | .template => do
    let template ← once g.template "template" (← path "template" value)
    return { g with template }
  | .output => do
    let output ← once g.output "output" (← path "output" value)
    return { g with output }
  | .matrix =>
    match Matrix.ofName? value with
    | none => .error (.invalidValue value)
    | some m => do
      let matrix ← once g.matrix "matrix" m
      return { g with matrix }
  | .tag => do
    let tag ← once g.tag "declarations-tag" value
    return { g with tag }

/-- What the arguments ask for, all taken together. -/
def options (g : Given) : Except UsageError Options := do
  let job ← match g.directory, g.source, g.output with
    | some path, none, none => .ok (.directory path)
    | some _, _, _ => .error .exclusive
    | none, some source, output => .ok (.file source output)
    | none, none, _ => .error .missingSource
  let some template := g.template | .error .missingTemplate
  return { job
           template
           inlining := !g.noInline
           matrix := g.matrix.getD .bmatrix
           tag := g.tag.getD DeclarationsBlock.defaultTag
           verbosity := g.verbosity }

end Given

/-- What an argument leads to. -/
inductive Step where
  | next (given : Given)
  /-- The next argument is the value of an option. -/
  | awaiting (given : Given) (option : Valued)
  | stop (request : Request)
  deriving DecidableEq, Repr, Inhabited

/-- Take up an option without a value. -/
def addFlag (g : Given) : Flag → Except UsageError Step
  | .noInline =>
    if g.noInline then .error (.repeated "no-inline") else .ok (.next { g with noInline := true })
  | .verbose => .ok (.next { g with verbosity := g.verbosity + 1 })
  | .help => .ok (.stop .help)
  | .version => .ok (.stop .version)

/-- Take up `--name` or `--name=value`. -/
def addLong (g : Given) (text : List Char) : Except UsageError Step :=
  let name := String.ofList (text.takeWhile (· != '='))
  let value? : Option String :=
    match text.dropWhile (· != '=') with
    | [] => none
    | _ :: value => some (String.ofList value)
  match Switch.ofLong? name, value? with
  | some (.flag flag), none => addFlag g flag
  | some (.flag _), some _ => .error (.unexpected name)
  | some (.valued option), none => .ok (.awaiting g option)
  | some (.valued option), some value => return .next (← g.addValue option value)
  | none, _ => .error (.unexpected name)

/-- Take up a group of short options; the first one that takes a value takes
    the rest of the group, without a leading `=`, if there is a rest. -/
def addShorts (g : Given) : List Char → Except UsageError Step
  | [] => .ok (.next g)
  | c :: rest =>
    match Switch.ofShort? c with
    | none => .error (.unexpected (String.ofList (c :: rest)))
    | some (.valued option) =>
      match rest with
      | [] => .ok (.awaiting g option)
      | '=' :: value => return .next (← g.addValue option (String.ofList value))
      | value => return .next (← g.addValue option (String.ofList value))
    | some (.flag flag) =>
      match addFlag g flag with
      | .ok (.next g) => addShorts g rest
      | other => other

/-- Whether an argument can stand without an option before it. -/
def isOrdinary (argument : String) : Bool :=
  match argument.toList with
  | '-' :: _ :: _ => false
  | _ => true

/-- Take up one argument. -/
def addArgument (g : Given) (argument : String) : Except UsageError Step :=
  match argument.toList with
  | '-' :: '-' :: text => addLong g text
  | '-' :: c :: shorts => addShorts g (c :: shorts)
  | _ => return .next (← g.addSource argument)

/-- What all arguments ask for, after those that gave `g`. -/
def readFrom (g : Given) : List String → Except UsageError Request
  | [] => return .convert (← g.options)
  | "--" :: rest => do
    let g ← rest.foldlM Given.addSource g
    return .convert (← g.options)
  | argument :: rest => do
    match ← addArgument g argument, rest with
    | .next g, rest => readFrom g rest
    | .stop request, _ => return request
    | .awaiting _ _, [] => .error (.missingValue argument)
    | .awaiting g option, value :: rest =>
      if isOrdinary value then readFrom (← g.addValue option value) rest
      else .error (.missingValue argument)

/-- What the arguments of a command line ask for. -/
def readArguments (arguments : List String) : Except UsageError Request :=
  readFrom {} arguments

end FormulaSheet.Command
