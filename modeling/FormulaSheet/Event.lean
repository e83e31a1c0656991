/-
  The log: what a run has to tell besides its results.

  An `Event` is a fact; its `level`, `target` and `message` are what the log
  shows of it.  Events are collected in the order in which they happen, and
  `Log.upTo` picks those of a level or a more severe one.
-/
import FormulaSheet.Fault
import FormulaSheet.Render.Fault
import FormulaSheet.Failure
import FormulaSheet.Text.Quoted
import FormulaSheet.Text.ControlSequence

namespace FormulaSheet

/-- How much an event matters. -/
inductive Level where
  | error
  | warn
  | info
  | debug
  | trace
  deriving DecidableEq, Repr, Inhabited

namespace Level

/-- The name of a level in the log. -/
def name : Level → String
  | error => "ERROR"
  | warn => "WARN"
  | info => "INFO"
  | debug => "DEBUG"
  | trace => "TRACE"

/-- The most severe level comes first. -/
def rank : Level → Nat
  | error => 0
  | warn => 1
  | info => 2
  | debug => 3
  | trace => 4

end Level

/-- The facts of a run. -/
inductive Event where
  /-- Physical lines were joined. -/
  | joinedLines (first last : Nat)
  /-- A declarations block was found. -/
  | foundBlock (first last : Nat)
  /-- A logical line is about to be read. -/
  | readLine (line : Nat) (text : String)
  /-- A token could not be classified. -/
  | unclassified (line : Nat) (fault : Fault)
  /-- A term could not be reduced. -/
  | unreduced (line : Nat) (fault : Fault)
  /-- A declared function is called. -/
  | called (line : Nat) (name : String)
  /-- A call of an undeclared name is kept as text. -/
  | passedThrough (line : Nat) (name : String)
  /-- A name was declared before. -/
  | redeclared (line : Nat) (name : String)
  /-- A script has been read. -/
  | readScript (statements declarations : Nat)
  /-- A call is replaced by the body of its function. -/
  | inlined (call : String)
  /-- A parameter occurs in text that is kept as it is. -/
  | unsubstituted (line : Nat) (raw parameter : String)
  /-- A statement cannot be written. -/
  | unrendered (line : Nat) (fault : RenderFault)
  /-- Lines of a file are left out. -/
  | leftOut (source : String) (count : Nat)
  /-- A file has been converted. -/
  | converted (source output : String)
  /-- A file of a directory could not be converted. -/
  | unconverted (failure : Failure)
  deriving DecidableEq, Repr, Inhabited

namespace Event

/-- How much an event matters. -/
def level : Event → Level
  | unconverted _ => .error
  | unclassified .. | unreduced .. | unrendered .. => .warn
  | leftOut .. | converted .. => .info
  | foundBlock .. | passedThrough .. | redeclared .. | readScript .. | unsubstituted .. => .debug
  | joinedLines .. | readLine .. | called .. | inlined _ => .trace

/-- The part of the program the log names for an event. -/
def target : Event → String
  | joinedLines .. => "parse::line_collapser"
  | foundBlock .. => "parse::declarations_block"
  | unclassified .. => "parse::classifier"
  | unreduced .. | called .. | passedThrough .. => "parse::term_reducer"
  | readLine .. | redeclared .. | readScript .. => "parse::expression_file"
  | inlined _ | unsubstituted .. | unrendered .. => "render::latex"
  | leftOut .. | converted .. | unconverted _ => "labtotex"

/-- The wording of an event. -/
def message : Event → String
  | joinedLines first last => s!"collapsing lines {first}..={last}"
  | foundBlock first last => s!"declarations block on lines {first}..={last}"
  | readLine line text => s!"line {line}: " ++ Text.quote text
  | unclassified line fault | unreduced line fault => s!"line {line}: " ++ fault.message
  | called line name => s!"line {line}: call to '{name}'"
  | passedThrough line name => s!"line {line}: '{name}' is not declared, passing it through"
  | redeclared line name => s!"line {line}: '{name}' is already declared, keeping the first"
  | readScript statements declarations =>
    s!"parsed {statements} statements, {declarations} declarations"
  | inlined call => s!"inlining '{call}'"
  | unsubstituted line raw parameter =>
    s!"line {line}: '{raw}' is written as is, '{parameter}' is not substituted in it"
  | unrendered line fault => s!"line {line}: " ++ fault.message
  | leftOut source count => s!"{source}: leaving out {count} declaration lines"
  | converted source output => s!"{source} -> {output}"
  | unconverted failure => failure.summary

/-- A text whose lines after the first are set in by four columns. -/
def indentRest (text : String) : String :=
  String.ofList (text.toList.flatMap fun c => if c = '\n' then "\n    ".toList else [c])

/-- An event as an entry of the log; the level takes up five columns.  An entry
    gives a terminal no orders, whatever the names in its message hold. -/
def logEntry (e : Event) : String :=
  let name := e.level.name
  let columns := String.ofList (List.replicate (5 - name.length) ' ')
  Text.withoutControls <|
    "[" ++ name ++ columns ++ " " ++ e.target ++ "] " ++ indentRest e.message ++ "\n"

end Event

/-- Events in the order in which they happened. -/
abbrev Log := Array Event

/-- The events of a level or a more severe one. -/
def Log.upTo (log : Log) (level : Level) : List Event :=
  log.toList.filter fun e => e.level.rank ≤ level.rank

end FormulaSheet
