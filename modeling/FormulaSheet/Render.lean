/-
  Rendering: elements as formulas.

  An element is written inside a parent and under a scope.  The scope holds a
  frame for every call that is being replaced by the body of its function, the
  innermost first; only the innermost frame binds names, and an argument is
  written under the scope of its call.  A call of a function that is being
  replaced already stays a call.

  * `renderWithin` is bounded by the depth of the recursion and gives no answer
    beyond it.  `depthBound` is enough for every rendering that ends: what is
    still to be written depends only on an element and on a chain of calls of
    different functions, so a longer recursion repeats itself.
  * `renderElement` writes one element, `Script.render` one line per statement.
-/
import FormulaSheet.Render.Variable
import FormulaSheet.Script
import FormulaSheet.Text.Alphanumeric

namespace FormulaSheet.Render

/-! ## Scopes -/

/-- A call that is being replaced by the body of its function. -/
structure Frame where
  function : ElementId
  /-- The parameters with their arguments. -/
  bindings : List (String × ElementId)
  deriving DecidableEq, Repr, Inhabited

/-- The calls that are being replaced, the innermost first. -/
abbrev Scope := List Frame

/-- The argument of the first parameter with the given name. -/
def Frame.argument? (frame : Frame) (name : String) : Option ElementId :=
  (frame.bindings.find? fun binding => binding.1 == name).map Prod.snd

/-- The argument a name stands for, and the scope it is written under. -/
def Scope.argument? (scope : Scope) (name : String) : Option (ElementId × Scope) :=
  match scope with
  | [] => none
  | frame :: outer => (frame.argument? name).map fun argument => (argument, outer)

/-- Whether a function is being replaced. -/
def Scope.holds (scope : Scope) (function : ElementId) : Bool :=
  scope.any fun frame => frame.function == function

/-- A character of a word in pass-through text. -/
def isWordPart (c : Char) : Bool :=
  Text.isAlphanumeric c || c == '_' || c == '.'

/-- The words of a text, also the empty ones between two separators. -/
def words : List Char → List (List Char)
  | [] => [[]]
  | c :: cs => if isWordPart c then (words cs).modifyHead (c :: ·) else [] :: words cs

/-- The first word of a text that is bound in the innermost frame. -/
def Scope.mentioned? (scope : Scope) (raw : String) : Option String :=
  match scope with
  | [] => none
  | frame :: _ =>
    ((words raw.toList).map String.ofList).find? fun word =>
      frame.bindings.any fun binding => binding.1 == word

/-! ## Elements -/

/-- Computations that write: they note events, can stop with a fault, and have
    no result if they do not end. -/
abbrev Rendering := ExceptT RenderFault (StateT Log Option)

/-- How an element is written inside a parent and under a scope. -/
abbrev Renderer := ElementId → Option ElementId → Scope → Rendering String

/-- Note an event. -/
def note (e : Event) : Rendering Unit :=
  modify fun log => log.push e

/-- No result. -/
def endless {α : Type} : Rendering α :=
  ExceptT.mk fun _ => none

/-- Some elements with a separator between neighbours. -/
def renderList (render : Renderer) (separator : String) (parent : ElementId) (scope : Scope)
    (ids : List ElementId) : Rendering String := do
  return separator.intercalate (← ids.mapM (render · (some parent) scope))

/-- An operand, if there is one. -/
def renderOperand (render : Renderer) (parent : ElementId) (scope : Scope) :
    Option ElementId → Rendering (Option String)
  | none => return none
  | some id => return some (← render id (some parent) scope)

/-- A text that an operator needs. -/
def needed (operator : String) : Option String → Rendering String
  | some text => return text
  | none => throw (.missingOperand operator)

/-- An operator with its operands written; a binary one in parentheses if
    `nested`. -/
def writeOperator (style : Style) (symbol : String) (role : Role) (nested : Bool)
    (first second : Option String) : Rendering String := do
  if symbol = "/" then
    return "\\frac\x7b" ++ first.getD "" ++ "\x7d\x7b" ++ second.getD "" ++ "\x7d"
  let written := style.symbol symbol
  match role with
  | .binary =>
    let text := (← needed symbol first) ++ " " ++ written ++ " " ++ (← needed symbol second)
    return if nested then "(" ++ text ++ ")" else text
  | .function => return written ++ "(" ++ (← needed symbol first) ++ ")"
  | .sign => return written ++ (← needed symbol first)

/-- The cells of a row from left to right.  Those of an array literal are in this
    order already. -/
def rowCells (cells : List Cell) (row : Nat) : List Cell :=
  let found := cells.filter fun cell => cell.row == row
  if found.Pairwise fun a b => a.col ≤ b.col then found
  else found.mergeSort fun a b => a.col ≤ b.col

/-- The number of rows of an array. -/
def rowCount (cells : List Cell) : Nat :=
  cells.foldl (fun rows cell => max rows (cell.row + 1)) 0

/-- An array, row by row. -/
def renderArray (render : Renderer) (environment : Matrix) (id : ElementId) (scope : Scope)
    (cells : List Cell) : Rendering String := do
  let rows ← (List.range (rowCount cells)).mapM fun row =>
    renderList render "&" id scope ((rowCells cells row).map Cell.value)
  return "\\begin\x7b" ++ environment.name ++ "\x7d" ++ "\\\\".intercalate rows ++
    "\\end\x7b" ++ environment.name ++ "\x7d"

/-- The parameters of a function with the arguments of a call. -/
def bind (s : Store) (parameters arguments : List ElementId) : List (String × ElementId) :=
  (parameters.filterMap fun id => (s.kind id).name?).zip arguments

/-- A call: the body of its function, or `name(…)` if inlining is off or the
    function is being replaced already. -/
def renderCall (script : Script) (inlining : Bool) (render : Renderer) (id function : ElementId)
    (arguments : List ElementId) (parent : Option ElementId) (scope : Scope) :
    Rendering String := do
  let raw := (script.store.get id).raw
  match script.store.kind function with
  | .function parameters body =>
    if !inlining || scope.holds function then
      match script.declaredName? function with
      | none => throw (.undeclaredFunction raw)
      | some name => return name ++ "(" ++ (← renderList render ", " id scope arguments) ++ ")"
    else
      match body with
      | none => throw .missingBody
      | some body =>
        note (.inlined raw)
        render body parent (⟨function, bind script.store parameters arguments⟩ :: scope)
  | _ => throw (.notAFunction raw)

/-- One element; `render` writes what is below it. -/
def renderNode (script : Script) (options : RenderOptions) (render : Renderer) : Renderer :=
  fun id parent scope => do
    let e := script.store.get id
    match e.kind with
    | .blank => return options.style.mediumSkip
    | .name name =>
      match scope.argument? name with
      | some (argument, outer) => render argument parent outer
      | none => return formatVariable options.style name
    | .value text => return text
    | .operator symbol role first second =>
      let first ← renderOperand render id scope first
      let second ← renderOperand render id scope second
      let nested := parent.any fun p => (script.store.kind p).isOperator
      writeOperator options.style symbol role nested first second
    | .array cells => renderArray render options.style.matrix id scope cells
    | .access target indexes =>
      -- Names in an access are names of arrays, not of parameters.
      let target ← render target (some id) []
      return target ++ "(" ++ (← renderList render "," id [] indexes) ++ ")"
    | .function _ none => throw .missingBody
    | .function parameters (some body) =>
      let parameters ← renderList render "," id scope parameters
      return "@(" ++ parameters ++ ") " ++ (← render body (some id) scope)
    | .call function arguments =>
      renderCall script options.inlining render id function arguments parent scope
    | .declaration target content _ =>
      let target ← render target (some id) scope
      return target ++ " = " ++ (← render content (some id) scope)
    | .error fault _ => return e.raw ++ " -- " ++ fault.message
    | .passThrough =>
      if let some parameter := scope.mentioned? e.raw then
        note (.unsubstituted e.line e.raw parameter)
      return e.raw
    | .assignment | .delimiter _ _ | .semicolon | .comma | .functionMarker => return e.raw

/-- An element, with a bounded depth of recursion. -/
def renderWithin (script : Script) (options : RenderOptions) : (depth : Nat) → Renderer
  | 0 => fun _ _ _ => endless
  | depth + 1 => renderNode script options (renderWithin script options depth)

/-- A depth that every rendering that ends stays below: the number of elements
    times the number of chains of calls of different functions. -/
def depthBound (s : Store) : Nat :=
  let calls := s.elements.countP fun e => e.kind matches .call ..
  let functions := s.elements.countP fun e => e.kind matches .function ..
  s.size * (calls + 1).pow functions + 1

/-! ## Lines -/

/-- One element.  An element without owner is a statement and becomes a line of
    its own. -/
def renderElement (script : Script) (options : RenderOptions) (id : ElementId) :
    Rendering String := do
  let e := script.store.get id
  let text ← renderWithin script options (depthBound script.store) id e.owner []
  match e.owner, e.kind with
  | none, .blank => return text
  | none, _ => return options.style.topLevel text
  | some _, _ => return text

/-- The line of a statement; the faulty line if it cannot be written. -/
def renderStatement (script : Script) (options : RenderOptions) (id : ElementId) :
    StateT Log Option String := do
  match ← (renderElement script options id).run with
  | .ok text => return text
  | .error fault =>
    modify fun log => log.push (.unrendered (script.store.get id).line fault)
    return options.style.faultyLine

end FormulaSheet.Render

namespace FormulaSheet

/-- One line per statement and the log of writing them; none if a rendering
    does not end. -/
def Script.renderLog (script : Script) (options : RenderOptions) : Option (List String × Log) :=
  (script.statements.mapM (Render.renderStatement script options)).run #[]

/-- One line per statement; none if a rendering does not end. -/
def Script.render (script : Script) (options : RenderOptions) : Option (List String) :=
  (script.renderLog options).map Prod.fst

end FormulaSheet
