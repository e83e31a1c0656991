/-
  The right-hand side of a declaration.

  * `buildFunction` reads an anonymous function.  Its node exists before its
    body is read, so the body can call the function itself and index its
    parameters.  A body that does not reduce becomes an error element, and the
    function is still built.
  * `declarationValue` tells the three forms of a declaration apart: a function
    after `@`, an array if the whole right-hand side is one literal, and a term
    otherwise.
-/
import FormulaSheet.Term.Reduce

namespace FormulaSheet.Term

open Building

/-- Give a function its body. -/
def giveBody (function body : ElementId) : Building Unit :=
  alter function fun e =>
    match e.kind with
    | .function parameters _ => { e with kind := .function parameters (some body), sealed := true }
    | _ => { e with sealed := true }

/-- Read the body of a function with the given parameter list. -/
def buildFunctionBody (c : Context) (name : String) (inner body : List ElementId) :
    Building ElementId := do
  let s ← store
  let parameters := inner.filter fun id => (s.kind id).name?.isSome
  let names := inner.filterMap fun id => (s.kind id).name?
  let function ← build
    { kind := .function parameters none
      raw := "@(" ++ ",".intercalate names ++ ")"
      line := c.line }
  if let first :: _ := body then
    openWithSign first
  let body ← reduceOrError { c with function := some ⟨name, function, names⟩ } body
  giveBody function body
  return function

/-- Read an anonymous function from the elements after its `@`. -/
def buildFunction (c : Context) (name : String) (elements : List ElementId) :
    Reducing ElementId := do
  let s ← store
  match elements with
  | [] => throw .expectedParameterList
  | first :: rest =>
    if s.kind first = .delimiter .parenthesis .opening then
      match splitClosing? s .parenthesis 0 rest with
      | none => throw (.unmatched .parenthesis)
      | some (inner, body) => buildFunctionBody c name inner body
    else throw .expectedParameterList

/-- The inside of an array literal, if the elements are nothing else. -/
def wholeArray? (s : Store) : List ElementId → Option (List ElementId)
  | [] => none
  | first :: rest =>
    if s.kind first = .delimiter .bracket .opening then
      match splitClosing? s .bracket 0 rest with
      | some (inner, []) => some inner
      | _ => none
    else none

/-- The value of a declaration and its form, or why there is none. -/
def readValue (c : Context) (name : String) (rhs : List ElementId) :
    Reducing (ElementId × Form) := do
  let s ← store
  match rhs with
  | [] => throw .missingValue
  | first :: rest =>
    if s.kind first = .functionMarker then
      return (← buildFunction c name rest, .function)
    else
      match wholeArray? s rhs with
      | some inner => return (← buildArray c inner, .array)
      | none => return (← reduce c rhs, .plain)

/-- The value of `name = rhs` and the form of the declaration; a right-hand side
    with a fault becomes an error element. -/
def declarationValue (c : Context) (name : String) (rhs : List ElementId) :
    Building (ElementId × Form) := do
  match ← (readValue c name rhs).run with
  | .ok value => return value
  | .error fault =>
    release rhs
    return (← buildError c fault rhs, .plain)

end FormulaSheet.Term
