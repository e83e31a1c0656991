/-
  Reducing a term: from a run of elements to one tree.

  A reduction makes three passes over the term:

  1. `collapseGroups`, left to right: groups, array accesses and calls become
     single nodes;
  2. `bindFunctions`, left to right: a function takes the element after it;
  3. `bindOperators`, right to left: a sign takes what follows, a binary
     operator its neighbours.

  There is no precedence: the operator closest to the end of the term binds
  first, so `a * b + c` is `a * (b + c)`.  One element must be left, and its
  tree must be finished (`unfinished?`).  A reduction that fails releases the
  operators of its term.
-/
import FormulaSheet.Term.Array

namespace FormulaSheet.Term

open Building

/-! ## Calls -/

/-- What `name(…)` refers to. -/
inductive Callee where
  /-- An array, or a parameter of the function whose body is read. -/
  | indexed
  | function (id : ElementId)
  /-- Nothing that can be called; the call stays text. -/
  | unresolved
  deriving DecidableEq, Repr, Inhabited

/-- What a name refers to inside the function whose body is read: a parameter
    before the function itself. -/
def calleeInside (function : Option OpenFunction) (name : String) : Callee :=
  match function with
  | none => .unresolved
  | some f =>
    if f.parameters.contains name then .indexed
    else if f.name = name then .function f.id
    else .unresolved

/-- What a name refers to; a declaration comes before the function whose body
    is read. -/
def callee (c : Context) (s : Store) (name : String) : Callee :=
  match (c.registry.get? name).map s.kind with
  | some (.declaration _ content form) =>
    match form, s.kind content with
    | .function, .function .. => .function content
    | .array, _ => .indexed
    | _, _ => .unresolved
  | _ => calleeInside c.function name

/-- Reduce the arguments of a call in order. -/
def reduceArguments (reduce : List ElementId → Reducing ElementId) (inner : List ElementId) :
    Reducing (List ElementId) := do
  (arguments (← store) inner).mapM reduce

/-- The source text of a call. -/
def callText (s : Store) (name : String) (inner : List ElementId) : String :=
  name ++ "(" ++ s.rawText "" inner ++ ")"

/-- Add the node of `name(inner)`, where `id` is the element of the name. -/
def buildCall (c : Context) (reduce : List ElementId → Reducing ElementId)
    (id : ElementId) (name : String) (inner : List ElementId) : Reducing ElementId := do
  match callee c (← store) name with
  | .indexed =>
    let indexes ← reduceArguments reduce inner
    buildNode c (.access id indexes) (callText (← store) name inner)
  | .function function =>
    let arguments ← reduceArguments reduce inner
    note (.called c.line name)
    buildNode c (.call function arguments) (callText (← store) name inner)
  | .unresolved =>
    note (.passedThrough c.line name)
    buildNode c .passThrough (callText (← store) name inner)

/-! ## The three passes -/

/-- The first pass; `done` holds the elements left of the segments, the nearest
    first. -/
def collapseGroups (c : Context) (reduce : List ElementId → Reducing ElementId) :
    (done : List ElementId) → List Segment → Reducing (List ElementId)
  | done, [] => return done.reverse
  | done, .single id :: segments => collapseGroups c reduce (id :: done) segments
  | _, .unmatched group :: _ => throw (.unmatched group)
  | done, .group .bracket inner :: segments => do
    let node ← buildArray c inner
    collapseGroups c reduce (node :: done) segments
  | [], .group .parenthesis inner :: segments => do
    let node ← reduce inner
    collapseGroups c reduce [node] segments
  | previous :: done, .group .parenthesis inner :: segments => do
    match (← store).kind previous with
    | .name name =>
      let node ← buildCall c reduce previous name inner
      collapseGroups c reduce (node :: done) segments
    | _ =>
      let node ← reduce inner
      collapseGroups c reduce (node :: previous :: done) segments

/-- The second pass. -/
def bindFunctions : List ElementId → Reducing (List ElementId)
  | [] => return []
  | [id] => do
    if ((← store).get id).pendingRole? = some .function then
      throw (← missingOperand id)
    return [id]
  | id :: next :: rest => do
    if ((← store).get id).pendingRole? = some .function then
      giveOperands id (some next) none
      let rest ← bindFunctions rest
      return id :: rest
    else
      let rest ← bindFunctions (next :: rest)
      return id :: rest

/-- The third pass; `before` holds the elements not yet visited, the last one
    first, and `after` those that have been. -/
def bindOperators : (before after : List ElementId) → Reducing (List ElementId)
  | [], after => return after
  | id :: before, after => do
    match ((← store).get id).pendingRole?, before, after with
    | some .sign, before, operand :: after =>
      giveOperands id (some operand) none
      bindOperators before (id :: after)
    | some .sign, _, [] => throw (← missingOperand id)
    | some .binary, left :: before, right :: after =>
      giveOperands id (some left) (some right)
      bindOperators before (id :: after)
    | some .binary, _, _ => throw (← missingOperand id)
    | _, before, after => bindOperators before (id :: after)
termination_by before => before.length

/-! ## Finished trees -/

/-- The first fault of a tree of at most the given depth: structure, or an
    operator without operands.  The last child is looked at first, and what
    stands below an error is left alone. -/
def unfinishedWithin (s : Store) : (depth : Nat) → ElementId → Option Fault
  | 0, _ => none
  | depth + 1, id =>
    let e := s.get id
    if e.kind.isStructural then some (.unexpectedToken e.raw)
    else if e.pendingRole?.isSome then some (.missingOperand e.raw)
    else
      match e.kind with
      | .error .. => none
      | kind => kind.children.reverse.findSome? (unfinishedWithin s depth)

/-- The first fault of a tree.  No path through a tree is longer than the store
    is large. -/
def unfinished? (s : Store) (root : ElementId) : Option Fault :=
  unfinishedWithin s (s.size + 1) root

/-! ## Reduction -/

/-- The three passes over a term and the check of the result; `reduce` reduces
    the terms inside groups. -/
def runPasses (c : Context) (reduce : List ElementId → Reducing ElementId)
    (term : List ElementId) : Reducing ElementId := do
  if term.isEmpty then
    throw .emptyTerm
  let work ← collapseGroups c reduce [] (segments (← store) term)
  let work ← bindFunctions work
  let work ← bindOperators work.reverse []
  match work with
  | [root] =>
    match unfinished? (← store) root with
    | none => return root
    | some fault => throw fault
  | _ => throw (.notReduced work.length)

/-- Reduce a term.  The number bounds its length: a term without elements is
    empty. -/
def reduceWithin (c : Context) : Nat → List ElementId → Reducing ElementId
  | 0, _ => throw .emptyTerm
  | bound + 1, term => releasing term (runPasses c (reduceWithin c bound) term)

/-- Reduce a term. -/
def reduce (c : Context) (term : List ElementId) : Reducing ElementId :=
  reduceWithin c term.length term

/-- Reduce a term, or wrap it in an error element if that fails. -/
def reduceOrError (c : Context) (term : List ElementId) : Building ElementId := do
  match ← (reduce c term).run with
  | .ok id => return id
  | .error fault => buildError c fault term

end FormulaSheet.Term
