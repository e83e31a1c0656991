/-
  Scripts: statements, and the names they declare.

  * `Statement.read` reads one logical line: a blank line, a declaration
    `name = …`, or text that is passed through.
  * `Script.addLine` adds the statement and registers what it declares; a name
    keeps its first declaration.
  * `Script.read` reads all lines and keeps the log; `Script.parse` is the
    result alone.
-/
import FormulaSheet.Classification
import FormulaSheet.LogicalLine
import FormulaSheet.Store.Ownership
import FormulaSheet.Term.Declaration
import FormulaSheet.Text.Blank
import FormulaSheet.Token

namespace FormulaSheet

/-- A script that has been read: one statement per logical line. -/
structure Script where
  store : Store := {}
  statements : List ElementId := []
  registry : Registry := {}
  deriving DecidableEq, Repr, Inhabited

/-- The name under which an element is declared, if it is a part of a
    declaration. -/
def Script.declaredName? (script : Script) (id : ElementId) : Option String :=
  match (script.store.get id).owner with
  | none => none
  | some owner =>
    match script.store.kind owner with
    | .declaration target _ _ => (script.store.kind target).name?
    | _ => none

namespace Statement

open Building

/-- A finished element of a line. -/
def build (kind : Kind) (raw : String) (line : Nat) : Building ElementId :=
  Building.build { kind, raw, line, sealed := true }

/-- The elements of a line without the `;` at its end. -/
def dropTerminator (s : Store) (ids : List ElementId) : List ElementId :=
  match ids.getLast? with
  | some last => if s.kind last = .semicolon then ids.dropLast else ids
  | none => ids

/-- Add the declaration `target = rhs` of a name and write the owners below
    it. -/
def buildDeclaration (v : Vocabulary) (registry : Registry) (l : LogicalLine)
    (target : ElementId) (name : String) (rhs : List ElementId) : Building ElementId := do
  let (content, form) ←
    Term.declarationValue { vocabulary := v, registry, line := l.line } name rhs
  let id ← build (.declaration target content form) (Text.trim l.text) l.line
  modify fun w => { w with store := w.store.setOwners id }
  return id

/-- Read one logical line: its statement, and the name that it declares. -/
def read (v : Vocabulary) (registry : Registry) (l : LogicalLine) :
    Building (ElementId × Option String) := do
  let tokens := Token.tokenize v l.text
  let ids ← placeTokens v l.line tokens
  let s ← store
  let passedThrough (raw : String) : Building (ElementId × Option String) :=
    return (← build .passThrough raw l.line, none)
  match dropTerminator s ids with
  | [] => return (← build .blank "" l.line, none)
  | [single] => passedThrough (s.get single).raw
  | target :: second :: rhs =>
    match s.kind target, s.kind second with
    | .name name, .assignment =>
      return (← buildDeclaration v registry l target name rhs, some name)
    | _, _ => passedThrough (" ".intercalate tokens)

end Statement

namespace Script

/-- Register the declaration of a name; the event if it is declared already. -/
def declare (registry : Registry) (line : Nat) (name : String) (id : ElementId) :
    Registry × List Event :=
  match registry.insert? name id with
  | some registry => (registry, [])
  | none => (registry, [.redeclared line name])

/-- Add the statement of one more logical line. -/
def addLine (v : Vocabulary) (state : Script × Log) (l : LogicalLine) : Script × Log :=
  let (script, log) := state
  let workspace : Workspace := ⟨script.store, log.push (.readLine l.line l.text)⟩
  let ((id, declared), workspace) := (Statement.read v script.registry l).run workspace
  let (registry, events) :=
    match declared with
    | some name => declare script.registry l.line name id
    | none => (script.registry, [])
  (⟨workspace.store, script.statements ++ [id], registry⟩, workspace.log ++ events)

/-- The events of joining physical lines. -/
def joinEvents (lines : List LogicalLine) : Log :=
  (lines.filter (1 < ·.height)).toArray.map fun l =>
    .joinedLines l.line (l.line + l.height - 1)

/-- Read a script, and the log of doing so. -/
def read (v : Vocabulary) (lines : List String) : Except UnterminatedArray Script × Log :=
  match LogicalLine.joinLines 1 lines with
  | (joined, some failure) => (.error failure, joinEvents joined)
  | (joined, none) =>
    let (script, log) := joined.foldl (addLine v) ({}, joinEvents joined)
    (.ok script, log.push (.readScript script.statements.length script.registry.size))

/-- Read a script. -/
def parse (v : Vocabulary) (lines : List String) : Except UnterminatedArray Script :=
  (read v lines).1

theorem parse_of_mem {v : Vocabulary} {lines : List String} {script : Script}
    (h : script ∈ (parse v lines).toOption) : parse v lines = .ok script := by
  cases hparse : parse v lines with
  | error failure =>
    rw [hparse] at h
    cases h
  | ok script' =>
    rw [hparse] at h
    cases h
    rfl

end Script

end FormulaSheet
