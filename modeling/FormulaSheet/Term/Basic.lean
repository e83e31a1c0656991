/-
  Reducing terms: what a reduction looks at, and its steps on single elements.

  * `Context` is what a reduction knows besides the store: the vocabulary, the
    declarations so far, the line, and the function whose body is read.
  * `buildNode`, `giveOperands`, `foldSign`, `release` and `openWithSign` are the only
    ways in which a reduction changes the store.
-/
import FormulaSheet.Registry
import FormulaSheet.Vocabulary
import FormulaSheet.Workspace

namespace FormulaSheet.Term

/-- An anonymous function whose body is being read.  It is not declared yet,
    but its body may call it and index its parameters. -/
structure OpenFunction where
  name : String
  id : ElementId
  parameters : List String
  deriving DecidableEq, Repr, Inhabited

/-- What a reduction knows besides the store. -/
structure Context where
  vocabulary : Vocabulary := {}
  registry : Registry := {}
  line : Nat := 1
  function : Option OpenFunction := none
  deriving DecidableEq, Repr, Inhabited

open Building

/-- Add a finished node. -/
def buildNode (c : Context) (kind : Kind) (raw : String) : Building ElementId :=
  build { kind, raw, line := c.line, sealed := true }

/-- The fault of an operator that has nothing to take. -/
def missingOperand (id : ElementId) : Building Fault :=
  return .missingOperand ((← store).get id).raw

/-- Give an operator its operands. -/
def giveOperands (id : ElementId) (first second : Option ElementId) : Building Unit :=
  alter id (·.withOperands first second)

/-- Make an operator the sign of the value or name after it. -/
def foldSign (id operand : ElementId) : Building Unit :=
  alter id (·.signOf operand)

/-- Take the operands from the operators of a term that does not reduce. -/
def release : List ElementId → Building Unit
  | [] => return
  | id :: ids => do
    alter id Element.released
    release ids

/-- Make the operator that opens the body of a function a sign: it follows the
    parameter list, so it was taken for a binary operator. -/
def openWithSign (id : ElementId) : Building Unit :=
  alter id Element.openingSign

/-- An error element that holds elements as they were written. -/
def buildError (c : Context) (fault : Fault) (children : List ElementId) : Building ElementId := do
  note (.unreduced c.line fault)
  buildNode c (.error fault children) ((← store).rawText " " children)

/-- Release the operators of `term` if `reduction` fails. -/
def releasing (term : List ElementId) {α : Type} (reduction : Reducing α) : Reducing α :=
  tryCatch reduction fun fault => do
    release term
    throw fault

end FormulaSheet.Term
