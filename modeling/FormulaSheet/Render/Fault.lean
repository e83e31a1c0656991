/-
  Why an element cannot be written.

  A statement with such a fault is replaced by the faulty line of the style.
-/

namespace FormulaSheet

/-- The causes. -/
inductive RenderFault where
  /-- An operator without an operand it needs. -/
  | missingOperand (operator : String)
  /-- An anonymous function without a body. -/
  | missingBody
  /-- A call of something that is no function. -/
  | notAFunction (call : String)
  /-- A call of a function that no declaration names. -/
  | undeclaredFunction (call : String)
  deriving DecidableEq, Repr, Inhabited

/-- The wording of a fault. -/
def RenderFault.message : RenderFault → String
  | missingOperand operator => s!"operator '{operator}' is missing an operand"
  | missingBody => "anonymous function has no body"
  | notAFunction call => s!"'{call}' does not call a function"
  | undeclaredFunction call => s!"the function called by '{call}' has no name"

end FormulaSheet
