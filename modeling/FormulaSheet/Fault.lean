/-
  Why a token or a term could not be turned into an expression.

  A fault never ends the reading of a script: it is kept in an error element in
  place of the expression.  `Fault.message` is the only place where a fault
  becomes text.
-/

namespace FormulaSheet

/-- The two pairs of delimiters. -/
inductive Group where
  | parenthesis
  | bracket
  deriving DecidableEq, Repr, Inhabited

/-- The name of a delimiter in messages. -/
def Group.name : Group → String
  | parenthesis => "parenthesis"
  | bracket => "bracket"

/-- The causes. -/
inductive Fault where
  /-- A token that is neither number, name nor symbol. -/
  | unrecognizedToken (token : String)
  /-- A delimiter without its partner. -/
  | unmatched (group : Group)
  /-- An operator with nothing to take. -/
  | missingOperand (operator : String)
  /-- More than one element is left of a term. -/
  | notReduced (remaining : Nat)
  /-- A term without elements. -/
  | emptyTerm
  /-- A declaration without a right-hand side. -/
  | missingValue
  /-- A function marker that no parameter list follows. -/
  | expectedParameterList
  /-- Structure that is left inside a reduced term. -/
  | unexpectedToken (token : String)
  /-- An element that cannot be a cell of an array literal. -/
  | unsupportedCell (token : String)
  deriving DecidableEq, Repr, Inhabited

/-- The wording of a fault. -/
def Fault.message : Fault → String
  | unrecognizedToken token => s!"could not parse value '{token}'"
  | unmatched group => s!"could not find closing {group.name}"
  | missingOperand operator => s!"operator '{operator}' is missing an operand"
  | notReduced remaining =>
    s!"expression could not be reduced to a single element ({remaining} left)"
  | emptyTerm => "expected expression, found nothing"
  | missingValue => "expected value after '='"
  | expectedParameterList => "expected '(' after '@'"
  | unexpectedToken token => s!"unexpected '{token}'"
  | unsupportedCell token => s!"'{token}' is not supported inside an array literal"

end FormulaSheet
