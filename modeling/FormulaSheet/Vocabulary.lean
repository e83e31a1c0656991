/-
  The vocabulary of a script: which words are functions and which characters
  are operators or structure.

  * `Vocabulary` holds the tables a caller may extend: the prefix functions,
    the operators that always take two operands, and the dual operators, which
    are signs where nothing stands to their left.
  * `structural` are the characters with a fixed meaning.
  * `isOperator`, `isValue` and `isVariable` sort tokens;
    `isKeyword` says which lone characters are tokens at all.
-/

namespace FormulaSheet

/-- The tables of functions and operators. -/
structure Vocabulary where
  /-- Words that bind the element after them, as in `sqrt x`. -/
  functions : List String :=
    ["abs", "acos", "sin", "cos", "cot", "tan", "atan", "sqrt", "log", "log10", "log2"]
  /-- Symbols that always take two operands. -/
  binary : List Char := ['*', '^', '/']
  /-- Symbols that take two operands between elements and are signs
      elsewhere. -/
  dual : List Char := ['+', '-']
  deriving DecidableEq, Repr, Inhabited

namespace Vocabulary

/-- The characters with a fixed meaning. -/
def structural : List Char :=
  ['=', '(', ')', '[', ']', ';', '@', ',']

/-- The character of a token of one character. -/
def single? (token : String) : Option Char :=
  match token.toList with
  | [c] => some c
  | _ => none

variable (v : Vocabulary)

/-- A word that names a prefix function. -/
def isFunction (token : String) : Bool :=
  v.functions.contains token

/-- A symbol that can stand between two operands. -/
def isBinary (token : String) : Bool :=
  (single? token).any fun c => v.binary.contains c || v.dual.contains c

/-- A symbol that can also be a sign. -/
def isDual (token : String) : Bool :=
  (single? token).any fun c => v.dual.contains c

/-- A function or an operator symbol. -/
def isOperator (token : String) : Bool :=
  v.isFunction token || v.isBinary token

/-- Whether a lone character is a token. -/
def isKeyword (c : Char) : Bool :=
  structural.contains c || v.binary.contains c || v.dual.contains c

/-- Digits and points only; not every such token is a number. -/
def isValue (token : String) : Bool :=
  !token.isEmpty && token.toList.all fun c => c.isDigit || c == '.'

/-- A token that is no value and holds no keyword character. -/
def isVariable (token : String) : Bool :=
  !isValue token && !token.toList.any v.isKeyword

end Vocabulary

end FormulaSheet
