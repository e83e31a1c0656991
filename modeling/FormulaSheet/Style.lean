/-
  How formulas are typeset.

  * `Matrix` are the environments an array can be written in; `Matrix.ofName?`
    reads the name of one, exactly as `Matrix.name` writes it
    (`ofName?_eq_some_iff`).
  * `Style` holds the texts that appear in the output, `RenderOptions` adds
    whether calls of anonymous functions are replaced by their bodies.
-/

namespace FormulaSheet

/-- The environment arrays are written in. -/
inductive Matrix where
  /-- Square brackets. -/
  | bmatrix
  /-- Parentheses. -/
  | pmatrix
  /-- Vertical bars. -/
  | vmatrix
  /-- No delimiters. -/
  | matrix
  deriving DecidableEq, Repr, Inhabited

namespace Matrix

/-- The name of an environment. -/
def name : Matrix → String
  | bmatrix => "bmatrix"
  | pmatrix => "pmatrix"
  | vmatrix => "vmatrix"
  | matrix => "matrix"

/-- All environments. -/
def all : List Matrix :=
  [bmatrix, pmatrix, vmatrix, matrix]

/-- The environment of a name. -/
def ofName? (text : String) : Option Matrix :=
  all.find? fun m => m.name == text

theorem ofName?_eq_some_iff {text : String} {m : Matrix} :
    ofName? text = some m ↔ text = m.name := by
  constructor
  · intro h
    have := List.find?_some h
    simpa using (beq_iff_eq.1 this).symm
  · rintro rfl
    cases m <;> decide

end Matrix

/-- The texts of the output. -/
structure Style where
  matrix : Matrix := .bmatrix
  /-- The symbol written for `*`. -/
  multiplication : String := "\\cdot"
  /-- What follows each formula. -/
  paragraphBreak : String := "\\par"
  /-- The line written for a blank line. -/
  mediumSkip : String := "\\medskip"
  /-- Names written as commands wherever they occur in a variable. -/
  specialSymbols : List String :=
    ["alpha", "Alpha", "Beta", "beta", "Gamma", "gamma", "Delta", "delta", "Epsilon", "epsilon",
     "varepsilon", "Lambda", "lambda", "pi", "Pi"]
  /-- The line written for a statement that cannot be rendered. -/
  faultyLine : String := "faulty line"
  deriving DecidableEq, Repr, Inhabited

namespace Style

/-- A formula as a line of its own. -/
def topLevel (style : Style) (text : String) : String :=
  "$" ++ text ++ "$ " ++ style.paragraphBreak

/-- An operator symbol as it is written. -/
def symbol (style : Style) (text : String) : String :=
  if text = "*" then style.multiplication else text

end Style

/-- What the caller chooses about the output. -/
structure RenderOptions where
  /-- Write a call of an anonymous function as its body with the arguments
      put in. -/
  inlining : Bool := true
  style : Style := {}
  deriving DecidableEq, Repr, Inhabited

end FormulaSheet
