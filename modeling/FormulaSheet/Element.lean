/-
  Elements: the classified tokens of a script and the nodes built from them.

  Elements refer to each other by id, their position in the store.  A `Kind`
  says what an element is, `Kind.children` which elements hang below it, and
  `Kind.isStructural` which kinds only guide the reading of a term and must not
  be left in a finished tree.  A call does not own the function it calls: that
  belongs to its own declaration.
-/
import FormulaSheet.Fault

namespace FormulaSheet

/-- The position of an element in its store. -/
abbrev ElementId := Nat

/-- Which end of a group a delimiter is. -/
inductive Side where
  | opening
  | closing
  deriving DecidableEq, Repr, Inhabited

/-- What an operator takes. -/
inductive Role where
  /-- The elements on both sides. -/
  | binary
  /-- The element after it, as `sqrt` does. -/
  | function
  /-- What follows, as the `-` of `-a` does. -/
  | sign
  deriving DecidableEq, Repr, Inhabited

/-- What a declaration declares. -/
inductive Form where
  | plain
  | array
  | function
  deriving DecidableEq, Repr, Inhabited

/-- A cell of an array literal; rows and columns count from 0. -/
structure Cell where
  value : ElementId
  row : Nat
  col : Nat
  deriving DecidableEq, Repr, Inhabited

/-- What an element is. -/
inductive Kind where
  /-- A line without code. -/
  | blank
  /-- Text that is written as it is. -/
  | passThrough
  /-- Elements that could not be reduced, and why. -/
  | error (fault : Fault) (children : List ElementId)
  | value (text : String)
  /-- The name of a variable, a parameter, an array or a function. -/
  | name (text : String)
  | operator (symbol : String) (role : Role) (first second : Option ElementId)
  /-- The `=` of a declaration. -/
  | assignment
  | delimiter (group : Group) (side : Side)
  /-- A `;`. -/
  | semicolon
  /-- A `,`. -/
  | comma
  /-- The `@` of an anonymous function. -/
  | functionMarker
  | array (cells : List Cell)
  /-- An array access `target(indexes)`. -/
  | access (target : ElementId) (indexes : List ElementId)
  /-- An anonymous function; the body is missing only while it is read. -/
  | function (parameters : List ElementId) (body : Option ElementId)
  /-- A call of the anonymous function `function`. -/
  | call (function : ElementId) (arguments : List ElementId)
  /-- A declaration `target = content`. -/
  | declaration (target content : ElementId) (form : Form)
  deriving DecidableEq, Repr, Inhabited

namespace Kind

/-- The elements directly below an element of this kind, in order. -/
def children : Kind → List ElementId
  | error _ ids => ids
  | operator _ _ first second => first.toList ++ second.toList
  | array cells => cells.map Cell.value
  | access target indexes => target :: indexes
  | function parameters body => parameters ++ body.toList
  | call _ arguments => arguments
  | declaration target content _ => [target, content]
  | blank | passThrough | value _ | name _ | assignment | delimiter _ _ | semicolon | comma
  | functionMarker => []

/-- A kind that only guides the reading of a term. -/
def isStructural : Kind → Bool
  | assignment | delimiter _ _ | semicolon | comma | functionMarker => true
  | _ => false

/-- Functions and operator symbols. -/
def isOperator : Kind → Bool
  | operator .. => true
  | _ => false

/-- The text of a name. -/
def name? : Kind → Option String
  | name text => some text
  | _ => none

end Kind

/-- An element of a script. -/
structure Element where
  kind : Kind
  /-- The source text, for pass-through output and messages. -/
  raw : String
  /-- The source line, from 1. -/
  line : Nat
  /-- The operands are final. -/
  sealed : Bool := false
  /-- The element it hangs below in the finished tree. -/
  owner : Option ElementId := none
  deriving DecidableEq, Repr, Inhabited

namespace Element

/-- The role of an operator that still waits for its operands. -/
def pendingRole? (e : Element) : Option Role :=
  match e.kind with
  | .operator _ role _ _ => if e.sealed then none else some role
  | _ => none

/-! ## What a reduction does to an operator

Elements of any other kind keep all but the seal. -/

/-- An operator with its final operands. -/
def withOperands (e : Element) (first second : Option ElementId) : Element :=
  match e.kind with
  | .operator symbol role _ _ =>
    { e with kind := .operator symbol role first second, sealed := true }
  | _ => { e with sealed := true }

/-- An operator as the sign of the value or name after it. -/
def signOf (e : Element) (operand : ElementId) : Element :=
  match e.kind with
  | .operator symbol _ _ second =>
    { e with kind := .operator symbol .sign (some operand) second, sealed := true }
  | _ => { e with sealed := true }

/-- An operator without its operands. -/
def released (e : Element) : Element :=
  match e.kind with
  | .operator symbol role _ _ =>
    { e with kind := .operator symbol role none none, sealed := false }
  | _ => e

/-- A binary operator as a sign, if it has no operands yet. -/
def openingSign (e : Element) : Element :=
  match e.kind with
  | .operator symbol .binary first second =>
    if e.sealed then e else { e with kind := .operator symbol .sign first second }
  | _ => e

end Element

end FormulaSheet
