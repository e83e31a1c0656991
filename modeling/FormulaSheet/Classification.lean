/-
  From tokens to elements.

  * `Kind.recognize` is the kind of one token.  An operator symbol is a sign if
    nothing to its left can be an operand (`startsExpression`), which depends
    on the element before it.
  * `classify` gives the elements of the tokens of one line, one per token; a
    token without a kind becomes an error element.
  * `placeTokens` adds these elements to the store.
-/
import FormulaSheet.Vocabulary
import FormulaSheet.Workspace

namespace FormulaSheet

/-- Whether an operator after an element of the given kind has nothing to its
    left to take. -/
def startsExpression : Option Kind → Bool
  | none => true
  | some (.operator ..) | some .assignment | some (.delimiter _ .opening) | some .comma
  | some .semicolon => true
  | some _ => false

/-- Digits with at most one point among them and at least one digit. -/
def isNumber (token : String) : Bool :=
  decide (token.toList.count '.' ≤ 1) && token.toList.any Char.isDigit

/-- The kind of a structural character. -/
def Kind.ofStructural? : Char → Option Kind
  | '=' => some .assignment
  | '[' => some (.delimiter .bracket .opening)
  | ']' => some (.delimiter .bracket .closing)
  | '(' => some (.delimiter .parenthesis .opening)
  | ')' => some (.delimiter .parenthesis .closing)
  | ';' => some .semicolon
  | '@' => some .functionMarker
  | ',' => some .comma
  | _ => none

/-- The role of an operator token after an element of kind `previous`. -/
def Role.ofToken (v : Vocabulary) (previous : Option Kind) (token : String) : Role :=
  if v.isFunction token then .function
  else if startsExpression previous then .sign
  else .binary

/-- The kind of a token after an element of kind `previous`. -/
def Kind.recognize (v : Vocabulary) (previous : Option Kind) (token : String) : Except Fault Kind :=
  if v.isOperator token then
    .ok (.operator token (Role.ofToken v previous token) none none)
  else if Vocabulary.isValue token then
    if isNumber token then .ok (.value token) else .error (.unrecognizedToken token)
  else if v.isVariable token then .ok (.name token)
  else
    match (Vocabulary.single? token).bind Kind.ofStructural? with
    | some kind => .ok kind
    | none => .error (.unrecognizedToken token)

/-- The kind of a token, with a fault as an error without children. -/
def Kind.ofToken (v : Vocabulary) (previous : Option Kind) (token : String) : Kind :=
  match Kind.recognize v previous token with
  | .ok kind => kind
  | .error fault => .error fault []

/-- The elements of the tokens of a line, the first of which follows an element
    of kind `previous`. -/
def classify (v : Vocabulary) (line : Nat) (previous : Option Kind) : List String → List Element
  | [] => []
  | token :: tokens =>
    let kind := Kind.ofToken v previous token
    { kind, raw := token, line } :: classify v line (some kind) tokens

/-- The event of an element whose token has no kind. -/
def Element.unclassified? (e : Element) : Option Event :=
  match e.kind with
  | .error fault _ => some (.unclassified e.line fault)
  | _ => none

/-- Add elements to the store and note those without a kind. -/
def place : List Element → Building (List ElementId)
  | [] => return []
  | e :: elements => do
    if let some event := e.unclassified? then
      Building.note event
    let id ← Building.build e
    let ids ← place elements
    return id :: ids

/-- Add the elements of the tokens of a line to the store. -/
def placeTokens (v : Vocabulary) (line : Nat) (tokens : List String) :
    Building (List ElementId) :=
  place (classify v line none tokens)

end FormulaSheet
