/-
  Array literals.

  * `items` reads what stands between `[` and `]`.  A `;` ends a row, commas
    are skipped, a dual operator right before a value or a name is its sign,
    and inner brackets are nested literals; everything else that is not a
    plain element is unsupported and ends the list.
  * `layout` gives the cells their rows and columns.  A row end after an empty
    row is ignored.
  * `buildArray` adds the array.
-/
import FormulaSheet.Term.Basic
import FormulaSheet.Term.Group

namespace FormulaSheet.Term

open Building

/-- A part of an array literal. -/
inductive Item where
  | rowEnd
  | cell (id : ElementId)
  /-- A sign and what it stands before. -/
  | signed (sign operand : ElementId)
  /-- The inside of a nested literal. -/
  | nested (inner : List ElementId)
  | unsupported (id : ElementId)
  /-- A nested literal that is never closed. -/
  | unclosed
  deriving DecidableEq, Repr, Inhabited

/-- What a sign can be folded into. -/
def canBeSigned : Kind → Bool
  | .value _ | .name _ => true
  | _ => false

/-- The parts of an array literal, up to the first unsupported one. -/
def items (v : Vocabulary) (s : Store) (inner : List ElementId) : List Item :=
  match inner with
  | [] => []
  | id :: rest =>
    match s.kind id with
    | .semicolon => .rowEnd :: items v s rest
    | .comma => items v s rest
    | .delimiter .bracket .opening =>
      match _h : splitClosing? s .bracket 0 rest with
      | none => [.unclosed]
      | some (nested, after) => .nested nested :: items v s after
    | .operator symbol .. =>
      match rest with
      | [] => [.unsupported id]
      | operand :: after =>
        if v.isDual symbol && canBeSigned (s.kind operand) then
          .signed id operand :: items v s after
        else [.unsupported id]
    | kind => if kind.isStructural then [.unsupported id] else .cell id :: items v s rest
termination_by inner.length
decreasing_by
  · simp
  · simp
  · have := length_of_splitClosing? s ‹_›
    simp only [List.length_cons]; omega
  · simp only [List.length_cons]; omega
  · simp

/-- The cells of an array literal from the given position on; `nested` adds a
    nested array. -/
def layout (nested : List ElementId → Reducing ElementId) :
    (row col : Nat) → List Item → Reducing (List Cell)
  | _, _, [] => return []
  | row, col, .rowEnd :: items =>
    if col = 0 then layout nested row col items else layout nested (row + 1) 0 items
  | row, col, .cell id :: items => do
    let cells ← layout nested row (col + 1) items
    return ⟨id, row, col⟩ :: cells
  | row, col, .signed sign operand :: items => do
    foldSign sign operand
    let cells ← layout nested row (col + 1) items
    return ⟨sign, row, col⟩ :: cells
  | row, col, .nested inner :: items => do
    let id ← nested inner
    let cells ← layout nested row (col + 1) items
    return ⟨id, row, col⟩ :: cells
  | _, _, .unsupported id :: _ => do
    throw (.unsupportedCell ((← store).get id).raw)
  | _, _, .unclosed :: _ => throw (.unmatched .bracket)

/-- Add the array between two brackets.  The number bounds the length of
    `inner`: what has no elements is the array without cells. -/
def buildArrayWithin (c : Context) : Nat → List ElementId → Reducing ElementId
  | 0, _ => buildNode c (.array []) "[]"
  | bound + 1, inner => do
    let cells ← layout (buildArrayWithin c bound) 0 0 (items c.vocabulary (← store) inner)
    buildNode c (.array cells) ("[" ++ (← store).rawText " " inner ++ "]")

/-- Add the array between two brackets. -/
def buildArray (c : Context) (inner : List ElementId) : Reducing ElementId :=
  buildArrayWithin c inner.length inner

end FormulaSheet.Term
