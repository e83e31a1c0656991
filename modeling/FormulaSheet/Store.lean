/-
  The store: all elements of a script, in the order in which they were made.

  * `get` reads an element; an id outside the store reads as a blank element.
  * `push` appends one, whose id is the size before; `modify` changes one in
    place.  Nothing is ever removed (`get_push_of_lt`, `size_modify`).
-/
import FormulaSheet.Element

namespace FormulaSheet

/-- The elements by id. -/
structure Store where
  elements : Array Element := #[]
  deriving DecidableEq, Repr, Inhabited

namespace Store

/-- The number of elements, and the id of the next one. -/
def size (s : Store) : Nat :=
  s.elements.size

/-- What an id outside the store reads as. -/
def absent : Element where
  kind := .blank
  raw := ""
  line := 0

/-- The element with the given id. -/
def get (s : Store) (id : ElementId) : Element :=
  s.elements.getD id absent

/-- The kind of the element with the given id. -/
def kind (s : Store) (id : ElementId) : Kind :=
  (s.get id).kind

/-- Append an element. -/
def push (s : Store) (e : Element) : Store where
  elements := s.elements.push e

/-- Change an element in place. -/
def modify (s : Store) (id : ElementId) (f : Element → Element) : Store where
  elements := s.elements.modify id f

/-- The source texts of some elements, with a separator between neighbours. -/
def rawText (s : Store) (separator : String) (ids : List ElementId) : String :=
  separator.intercalate (ids.map fun id => (s.get id).raw)

/-! ## What the operations do to the elements -/

@[simp] theorem size_push (s : Store) (e : Element) : (s.push e).size = s.size + 1 := by
  simp [size, push]

@[simp] theorem size_modify (s : Store) (id : ElementId) (f : Element → Element) :
    (s.modify id f).size = s.size := by
  simp [size, modify]

theorem get_of_size_le {s : Store} {id : ElementId} (h : s.size ≤ id) : s.get id = absent := by
  simp [get, Array.getD_eq_getD_getElem?, Array.getElem?_eq_none (by simpa [size] using h)]

theorem lt_size_of_kind {s : Store} {id : ElementId} (h : s.kind id ≠ .blank) : id < s.size := by
  refine Nat.lt_of_not_le fun hle => h ?_
  rw [kind, get_of_size_le hle, absent]

theorem get_push_of_lt {s : Store} {id : ElementId} (e : Element) (h : id < s.size) :
    (s.push e).get id = s.get id := by
  have h' : id < s.elements.size := h
  simp [get, push, Array.getD_eq_getD_getElem?, Array.getElem?_push, Nat.ne_of_lt h']

@[simp] theorem get_push_size (s : Store) (e : Element) : (s.push e).get s.size = e := by
  simp [get, push, size, Array.getD_eq_getD_getElem?]

theorem get_modify_self {s : Store} {id : ElementId} (f : Element → Element) (h : id < s.size) :
    (s.modify id f).get id = f (s.get id) := by
  have h' : id < s.elements.size := h
  simp [get, modify, Array.getD_eq_getD_getElem?, Array.getElem_modify, h']

theorem get_modify_of_ne {s : Store} {id other : ElementId} (f : Element → Element)
    (h : id ≠ other) : (s.modify id f).get other = s.get other := by
  simp [get, modify, Array.getD_eq_getD_getElem?, Array.getElem?_modify, h]

end Store

end FormulaSheet
