/-
  Owner links: every element below a finished statement points to the element
  it hangs below.

  * `claim` lets one element claim its children, in order.  The root of the
    statement and elements that are owned already are left alone, so the first
    element to claim a child keeps it.
  * `setOwners s root` lets the root and then every claimed element claim its
    children, the last claimed first.  Each claim owns one more element
    (`unowned_claim`), so this ends on any graph.
-/
import FormulaSheet.Store

namespace FormulaSheet.Store

/-- The number of elements without an owner. -/
def unowned (s : Store) : Nat :=
  s.elements.countP fun e => e.owner.isNone

/-- Whether a child can be claimed below `root`. -/
def isFree (s : Store) (root child : ElementId) : Bool :=
  child != root && decide (child < s.size) && (s.get child).owner.isNone

/-- Write the owner of an element. -/
def setOwner (s : Store) (child parent : ElementId) : Store :=
  s.modify child fun e => { e with owner := some parent }

/-- Claim the free ones of some elements for `parent`: the store after that,
    and the claimed elements in order. -/
def claim (root parent : ElementId) : List ElementId → Store → Store × List ElementId
  | [], s => (s, [])
  | child :: children, s =>
    if s.isFree root child then
      let (s', claimed) := claim root parent children (s.setOwner child parent)
      (s', child :: claimed)
    else claim root parent children s

/-- An element that gets its first owner leaves one fewer without. -/
theorem unowned_setOwner {s : Store} {root child parent : ElementId}
    (h : s.isFree root child = true) : (s.setOwner child parent).unowned + 1 = s.unowned := by
  simp only [isFree, Bool.and_eq_true, decide_eq_true_eq] at h
  obtain ⟨⟨_, hlt⟩, hnone⟩ := h
  have hlt' : child < s.elements.size := hlt
  have hget : s.elements[child].owner.isNone = true := by
    simpa [get, Array.getD_eq_getD_getElem?, hlt'] using hnone
  have hpos : 0 < s.elements.countP fun e => e.owner.isNone :=
    Array.countP_pos_iff.2 ⟨_, Array.getElem_mem hlt', hget⟩
  have hmod : s.elements.modify child (fun e => { e with owner := some parent }) =
      s.elements.set child { s.elements[child] with owner := some parent } := by
    apply Array.ext
    · simp
    · intro i hi _
      simp only [Array.size_modify] at hi
      simp only [Array.getElem_modify, Array.getElem_set]
      split <;> simp_all
  simp only [unowned, setOwner, modify, hmod]
  rw [Array.countP_set hlt']
  simp only [hget, if_true, Option.isNone_some, Bool.false_eq_true, if_false, Nat.add_zero]
  omega

/-- Claiming owns exactly the claimed elements. -/
theorem unowned_claim (root parent : ElementId) (children : List ElementId) (s : Store) :
    (claim root parent children s).1.unowned + (claim root parent children s).2.length =
      s.unowned := by
  induction children generalizing s with
  | nil => simp [claim]
  | cons child children ih =>
    simp only [claim]
    split
    · rename_i h
      have := ih (s.setOwner child parent)
      have := @unowned_setOwner s root child parent h
      simp only [List.length_cons]
      omega
    · exact ih s

/-- Let the `pending` elements and all they claim claim their children, the
    first pending one first. -/
def claimAll (root : ElementId) (pending : List ElementId) (s : Store) : Store :=
  match pending with
  | [] => s
  | parent :: rest =>
    let claimed := claim root parent (s.kind parent).children s
    claimAll root (claimed.2.reverse ++ rest) claimed.1
termination_by pending.length + s.unowned
decreasing_by
  have := unowned_claim root parent (s.kind parent).children s
  simp only [List.length_append, List.length_reverse, List.length_cons]
  omega

/-- Write the owner of every element below `root`. -/
def setOwners (s : Store) (root : ElementId) : Store :=
  claimAll root [root] s

end FormulaSheet.Store
