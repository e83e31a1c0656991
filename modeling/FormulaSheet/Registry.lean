/-
  The registry: the declared names of a script in the order of their first
  declaration.

  * `insert?` adds a name that is not yet declared; a declared name keeps its
    first declaration (`insert?_eq_none_iff`).
  * `get?` finds the declaration of a name.
-/
import FormulaSheet.Element

namespace FormulaSheet

/-- Declared names with the ids of their declarations. -/
structure Registry where
  entries : List (String × ElementId) := []
  deriving DecidableEq, Repr, Inhabited

namespace Registry

/-- The declaration of a name. -/
def get? (r : Registry) (name : String) : Option ElementId :=
  (r.entries.find? fun entry => entry.1 == name).map Prod.snd

/-- The registry with one more declared name; `none` if the name is declared
    already. -/
def insert? (r : Registry) (name : String) (declaration : ElementId) : Option Registry :=
  match r.get? name with
  | some _ => none
  | none => some ⟨r.entries ++ [(name, declaration)]⟩

/-- The number of declared names. -/
def size (r : Registry) : Nat :=
  r.entries.length

theorem insert?_eq_none_iff {r : Registry} {name : String} {declaration : ElementId} :
    r.insert? name declaration = none ↔ (r.get? name).isSome := by
  unfold insert?
  cases r.get? name <;> simp

/-- After an insertion the name is found under its declaration. -/
theorem get?_insert?_self {r r' : Registry} {name : String} {declaration : ElementId}
    (h : r.insert? name declaration = some r') : r'.get? name = some declaration := by
  unfold insert? at h
  cases hg : r.get? name with
  | some _ => simp [hg] at h
  | none =>
    simp only [hg, Option.some.injEq] at h
    subst h
    have hn : r.entries.find? (fun entry => entry.1 == name) = none := by
      simpa [get?] using hg
    simp [get?, List.find?_append, hn]

end Registry

end FormulaSheet
