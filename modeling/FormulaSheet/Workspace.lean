/-
  Building a script: the store and the log that grow while lines are read.

  * `Building` computations add elements (`build`), change them in place
    (`alter`) and note events (`note`).
  * `Reducing` computations can also stop with a fault; what they have built
    and noted until then stays.
-/
import FormulaSheet.Store
import FormulaSheet.Event

namespace FormulaSheet

/-- What is built while a script is read. -/
structure Workspace where
  store : Store := {}
  log : Log := #[]
  deriving DecidableEq, Repr, Inhabited

/-- Computations that build. -/
abbrev Building := StateM Workspace

/-- Computations that build and can stop with a fault. -/
abbrev Reducing := ExceptT Fault Building

namespace Building

/-- The store as it is now. -/
def store : Building Store :=
  return (← get).store

/-- Note an event. -/
def note (e : Event) : Building Unit :=
  modify fun w => { w with log := w.log.push e }

/-- Add an element to the store. -/
def build (e : Element) : Building ElementId :=
  modifyGet fun w => (w.store.size, { w with store := w.store.push e })

/-- Change an element of the store in place. -/
def alter (id : ElementId) (f : Element → Element) : Building Unit :=
  modify fun w => { w with store := w.store.modify id f }

end Building

end FormulaSheet
