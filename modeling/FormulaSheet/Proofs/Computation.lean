/-
  Running computations: what holds after a reduction, whether it succeeds or
  stops with a fault.

  * `x.Ensures w Q`: run from the workspace `w`, the reduction `x` ends with an
    outcome and a workspace that satisfy `Q`.
  * `x.Returns w Q`: if `x` succeeds, its result and the workspace satisfy `Q`.
    A computation that cannot fail has just `Building.Ensures`.
  * `ensures_bind` and `returns_bind` compose what holds after the parts.  The
    single steps on the store are computed (`ensures_lift_bind`), so proofs
    never open the monad.
-/
import FormulaSheet.Term.Declaration

namespace FormulaSheet

namespace Reducing

variable {α β : Type}

/-- The outcome of `x` from the workspace `w` satisfies `Q`. -/
def Ensures (x : Reducing α) (w : Workspace) (Q : Except Fault α → Workspace → Prop) : Prop :=
  Q (StateT.run x.run w).1 (StateT.run x.run w).2

/-- If `x` succeeds from the workspace `w`, the result satisfies `Q`. -/
def Returns (x : Reducing α) (w : Workspace) (Q : α → Workspace → Prop) : Prop :=
  x.Ensures w fun r w' => ∀ a, r = .ok a → Q a w'

theorem Ensures.imp {x : Reducing α} {w : Workspace} {P Q : Except Fault α → Workspace → Prop}
    (h : x.Ensures w P) (hPQ : ∀ r w', P r w' → Q r w') : x.Ensures w Q :=
  hPQ _ _ h

theorem Returns.imp {x : Reducing α} {w : Workspace} {P Q : α → Workspace → Prop}
    (h : x.Returns w P) (hPQ : ∀ a w', P a w' → Q a w') : x.Returns w Q :=
  fun a ha => hPQ a _ (h a ha)

theorem Ensures.and {x : Reducing α} {w : Workspace} {P Q : Except Fault α → Workspace → Prop}
    (hP : x.Ensures w P) (hQ : x.Ensures w Q) : x.Ensures w fun r w' => P r w' ∧ Q r w' :=
  ⟨hP, hQ⟩

@[simp] theorem ensures_pure {a : α} {w : Workspace} {Q : Except Fault α → Workspace → Prop} :
    (pure a : Reducing α).Ensures w Q ↔ Q (.ok a) w :=
  Iff.rfl

@[simp] theorem ensures_throw {fault : Fault} {w : Workspace}
    {Q : Except Fault α → Workspace → Prop} :
    (throw fault : Reducing α).Ensures w Q ↔ Q (.error fault) w :=
  Iff.rfl

@[simp] theorem ensures_throw_bind {fault : Fault} {f : α → Reducing β} {w : Workspace}
    {Q : Except Fault β → Workspace → Prop} :
    (throw fault >>= f : Reducing β).Ensures w Q ↔ Q (.error fault) w :=
  Iff.rfl

/-- The store is read as it is. -/
@[simp] theorem ensures_store_bind {f : Store → Reducing β} {w : Workspace}
    {Q : Except Fault β → Workspace → Prop} :
    (liftM Building.store >>= f : Reducing β).Ensures w Q ↔ (f w.store).Ensures w Q :=
  Iff.rfl

/-- A step that cannot fail is just run. -/
@[simp] theorem ensures_lift_bind {b : Building α} {f : α → Reducing β} {w : Workspace}
    {Q : Except Fault β → Workspace → Prop} :
    (liftM b >>= f : Reducing β).Ensures w Q ↔
      (f (StateT.run b w).1).Ensures (StateT.run b w).2 Q :=
  Iff.rfl

@[simp] theorem ensures_lift {b : Building α} {w : Workspace}
    {Q : Except Fault α → Workspace → Prop} :
    (liftM b : Reducing α).Ensures w Q ↔ Q (.ok (StateT.run b w).1) (StateT.run b w).2 :=
  Iff.rfl

/-- A fault of the first part is the fault of the whole. -/
theorem ensures_bind {x : Reducing α} {f : α → Reducing β} {w : Workspace}
    {P : Except Fault α → Workspace → Prop} {Q : Except Fault β → Workspace → Prop}
    (hx : x.Ensures w P) (hok : ∀ a w', P (.ok a) w' → (f a).Ensures w' Q)
    (herror : ∀ fault w', P (.error fault) w' → Q (.error fault) w') : (x >>= f).Ensures w Q := by
  unfold Ensures at *
  rw [ExceptT.run_bind, StateT.run_bind]
  revert hx
  obtain ⟨r, w'⟩ := StateT.run x.run w
  cases r with
  | ok a => exact hok a w'
  | error fault => exact herror fault w'

@[simp] theorem returns_pure {a : α} {w : Workspace} {Q : α → Workspace → Prop} :
    (pure a : Reducing α).Returns w Q ↔ Q a w := by
  simp [Returns]

@[simp] theorem returns_throw {fault : Fault} {w : Workspace} {Q : α → Workspace → Prop} :
    (throw fault : Reducing α).Returns w Q := by
  simp [Returns]

@[simp] theorem returns_store_bind {f : Store → Reducing β} {w : Workspace}
    {Q : β → Workspace → Prop} :
    (liftM Building.store >>= f : Reducing β).Returns w Q ↔ (f w.store).Returns w Q :=
  Iff.rfl

@[simp] theorem returns_lift_bind {b : Building α} {f : α → Reducing β} {w : Workspace}
    {Q : β → Workspace → Prop} :
    (liftM b >>= f : Reducing β).Returns w Q ↔
      (f (StateT.run b w).1).Returns (StateT.run b w).2 Q :=
  Iff.rfl

@[simp] theorem returns_lift {b : Building α} {w : Workspace} {Q : α → Workspace → Prop} :
    (liftM b : Reducing α).Returns w Q ↔ Q (StateT.run b w).1 (StateT.run b w).2 := by
  simp [Returns]

theorem returns_bind {x : Reducing α} {f : α → Reducing β} {w : Workspace}
    {P : α → Workspace → Prop} {Q : β → Workspace → Prop} (hx : x.Returns w P)
    (hok : ∀ a w', P a w' → (f a).Returns w' Q) : (x >>= f).Returns w Q :=
  ensures_bind hx (fun a w' h => hok a w' (h a rfl)) (by simp)

end Reducing

/-! ## Steps on the store -/

namespace Workspace

/-- The workspace with another store. -/
def withStore (w : Workspace) (s : Store) : Workspace :=
  { w with store := s }

@[simp] theorem store_withStore (w : Workspace) (s : Store) : (w.withStore s).store = s := rfl

/-- The workspace with one more event. -/
def noting (w : Workspace) (e : Event) : Workspace :=
  { w with log := w.log.push e }

end Workspace

namespace Building

variable {α β : Type}

/-- The result of `x` from the workspace `w` satisfies `Q`. -/
def Ensures (x : Building α) (w : Workspace) (Q : α → Workspace → Prop) : Prop :=
  Q (StateT.run x w).1 (StateT.run x w).2

theorem Ensures.imp {x : Building α} {w : Workspace} {P Q : α → Workspace → Prop}
    (h : x.Ensures w P) (hPQ : ∀ a w', P a w' → Q a w') : x.Ensures w Q :=
  hPQ _ _ h

theorem Ensures.and {x : Building α} {w : Workspace} {P Q : α → Workspace → Prop}
    (hP : x.Ensures w P) (hQ : x.Ensures w Q) : x.Ensures w fun a w' => P a w' ∧ Q a w' :=
  ⟨hP, hQ⟩

theorem ensures_bind {x : Building α} {f : α → Building β} {w : Workspace}
    {Q : β → Workspace → Prop} :
    (x >>= f).Ensures w Q ↔ x.Ensures w fun a w' => (f a).Ensures w' Q :=
  Iff.rfl

/-- What a reduction ensures can be said of its outcome as a value. -/
theorem ensures_run {x : Reducing α} {w : Workspace} {Q : Except Fault α → Workspace → Prop} :
    Ensures x.run w Q ↔ x.Ensures w Q :=
  Iff.rfl

@[simp] theorem run_store (w : Workspace) : StateT.run store w = (w.store, w) := rfl

@[simp] theorem run_note (w : Workspace) (e : Event) :
    StateT.run (note e) w = ((), w.noting e) := rfl

end Building

namespace Store

/-- Take the operands from the operators among some elements. -/
def release (s : Store) : List ElementId → Store
  | [] => s
  | id :: ids => (s.modify id Element.released).release ids

end Store

namespace Term

open Building

@[simp] theorem run_buildNode (c : Context) (kind : Kind) (raw : String) (w : Workspace) :
    StateT.run (buildNode c kind raw) w =
      (w.store.size, w.withStore (w.store.push { kind, raw, line := c.line, sealed := true })) :=
  rfl

@[simp] theorem run_missingOperand (id : ElementId) (w : Workspace) :
    StateT.run (missingOperand id) w = (.missingOperand (w.store.get id).raw, w) := rfl

@[simp] theorem run_giveOperands (id : ElementId) (first second : Option ElementId)
    (w : Workspace) : StateT.run (giveOperands id first second) w =
      ((), w.withStore (w.store.modify id (·.withOperands first second))) := rfl

@[simp] theorem run_foldSign (id operand : ElementId) (w : Workspace) :
    StateT.run (foldSign id operand) w =
      ((), w.withStore (w.store.modify id (·.signOf operand))) := rfl

@[simp] theorem run_release (ids : List ElementId) (w : Workspace) :
    StateT.run (release ids) w = ((), w.withStore (w.store.release ids)) := by
  induction ids generalizing w with
  | nil => rfl
  | cons id ids ih =>
    rw [release, StateT.run_bind]
    exact ih _

@[simp] theorem run_buildError (c : Context) (fault : Fault) (children : List ElementId)
    (w : Workspace) : StateT.run (buildError c fault children) w =
      (w.store.size, (w.noting (.unreduced c.line fault)).withStore (w.store.push
        { kind := .error fault children, raw := w.store.rawText " " children, line := c.line
          sealed := true })) := rfl

/-- A reduction that fails releases its operators and keeps its fault. -/
theorem ensures_releasing {α : Type} {term : List ElementId} {x : Reducing α} {w : Workspace}
    {Q : Except Fault α → Workspace → Prop}
    (h : x.Ensures w fun r w' => match r with
      | .ok a => Q (.ok a) w'
      | .error fault => Q (.error fault) (w'.withStore (w'.store.release term))) :
    (releasing term x).Ensures w Q := by
  unfold Reducing.Ensures at *
  rw [releasing, ExceptT.run_tryCatch, StateT.run_bind]
  revert h
  obtain ⟨r, w'⟩ := StateT.run x.run w
  cases r with
  | ok a => exact id
  | error fault =>
    intro h
    show (liftM (release term) >>= fun _ => throw fault : Reducing α).Ensures w' Q
    simpa using h

theorem returns_releasing {α : Type} {term : List ElementId} {x : Reducing α} {w : Workspace}
    {Q : α → Workspace → Prop} (h : x.Returns w Q) : (releasing term x).Returns w Q := by
  refine ensures_releasing (Reducing.Ensures.imp h fun r w' hr => ?_)
  cases r with
  | ok a => exact hr
  | error fault => simp

end Term

end FormulaSheet
