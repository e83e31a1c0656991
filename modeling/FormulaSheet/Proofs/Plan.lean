/-
  Rendering as a plan: what an element has written below it, and what becomes of
  the texts.

  * `plan script options id parent scope` says what is noted, which elements are
    written inside which parent and under which scope, and how their texts are
    put together.  It does not write anything itself.
  * `renderNode_eq`: an element is written by running its plan.  Everything
    about the recursion is then said of plans.
-/
import FormulaSheet.Render
import Mathlib.Data.List.Forall2

namespace FormulaSheet.Render

/-- An element that is to be written. -/
structure Request where
  id : ElementId
  parent : Option ElementId
  scope : Scope
  deriving DecidableEq

/-- How an element is written. -/
structure Plan where
  /-- What is noted first. -/
  events : List Event
  /-- What is written, row by row. -/
  rows : List (List Request)
  /-- What becomes of the texts of the rows. -/
  finish : List (List String) → Except RenderFault String

namespace Plan

/-- Carry out a plan. -/
def run (p : Plan) (render : Renderer) : Rendering String := do
  p.events.forM note
  let rows ← p.rows.mapM fun row => row.mapM fun r => render r.id r.parent r.scope
  match p.finish rows with
  | .ok text => return text
  | .error fault => throw fault

/-- A text that depends on nothing below. -/
def text (t : String) : Plan :=
  ⟨[], [], fun _ => .ok t⟩

/-- Nothing can be written. -/
def fault (f : RenderFault) : Plan :=
  ⟨[], [], fun _ => .error f⟩

/-- Another element is written instead. -/
def instead (events : List Event) (r : Request) : Plan :=
  ⟨events, [[r]], fun rows => .ok (String.join rows.flatten)⟩

end Plan

/-- The children of an element, as they are to be written. -/
def below (parent : ElementId) (scope : Scope) (ids : List ElementId) : List Request :=
  ids.map fun id => ⟨id, some parent, scope⟩

/-- The text of an operator. -/
def operatorText (style : Style) (symbol : String) (role : Role) (nested : Bool)
    (first second : Option String) : Except RenderFault String :=
  let missing := Except.error (RenderFault.missingOperand symbol)
  let written := style.symbol symbol
  if symbol = "/" then
    .ok ("\\frac\x7b" ++ first.getD "" ++ "\x7d\x7b" ++ second.getD "" ++ "\x7d")
  else
    match role, first, second with
    | .binary, some first, some second =>
      let text := first ++ " " ++ written ++ " " ++ second
      .ok (if nested then "(" ++ text ++ ")" else text)
    | .function, some first, _ => .ok (written ++ "(" ++ first ++ ")")
    | .sign, some first, _ => .ok (written ++ first)
    | _, _, _ => missing

/-- The text of an array from the texts of its cells. -/
def arrayText (environment : Matrix) (rows : List (List String)) : String :=
  "\\begin\x7b" ++ environment.name ++ "\x7d" ++ "\\\\".intercalate (rows.map "&".intercalate) ++
    "\\end\x7b" ++ environment.name ++ "\x7d"

/-- A head with the texts that follow it in parentheses. -/
def listText (head separator : String) (texts : List String) : String :=
  head ++ "(" ++ separator.intercalate texts ++ ")"

/-- How a call is written. -/
def planCall (script : Script) (inlining : Bool) (id function : ElementId)
    (arguments : List ElementId) (parent : Option ElementId) (scope : Scope) : Plan :=
  let raw := (script.store.get id).raw
  match script.store.kind function with
  | .function parameters body =>
    if !inlining || scope.holds function then
      match script.declaredName? function with
      | none => .fault (.undeclaredFunction raw)
      | some name =>
        ⟨[], [below id scope arguments], fun rows => .ok (listText name ", " rows.flatten)⟩
    else
      match body with
      | none => .fault .missingBody
      | some body =>
        .instead [.inlined raw]
          ⟨body, parent, ⟨function, bind script.store parameters arguments⟩ :: scope⟩
  | _ => .fault (.notAFunction raw)

/-- How an element is written. -/
def plan (script : Script) (options : RenderOptions) (id : ElementId) (parent : Option ElementId)
    (scope : Scope) : Plan :=
  let e := script.store.get id
  match e.kind with
  | .blank => .text options.style.mediumSkip
  | .name name =>
    match scope.argument? name with
    | some (argument, outer) => .instead [] ⟨argument, parent, outer⟩
    | none => .text (formatVariable options.style name)
  | .value text => .text text
  | .operator symbol role first second =>
    let nested := parent.any fun p => (script.store.kind p).isOperator
    ⟨[], [below id scope first.toList, below id scope second.toList], fun rows =>
      operatorText options.style symbol role nested (rows.headD []).head?
        (rows.tail.headD []).head?⟩
  | .array cells =>
    ⟨[], (List.range (rowCount cells)).map fun row =>
        below id scope ((rowCells cells row).map Cell.value),
      fun rows => .ok (arrayText options.style.matrix rows)⟩
  | .access target indexes =>
    ⟨[], [below id [] [target], below id [] indexes], fun rows =>
      .ok (listText (String.join (rows.headD [])) "," rows.tail.flatten)⟩
  | .function _ none => .fault .missingBody
  | .function parameters (some body) =>
    ⟨[], [below id scope parameters, below id scope [body]], fun rows =>
      .ok ("@(" ++ ",".intercalate (rows.headD []) ++ ") " ++ String.join rows.tail.flatten)⟩
  | .call function arguments =>
    planCall script options.inlining id function arguments parent scope
  | .declaration target content _ =>
    ⟨[], [below id scope [target], below id scope [content]], fun rows =>
      .ok (String.join (rows.headD []) ++ " = " ++ String.join rows.tail.flatten)⟩
  | .error fault _ => .text (e.raw ++ " -- " ++ fault.message)
  | .passThrough =>
    ⟨((scope.mentioned? e.raw).map (.unsubstituted e.line e.raw)).toList, [], fun _ => .ok e.raw⟩
  | .assignment | .delimiter _ _ | .semicolon | .comma | .functionMarker => .text e.raw

theorem writeOperator_eq (style : Style) (symbol : String) (role : Role) (nested : Bool)
    (first second : Option String) : writeOperator style symbol role nested first second =
      match operatorText style symbol role nested first second with
      | .ok text => return text
      | .error fault => throw fault := by
  unfold writeOperator operatorText
  by_cases hs : symbol = "/"
  · simp [hs]
  · cases role <;> cases first <;> cases second <;> simp [hs, needed]

theorem mapM_map_result {α β γ : Type} (f : β → γ) (g : α → Rendering β) (xs : List α) :
    (xs.mapM fun x => f <$> g x) = List.map f <$> xs.mapM g := by
  induction xs with
  | nil => simp
  | cons x xs ih => simp [ih]

theorem renderCall_eq (script : Script) (inlining : Bool) (render : Renderer)
    (id function : ElementId) (arguments : List ElementId) (parent : Option ElementId)
    (scope : Scope) :
    renderCall script inlining render id function arguments parent scope =
      (planCall script inlining id function arguments parent scope).run render := by
  unfold renderCall planCall
  cases script.store.kind function with
  | function parameters body =>
    simp only
    split
    · cases script.declaredName? function with
      | none => simp [Plan.run, Plan.fault]
      | some name => simp [Plan.run, renderList, below, listText, List.mapM_map, Function.comp_def]
    · cases body with
      | none => simp [Plan.run, Plan.fault]
      | some body => simp [Plan.run, Plan.instead]
  | _ => simp [Plan.run, Plan.fault]

/-- **An element is written by running its plan.** -/
theorem renderNode_eq (script : Script) (options : RenderOptions) (render : Renderer)
    (id : ElementId) (parent : Option ElementId) (scope : Scope) :
    renderNode script options render id parent scope =
      (plan script options id parent scope).run render := by
  unfold renderNode plan
  dsimp only
  cases hk : (script.store.get id).kind with
  | name name =>
    simp only
    cases scope.argument? name with
    | none => simp [Plan.run, Plan.text]
    | some bound => simp [Plan.run, Plan.instead]
  | operator symbol role first second =>
    cases first <;> cases second <;>
      simp [Plan.run, renderOperand, below, writeOperator_eq]
  | array cells =>
    simp [Plan.run, renderArray, renderList, below, arrayText, List.mapM_map, Function.comp_def,
      mapM_map_result]
  | access target indexes =>
    simp [Plan.run, renderList, below, listText, List.mapM_map, Function.comp_def]
  | function parameters body =>
    cases body with
    | none => simp [Plan.run, Plan.fault]
    | some body => simp [Plan.run, renderList, below, List.mapM_map, Function.comp_def]
  | call function arguments =>
    exact renderCall_eq script _ render id function arguments parent scope
  | declaration target content form => simp [Plan.run, below]
  | passThrough =>
    simp only
    cases scope.mentioned? (script.store.get id).raw with
    | none => simp [Plan.run]
    | some parameter => simp [Plan.run]
  | _ => simp [Plan.run, Plan.text]

/-! ## Running renderings -/

namespace Rendering

variable {α β : Type}

/-- What comes of a rendering that starts with the given log. -/
def runFrom (x : Rendering α) (log : Log) : Option (Except RenderFault α × Log) :=
  StateT.run x.run log

theorem runFrom_bind (x : Rendering α) (f : α → Rendering β) (log : Log) :
    runFrom (x >>= f) log =
      match runFrom x log with
      | none => none
      | some (.ok a, log') => runFrom (f a) log'
      | some (.error fault, log') => some (.error fault, log') := by
  unfold runFrom
  rw [ExceptT.run_bind, StateT.run_bind]
  cases StateT.run x.run log with
  | none => rfl
  | some r =>
    obtain ⟨r, log'⟩ := r
    cases r with
    | ok a => rfl
    | error fault => rfl

/-- The rendering ends, whatever the log. -/
def Ends (x : Rendering α) : Prop :=
  ∀ log, ∃ r, runFrom x log = some r

theorem Ends.bind {x : Rendering α} {f : α → Rendering β} (hx : Ends x) (hf : ∀ a, Ends (f a)) :
    Ends (x >>= f) := by
  intro log
  rw [runFrom_bind]
  obtain ⟨⟨r, log'⟩, hr⟩ := hx log
  rw [hr]
  cases r with
  | ok a => exact hf a log'
  | error fault => exact ⟨_, rfl⟩

theorem ends_pure (a : α) : Ends (pure a) := fun _ => ⟨_, rfl⟩

theorem ends_throw (fault : RenderFault) : Ends (throw fault : Rendering α) := fun _ => ⟨_, rfl⟩

theorem ends_mapM {f : α → Rendering β} {xs : List α} (h : ∀ x ∈ xs, Ends (f x)) :
    Ends (xs.mapM f) := by
  induction xs with
  | nil => exact ends_pure []
  | cons x xs ih =>
    obtain ⟨hx, hxs⟩ := List.forall_mem_cons.1 h
    rw [List.mapM_cons]
    exact hx.bind fun a => (ih hxs).bind fun as => ends_pure _

theorem ends_notes (events : List Event) : Ends (events.forM note) := by
  induction events with
  | nil => exact ends_pure ()
  | cons e events ih =>
    show Ends (note e >>= fun _ => events.forM note)
    exact Ends.bind (fun _ => ⟨_, rfl⟩) fun _ => ih

/-- Where `x` ends, `y` ends as `x` does. -/
def Refines (x y : Rendering α) : Prop :=
  ∀ log r, runFrom x log = some r → runFrom y log = some r

theorem Refines.refl (x : Rendering α) : Refines x x := fun _ _ h => h

theorem Refines.bind {x y : Rendering α} {f g : α → Rendering β} (hx : Refines x y)
    (hf : ∀ a, Refines (f a) (g a)) : Refines (x >>= f) (y >>= g) := by
  intro log r h
  rw [runFrom_bind] at h ⊢
  cases hrun : runFrom x log with
  | none =>
    rw [hrun] at h
    cases h
  | some r' =>
    obtain ⟨r', log'⟩ := r'
    rw [hrun] at h
    rw [hx log _ hrun]
    cases r' with
    | ok a => exact hf a log' r h
    | error fault => exact h

theorem refines_mapM {f g : α → Rendering β} (h : ∀ x, Refines (f x) (g x)) (xs : List α) :
    Refines (xs.mapM f) (xs.mapM g) := by
  induction xs with
  | nil => exact .refl _
  | cons x xs ih =>
    rw [List.mapM_cons, List.mapM_cons]
    exact (h x).bind fun a => ih.bind fun as => .refl _

/-- Started with some log, the rendering gives `a`. -/
def Gives (x : Rendering α) (a : α) : Prop :=
  ∃ log log', runFrom x log = some (.ok a, log')

/-- The rendering gives `a`, whatever the log. -/
def Always (x : Rendering α) (a : α) : Prop :=
  ∀ log, ∃ log', runFrom x log = some (.ok a, log')

/-- Started with some log, the rendering stops with a fault. -/
def Fails (x : Rendering α) : Prop :=
  ∃ log fault log', runFrom x log = some (.error fault, log')

theorem Always.bind {x : Rendering α} {f : α → Rendering β} {a : α} {b : β} (hx : Always x a)
    (hf : Always (f a) b) : Always (x >>= f) b := by
  intro log
  obtain ⟨log', hrun⟩ := hx log
  rw [runFrom_bind, hrun]
  exact hf log'

theorem Always.refines {x y : Rendering α} {a : α} (h : Always x a) (hr : Refines x y) :
    Always y a := by
  intro log
  obtain ⟨log', hrun⟩ := h log
  exact ⟨log', hr log _ hrun⟩

theorem always_pure (a : α) : Always (pure a) a := fun log => ⟨log, rfl⟩

theorem always_mapM {f : α → Rendering β} {xs : List α} {ys : List β}
    (h : List.Forall₂ (fun x y => Always (f x) y) xs ys) : Always (xs.mapM f) ys := by
  induction h with
  | nil => exact always_pure []
  | cons hx _ ih =>
    rw [List.mapM_cons]
    exact hx.bind (ih.bind (always_pure _))

theorem always_notes (events : List Event) : Always (events.forM note) () := by
  induction events with
  | nil => exact always_pure ()
  | cons e events ih =>
    show Always (note e >>= fun _ => events.forM note) ()
    exact Always.bind (fun log => ⟨log.push e, rfl⟩) ih

/-- The parts of a rendering that gives something give something. -/
theorem Gives.of_bind {x : Rendering α} {f : α → Rendering β} {b : β} (h : Gives (x >>= f) b) :
    ∃ a, Gives x a ∧ Gives (f a) b := by
  obtain ⟨log, log', h⟩ := h
  rw [runFrom_bind] at h
  cases hrun : runFrom x log with
  | none =>
    rw [hrun] at h
    cases h
  | some r =>
    obtain ⟨r, log₁⟩ := r
    rw [hrun] at h
    cases r with
    | ok a => exact ⟨a, ⟨log, log₁, hrun⟩, log₁, log', h⟩
    | error fault => cases h

theorem Gives.eq_of_pure {a b : α} (h : Gives (pure a) b) : b = a := by
  obtain ⟨log, log', ⟨⟩⟩ := h
  rfl

theorem Gives.of_mapM {f : α → Rendering β} {xs : List α} {ys : List β}
    (h : Gives (xs.mapM f) ys) : List.Forall₂ (fun x y => Gives (f x) y) xs ys := by
  induction xs generalizing ys with
  | nil =>
    rw [List.mapM_nil] at h
    rw [h.eq_of_pure]
    exact .nil
  | cons x xs ih =>
    rw [List.mapM_cons] at h
    obtain ⟨y, hy, h⟩ := h.of_bind
    obtain ⟨ys', hys, h⟩ := h.of_bind
    rw [h.eq_of_pure]
    exact .cons hy (ih hys)

/-- A fault comes from one of the parts. -/
theorem Fails.of_bind {x : Rendering α} {f : α → Rendering β} (h : Fails (x >>= f)) :
    Fails x ∨ ∃ a, Gives x a ∧ Fails (f a) := by
  obtain ⟨log, fault, log', h⟩ := h
  rw [runFrom_bind] at h
  cases hrun : runFrom x log with
  | none =>
    rw [hrun] at h
    cases h
  | some r =>
    obtain ⟨r, log₁⟩ := r
    rw [hrun] at h
    cases r with
    | ok a => exact Or.inr ⟨a, ⟨log, log₁, hrun⟩, log₁, fault, log', h⟩
    | error fault' => exact Or.inl ⟨log, fault', log₁, hrun⟩

theorem not_fails_pure (a : α) : ¬ Fails (pure a) := by
  rintro ⟨log, fault, log', ⟨⟩⟩

theorem Fails.of_mapM {f : α → Rendering β} {xs : List α} (h : Fails (xs.mapM f)) :
    ∃ x ∈ xs, Fails (f x) := by
  induction xs with
  | nil => exact absurd h (not_fails_pure [])
  | cons x xs ih =>
    rw [List.mapM_cons] at h
    rcases h.of_bind with hx | ⟨y, -, h⟩
    · exact ⟨x, List.mem_cons_self, hx⟩
    · rcases h.of_bind with hxs | ⟨ys, -, h⟩
      · obtain ⟨z, hz, hf⟩ := ih hxs
        exact ⟨z, List.mem_cons_of_mem x hz, hf⟩
      · exact absurd h (not_fails_pure _)

end Rendering

/-! ## Running plans -/

namespace Plan

open Rendering

variable {p : Plan} {render render' : Renderer}

/-- A plan ends if everything it asks for does. -/
theorem ends_run (h : ∀ row ∈ p.rows, ∀ r ∈ row, Ends (render r.id r.parent r.scope)) :
    Ends (p.run render) := by
  refine (ends_notes p.events).bind fun _ => ?_
  refine (ends_mapM fun row hrow => ends_mapM (h row hrow)).bind fun rows => ?_
  cases p.finish rows with
  | ok text => exact ends_pure text
  | error fault => exact ends_throw fault

theorem refines_run (h : ∀ id parent scope, Refines (render id parent scope)
    (render' id parent scope)) : Refines (p.run render) (p.run render') := by
  refine Refines.bind (.refl _) fun _ => ?_
  refine Refines.bind (refines_mapM (fun row => refines_mapM (fun r => h _ _ _) row) p.rows) ?_
  exact fun rows => .refl _

theorem always_run {rows : List (List String)} {text : String}
    (h : List.Forall₂ (List.Forall₂ fun r t => Always (render r.id r.parent r.scope) t) p.rows rows)
    (hf : p.finish rows = .ok text) : Always (p.run render) text := by
  have hrows := always_mapM (h.imp fun row texts hrow => always_mapM hrow)
  refine (always_notes p.events).bind (hrows.bind ?_)
  rw [hf]
  exact always_pure text

theorem gives_run {text : String} (h : Gives (p.run render) text) :
    ∃ rows, List.Forall₂ (List.Forall₂ fun r t => Gives (render r.id r.parent r.scope) t)
      p.rows rows ∧ p.finish rows = .ok text := by
  obtain ⟨-, -, h⟩ := Gives.of_bind h
  obtain ⟨rows, hrows, h⟩ := Gives.of_bind h
  refine ⟨rows, hrows.of_mapM.imp fun row texts hrow => hrow.of_mapM, ?_⟩
  cases hf : p.finish rows with
  | ok text' =>
    rw [hf] at h
    rw [h.eq_of_pure]
  | error fault =>
    rw [hf] at h
    obtain ⟨log, log', ⟨⟩⟩ := h

/-- If a plan fails, something it asks for does, or the texts do not fit. -/
theorem fails_run (h : Fails (p.run render)) :
    (∃ row ∈ p.rows, ∃ r ∈ row, Fails (render r.id r.parent r.scope)) ∨
    ∃ rows, List.Forall₂ (List.Forall₂ fun r t => Gives (render r.id r.parent r.scope) t)
      p.rows rows ∧ ∀ text, p.finish rows ≠ .ok text := by
  rcases Fails.of_bind h with h | ⟨-, -, h⟩
  · obtain ⟨log, fault, log', hrun⟩ := h
    obtain ⟨log'', hok⟩ := always_notes p.events log
    rw [hrun] at hok
    cases hok
  · rcases Fails.of_bind h with h | ⟨rows, hrows, h⟩
    · obtain ⟨row, hrow, h⟩ := h.of_mapM
      exact Or.inl ⟨row, hrow, h.of_mapM⟩
    · refine Or.inr ⟨rows, hrows.of_mapM.imp fun row texts hrow => hrow.of_mapM, fun text hf => ?_⟩
      rw [hf] at h
      exact not_fails_pure text h

end Plan

/-! ## Depth -/

open Rendering

variable {script : Script} {options : RenderOptions}

/-- A greater depth changes nothing where a smaller one is enough. -/
theorem refines_renderWithin {n m : Nat} (h : n ≤ m) (id : ElementId) (parent : Option ElementId)
    (scope : Scope) :
    Refines (renderWithin script options n id parent scope)
      (renderWithin script options m id parent scope) := by
  induction n generalizing m id parent scope with
  | zero =>
    intro log r hrun
    cases hrun
  | succ n ih =>
    obtain ⟨m, rfl⟩ : ∃ k, m = k + 1 := ⟨m - 1, by omega⟩
    rw [renderWithin, renderWithin, renderNode_eq, renderNode_eq]
    exact Plan.refines_run (ih (Nat.le_of_succ_le_succ h))

/-- What is written does not depend on the log. -/
theorem always_of_gives {n : Nat} {id : ElementId} {parent : Option ElementId} {scope : Scope}
    {text : String} (h : Gives (renderWithin script options n id parent scope) text) :
    Always (renderWithin script options n id parent scope) text := by
  induction n generalizing id parent scope text with
  | zero =>
    obtain ⟨log, log', ⟨⟩⟩ := h
  | succ n ih =>
    rw [renderWithin, renderNode_eq] at h ⊢
    obtain ⟨rows, hrows, hf⟩ := Plan.gives_run h
    exact Plan.always_run (hrows.imp fun row texts hrow => hrow.imp fun r t ht => ih ht) hf

end FormulaSheet.Render
