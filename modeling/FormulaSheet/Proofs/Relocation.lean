/-
  Rendering at other positions.

  What is written does not depend on where the elements are, nor on what has
  been noted before.

  * `Rendering.Agree x y`: both end with the same text or fault, or none of them
    ends, whatever the logs.
  * `plan_rename`: at other positions the plan of an element is the same, up to
    the positions; so at every depth the same is written (`agree_renderWithin`).
  * `Script.line?`: the line of a statement, if its rendering ends; a script is
    written line by line (`render_eq_some_iff`).  Statements that are written alike
    at every depth have the same line (`line?_congr`), so it is the same at another
    position (`line?_rename`).  The stores may differ in size and so in the depth
    that is allowed, but a rendering that ends at all ends within it.
-/
import FormulaSheet.Proofs.Inlining
import FormulaSheet.Proofs.Lines
import FormulaSheet.Proofs.Termination

namespace FormulaSheet

open Store Render Rendering

/-! ## The same outcome -/

namespace Render.Rendering

variable {α β γ δ : Type}

/-- The same outcome, whatever is noted. -/
def Agree (x y : Rendering α) : Prop :=
  ∀ log log', (runFrom x log).map Prod.fst = (runFrom y log').map Prod.fst

theorem agree_pure (a : α) : Agree (pure a) (pure a) := fun _ _ => rfl

theorem agree_throw (fault : RenderFault) : Agree (throw fault : Rendering α) (throw fault) :=
  fun _ _ => rfl

theorem Agree.bind {x y : Rendering α} {f g : α → Rendering β} (hx : Agree x y)
    (hf : ∀ a, Agree (f a) (g a)) : Agree (x >>= f) (y >>= g) := by
  intro log log'
  have h := hx log log'
  rw [runFrom_bind, runFrom_bind]
  cases hrun : runFrom x log with
  | none =>
    rw [hrun] at h
    rw [Option.map_eq_none_iff.1 h.symm]
  | some r =>
    rw [hrun] at h
    obtain ⟨r', hrun', he⟩ := Option.map_eq_some_iff.1 h.symm
    rw [hrun']
    obtain ⟨r, log₁⟩ := r
    obtain ⟨r', log₂⟩ := r'
    obtain rfl : r' = r := he
    cases r' with
    | ok a => exact hf a log₁ log₂
    | error fault => rfl

theorem agree_mapM {f : α → Rendering γ} {g : β → Rendering γ} {xs : List α} {ys : List β}
    (h : List.Forall₂ (fun x y => Agree (f x) (g y)) xs ys) : Agree (xs.mapM f) (ys.mapM g) := by
  induction h with
  | nil => exact agree_pure []
  | cons hx _ ih =>
    rw [List.mapM_cons, List.mapM_cons]
    exact hx.bind fun a => ih.bind fun as => agree_pure _

theorem agree_notes (events events' : List Event) :
    Agree (events.forM note) (events'.forM note) := by
  intro log log'
  obtain ⟨log₁, h⟩ := always_notes events log
  obtain ⟨log₂, h'⟩ := always_notes events' log'
  rw [h, h']
  rfl

end Render.Rendering

/-! ## Plans -/

namespace Render

variable {ρ : Renaming} {n : Nat}

/-- Plans that ask for corresponding elements and put the texts together in the
    same way. -/
structure Plan.Like (f : Request → Request) (p p' : Plan) : Prop where
  rows : p'.rows = p.rows.map (List.map f)
  finish : p'.finish = p.finish

theorem Plan.Like.agree_run {f : Request → Request} {p p' : Plan} (h : p.Like f p')
    {render render' : Renderer} (hr : ∀ r, Agree (render r.id r.parent r.scope)
      (render' (f r).id (f r).parent (f r).scope)) : Agree (p.run render) (p'.run render') := by
  refine (agree_notes p.events p'.events).bind fun _ => ?_
  have hrows : List.Forall₂ (List.Forall₂ fun r r' => Agree (render r.id r.parent r.scope)
      (render' r'.id r'.parent r'.scope)) p.rows p'.rows := by
    rw [h.rows, List.forall₂_map_right_iff, List.forall₂_same]
    intro row _
    rw [List.forall₂_map_right_iff, List.forall₂_same]
    exact fun r _ => hr r
  refine (agree_mapM (hrows.imp fun _ _ hrow => agree_mapM hrow)).bind fun rows => ?_
  rw [h.finish]
  cases p.finish rows with
  | ok text => exact agree_pure text
  | error fault => exact agree_throw fault

/-- The frame with other ids. -/
def Frame.rename (f : ElementId → ElementId) (frame : Frame) : Frame :=
  ⟨f frame.function, frame.bindings.map fun binding => (binding.1, f binding.2)⟩

/-- The scope with other ids. -/
def Scope.rename (f : ElementId → ElementId) (scope : Scope) : Scope :=
  scope.map (Frame.rename f)

/-- The request with other ids. -/
def Request.rename (f : ElementId → ElementId) (r : Request) : Request :=
  ⟨f r.id, r.parent.map f, Scope.rename f r.scope⟩

theorem argument?_rename (f : ElementId → ElementId) (scope : Scope) (name : String) :
    Scope.argument? (Scope.rename f scope) name =
      (Scope.argument? scope name).map fun bound => (f bound.1, Scope.rename f bound.2) := by
  cases scope with
  | nil => rfl
  | cons frame outer =>
    simp only [Scope.rename, List.map_cons, Scope.argument?, Frame.argument?, Frame.rename,
      List.find?_map, Option.map_map]
    rfl

theorem holds_rename (ρ : Renaming) (scope : Scope) (function : ElementId) :
    Scope.holds (Scope.rename ρ scope) (ρ function) = Scope.holds scope function := by
  unfold Scope.holds Scope.rename
  rw [List.any_map]
  refine congrArg (List.any scope) (funext fun frame => ?_)
  show (ρ frame.function == ρ function) = (frame.function == function)
  by_cases he : frame.function = function
  · rw [he, beq_self_eq_true, beq_self_eq_true]
  · rw [beq_false_of_ne he, beq_false_of_ne fun he' => he (ρ.injective he')]

theorem below_rename (f : ElementId → ElementId) (parent : ElementId) (scope : Scope)
    (ids : List ElementId) :
    below (f parent) (Scope.rename f scope) (ids.map f) =
      (below parent scope ids).map (Request.rename f) := by
  unfold below
  rw [List.map_map, List.map_map]
  rfl

/-- The same names are bound. -/
theorem bind_rename {s s' : Store} (h : s.Renames ρ n s') (parameters arguments : List ElementId) :
    bind s' (parameters.map ρ) (arguments.map ρ) =
      (bind s parameters arguments).map fun binding => (binding.1, ρ binding.2) := by
  unfold bind
  rw [Term.filterMap_name?_rename h, List.zip_map_right]
  rfl

theorem forall₂_rename (f : ElementId → ElementId) (cells : List Cell) :
    List.Forall₂ (fun c c' => f c.value = c'.value ∧ c'.row = c.row ∧ c'.col = c.col) cells
      (cells.map (Cell.rename f)) := by
  rw [List.forall₂_map_right_iff, List.forall₂_same]
  exact fun cell _ => ⟨rfl, rfl, rfl⟩

theorem rowCells_rename (f : ElementId → ElementId) (cells : List Cell) (row : Nat) :
    (rowCells (cells.map (Cell.rename f)) row).map Cell.value =
      ((rowCells cells row).map Cell.value).map f := by
  have h := forall₂_rowCells (R := fun x y => f x = y) (forall₂_rename f cells) row
  rw [← List.forall₂_map_left_iff, List.forall₂_eq_eq_eq] at h
  exact h.symm

variable {script script' : Script} (hs : script.store.Renames ρ n script'.store)
include hs

theorem declaredName?_rename (id : ElementId) :
    script'.declaredName? (ρ id) = script.declaredName? id := by
  unfold Script.declaredName?
  rw [(hs.get id).owner]
  cases (script.store.get id).owner with
  | none => rfl
  | some owner =>
    dsimp only [Option.map_some]
    rw [hs.kind]
    cases script.store.kind owner with
    | declaration target content form =>
      dsimp only [Kind.rename]
      rw [hs.kind, Kind.name?_rename]
    | _ => rfl

theorem planCall_rename {id : ElementId}
    (hraw : (script'.store.get (ρ id)).raw = (script.store.get id).raw) (inlining : Bool)
    (function : ElementId) (arguments : List ElementId) (parent : Option ElementId)
    (scope : Scope) :
    (planCall script inlining id function arguments parent scope).Like (Request.rename ρ)
      (planCall script' inlining (ρ id) (ρ function) (arguments.map ρ) (parent.map ρ)
        (Scope.rename ρ scope)) := by
  unfold planCall
  dsimp only
  rw [hs.kind, hraw, holds_rename, declaredName?_rename hs]
  cases script.store.kind function with
  | function parameters body =>
    dsimp only [Kind.rename]
    by_cases hcall : (!inlining || scope.holds function) = true
    · rw [if_pos hcall, if_pos hcall]
      cases script.declaredName? function with
      | none => exact ⟨rfl, rfl⟩
      | some name =>
        dsimp only
        rw [below_rename]
        exact ⟨rfl, rfl⟩
    · rw [if_neg hcall, if_neg hcall]
      cases body with
      | none => exact ⟨rfl, rfl⟩
      | some body =>
        dsimp only [Option.map_some]
        rw [bind_rename hs]
        exact ⟨rfl, rfl⟩
  | _ => exact ⟨rfl, rfl⟩

/-- **At another position an element is written in the same way**: no declaration
    writes its source text. -/
theorem plan_rename (options : RenderOptions) (id : ElementId) (parent : Option ElementId)
    (scope : Scope) :
    (plan script options id parent scope).Like (Request.rename ρ)
      (plan script' options (ρ id) (parent.map ρ) (Scope.rename ρ scope)) := by
  -- Most elements have two rows of children.
  have two : ∀ (scope : Scope) (first second : List ElementId),
      [below (ρ id) (Scope.rename ρ scope) (first.map ρ),
        below (ρ id) (Scope.rename ρ scope) (second.map ρ)] =
      [below id scope first, below id scope second].map (List.map (Request.rename ρ)) := by
    intro scope first second
    rw [below_rename, below_rename]
    rfl
  have hraw : (script.store.kind id).isDeclaration = false →
      (script'.store.get (ρ id)).raw = (script.store.get id).raw :=
    fun hk => (hs.raw_of_isDeclaration hk).1
  unfold plan
  dsimp only
  rw [← Store.kind, ← Store.kind, hs.kind]
  cases hk : script.store.kind id with
  | name name =>
    rw [hraw (by rw [hk]; rfl)]
    dsimp only [Kind.rename]
    rw [argument?_rename]
    cases scope.argument? name with
    | none => exact ⟨rfl, rfl⟩
    | some bound => exact ⟨rfl, rfl⟩
  | operator symbol role first second =>
    have hnested : ((parent.map ρ).any fun p => (script'.store.kind p).isOperator) =
        parent.any fun p => (script.store.kind p).isOperator := by
      cases parent with
      | none => rfl
      | some p => exact (congrArg Kind.isOperator (hs.kind p)).trans (Kind.isOperator_rename _ _)
    dsimp only [Kind.rename]
    rw [hnested, Option.toList_map, Option.toList_map]
    exact ⟨two scope _ _, rfl⟩
  | array cells =>
    refine ⟨?_, rfl⟩
    dsimp only [Kind.rename]
    rw [rowCount_eq (R := fun x y => ρ x = y) (forall₂_rename ρ cells), List.map_map]
    refine List.map_congr_left fun row _ => ?_
    rw [rowCells_rename, below_rename]
    rfl
  | access target indexes => exact ⟨two [] [target] indexes, rfl⟩
  | function parameters body =>
    cases body with
    | none => exact ⟨rfl, rfl⟩
    | some body => exact ⟨two scope parameters [body], rfl⟩
  | call function arguments =>
    exact planCall_rename hs (hraw (by rw [hk]; rfl)) options.inlining function arguments parent
      scope
  | declaration target content form => exact ⟨two scope [target] [content], rfl⟩
  | _ =>
    rw [hraw (by rw [hk]; rfl)]
    exact ⟨rfl, rfl⟩

/-- At every depth the same is written. -/
theorem agree_renderWithin (options : RenderOptions) (depth : Nat) (id : ElementId)
    (parent : Option ElementId) (scope : Scope) :
    Agree (renderWithin script options depth id parent scope)
      (renderWithin script' options depth (ρ id) (parent.map ρ) (Scope.rename ρ scope)) := by
  induction depth generalizing id parent scope with
  | zero => exact fun _ _ => rfl
  | succ depth ih =>
    rw [renderWithin, renderWithin, renderNode_eq, renderNode_eq]
    exact (plan_rename hs options id parent scope).agree_run fun r => ih r.id r.parent r.scope

end Render

/-! ## Renderings that end -/

namespace Render

variable {script : Script} {options : RenderOptions} {id : ElementId} {parent : Option ElementId}
  {scope : Scope}

/-- A plan that comes to a text asks for everything. -/
theorem exists_mem_plan_of_mem_requests {rows : List (List String)} {text : String}
    (hok : (plan script options id parent scope).finish rows = .ok text) {x : ElementId}
    {scope' : Scope} (hx : (x, scope') ∈ requests script options.inlining id scope) :
    ∃ row ∈ (plan script options id parent scope).rows, ∃ r ∈ row, r.id = x ∧ r.scope = scope' := by
  have child : ∀ {scope₀ : Scope} {ids : List ElementId} {all : List (List Request)},
      (x ∈ ids → ∃ row ∈ all, ⟨x, some id, scope₀⟩ ∈ row) → (x, scope') ∈ ids.map (·, scope₀) →
      ∃ row ∈ all, ∃ r ∈ row, r.id = x ∧ r.scope = scope' := by
    intro scope₀ ids all h hm
    obtain ⟨y, hy, he⟩ := List.mem_map.1 hm
    obtain ⟨rfl, rfl⟩ := Prod.mk.inj he
    obtain ⟨row, hrow, hr⟩ := h hy
    exact ⟨row, hrow, _, hr, rfl, rfl⟩
  unfold requests at hx
  unfold plan at hok ⊢
  dsimp only at hok ⊢
  rw [← Store.kind] at hok ⊢
  cases hk : script.store.kind id with
  | name name =>
    rw [hk] at hx
    dsimp only at hx ⊢
    rw [Option.mem_toList] at hx
    rw [hx]
    exact ⟨_, List.mem_cons_self, _, List.mem_cons_self, rfl, rfl⟩
  | operator symbol role first second =>
    rw [hk] at hx
    exact child exists_mem_two_rows hx
  | array cells =>
    rw [hk] at hx
    exact child exists_mem_array_rows hx
  | access target indexes =>
    rw [hk] at hx
    exact child exists_mem_two_rows hx
  | function parameters body =>
    rw [hk] at hx hok
    cases body with
    | none => cases hok
    | some body => exact child exists_mem_two_rows hx
  | call function arguments =>
    rw [hk] at hx hok
    unfold planCall at hok ⊢
    dsimp only at hx hok ⊢
    cases hf : script.store.kind function with
    | function parameters body =>
      rw [hf] at hx hok
      dsimp only at hx hok ⊢
      by_cases hcall : (!options.inlining || scope.holds function) = true
      · rw [if_pos hcall] at hx hok ⊢
        cases hname : script.declaredName? function with
        | none =>
          rw [hname] at hok
          cases hok
        | some name =>
          refine child (fun hm => ?_) hx
          exact ⟨_, List.mem_cons_self, List.mem_map.2 ⟨x, hm, rfl⟩⟩
      · rw [if_neg hcall] at hx hok ⊢
        cases body with
        | none => cases hok
        | some body =>
          obtain ⟨⟩ := List.mem_singleton.1 hx
          exact ⟨_, List.mem_cons_self, _, List.mem_cons_self, rfl, rfl⟩
    | _ =>
      rw [hf] at hx
      cases hx
  | declaration target content form =>
    rw [hk] at hx
    exact child (@exists_mem_two_rows id scope x [target] [content]) hx
  | _ =>
    rw [hk] at hx
    cases hx

/-- What gives a text at some depth is not deeper. -/
theorem endsWithin_of_gives {n : Nat} {text : String}
    (h : Gives (renderWithin script options n id parent scope) text) :
    EndsWithin script options.inlining n id scope := by
  induction n generalizing id parent scope text with
  | zero => obtain ⟨log, log', ⟨⟩⟩ := h
  | succ n ih =>
    rw [renderWithin, renderNode_eq] at h
    obtain ⟨rows, hrows, hok⟩ := Plan.gives_run h
    rintro ⟨x, scope'⟩ hx
    obtain ⟨row, hrow, r, hr, rfl, rfl⟩ := exists_mem_plan_of_mem_requests hok hx
    obtain ⟨texts, hrow⟩ := exists_of_forall₂ hrows hrow
    obtain ⟨text, hr⟩ := exists_of_forall₂ hrow hr
    exact ih hr

/-- A statement whose rendering ends at some depth ends at the depth that is
    allowed, in the same way. -/
theorem runFrom_depthBound (hs : script.Sound) (hid : id ∈ script.statements) {n : Nat} {log : Log}
    {r : Except RenderFault String × Log}
    (h : runFrom (renderWithin script options n id none []) log = some r) :
    runFrom (renderWithin script options (depthBound script.store) id none []) log = some r := by
  have hends : ∃ n, EndsWithin script options.inlining n id [] := by
    by_cases hon : options.inlining = true
    · -- There are no faults with inlining.
      obtain ⟨result, log'⟩ := r
      cases result with
      | ok text => exact ⟨n, endsWithin_of_gives ⟨log, log', h⟩⟩
      | error fault =>
        have hv : ValidStack script [] := fun call hcall => by cases hcall
        exact absurd ⟨log, fault, log', h⟩ (not_fails_renderWithin hs hon ⟨id, hid, .root⟩ hv none)
    · rw [Bool.not_eq_true] at hon
      exact terminates_of_mem_statements hs (Or.inl hon) hid
  obtain ⟨m, hm⟩ := hends
  obtain ⟨r', hr'⟩ := ends_renderWithin (endsWithin_depthBound (chain_nil _) hm) none log
  have hmax := refines_renderWithin (Nat.le_max_left n (depthBound script.store)) id none [] log r h
  have hmax' := refines_renderWithin (Nat.le_max_right n (depthBound script.store)) id none [] log
    r' hr'
  rw [hr', ← hmax, hmax']

end Render

/-! ## Line by line -/

namespace Script

variable {ρ : Renaming} {script script' : Script} {options : RenderOptions} {id : ElementId}

/-- The line of a statement, if its rendering ends. -/
def line? (script : Script) (options : RenderOptions) (id : ElementId) : Option String :=
  (runFrom (renderElement script options id) #[]).map fun r =>
    r.1.toOption.getD options.style.faultyLine

/-- A statement that is written at some depth has that text as its line. -/
theorem line?_of_always (hs : script.Sound) (hid : id ∈ script.statements) {n : Nat} {text : String}
    (h : Always (renderWithin script options n id none []) text) : script.line? options id =
      some (if script.store.kind id = .blank then text else options.style.topLevel text) := by
  obtain ⟨log, hrun⟩ := h #[]
  rw [line?, renderElement_eq (hs.unowned id hid), runFrom_bind, runFrom_depthBound hs hid hrun]
  rfl

/-- What has been noted does not matter. -/
theorem agree_renderElement (id : ElementId) :
    Agree (renderElement script options id) (renderElement script options id) := by
  have hsame : script.store.Renames .refl 0 script.store := Store.renames_refl_iff.2 rfl
  have h := agree_renderWithin hsame options (depthBound script.store) id
    (script.store.get id).owner []
  refine Agree.bind (fun log log' => (h log log).trans (h log' log).symm) fun text => ?_
  split
  · exact agree_pure _
  · exact agree_pure _
  · exact agree_pure _

theorem map_run_renderStatement (id : ElementId) (log : Log) :
    (StateT.run (renderStatement script options id) log).map Prod.fst =
      script.line? options id := by
  show _ = Option.map ((fun r : Except RenderFault String =>
    r.toOption.getD options.style.faultyLine) ∘ Prod.fst) _
  rw [← Option.map_map, ← agree_renderElement id log #[], renderStatement, StateT.run_bind, runFrom]
  cases StateT.run (renderElement script options id).run log with
  | none => rfl
  | some r =>
    obtain ⟨r, log'⟩ := r
    cases r with
    | ok text => rfl
    | error fault => rfl

theorem map_run_renderStatements (ids : List ElementId) (log : Log) :
    (StateT.run (ids.mapM (renderStatement script options)) log).map Prod.fst =
      ids.mapM (script.line? options) := by
  induction ids generalizing log with
  | nil => rfl
  | cons id ids ih =>
    rw [List.mapM_cons, List.mapM_cons, StateT.run_bind, ← map_run_renderStatement id log]
    cases StateT.run (renderStatement script options id) log with
    | none => rfl
    | some r =>
      obtain ⟨text, log'⟩ := r
      show (StateT.run (ids.mapM (renderStatement script options) >>= fun texts =>
        pure (text :: texts)) log').map Prod.fst = ids.mapM (script.line? options) >>= fun texts =>
          pure (text :: texts)
      rw [StateT.run_bind, ← ih log']
      cases StateT.run (ids.mapM (renderStatement script options)) log' with
      | none => rfl
      | some r => rfl

theorem mapM_eq_some_iff {α β : Type} {f : α → Option β} {xs : List α} {ys : List β} :
    xs.mapM f = some ys ↔ xs.map f = ys.map some := by
  induction xs generalizing ys with
  | nil => cases ys <;> simp
  | cons x xs ih =>
    rw [List.mapM_cons, List.map_cons]
    cases f x with
    | none => cases ys <;> simp
    | some y =>
      cases ys with
      | nil => simp [Option.bind_eq_some_iff]
      | cons z zs => simp [Option.bind_eq_some_iff, ih, and_comm]

/-- **A script is written line by line.** -/
theorem render_eq_some_iff {texts : List String} : script.render options = some texts ↔
    script.statements.map (script.line? options) = texts.map some := by
  rw [← mapM_eq_some_iff, ← map_run_renderStatements script.statements #[]]
  rfl

/-- Scripts with the same lines are written alike. -/
theorem render_congr (h : script'.statements.map (script'.line? options) =
    script.statements.map (script.line? options)) :
    script'.render options = script.render options := by
  refine Option.ext fun texts => ?_
  rw [render_eq_some_iff, render_eq_some_iff, h]

section

variable (hs : script.Sound) (hs' : script'.Sound) {id' : ElementId} (hid : id ∈ script.statements)
  (hid' : id' ∈ script'.statements)
  (h : ∀ n, Agree (renderWithin script options n id none [])
    (renderWithin script' options n id' none []))
include hs hs' hid hid' h

theorem agree_depthBound :
    Agree (renderWithin script options (depthBound script.store) id none [])
      (renderWithin script' options (depthBound script'.store) id' none []) := by
  intro log log'
  refine Option.ext fun r => ⟨fun hr => ?_, fun hr => ?_⟩
  · obtain ⟨⟨r, log₁⟩, hrun, rfl⟩ := Option.map_eq_some_iff.1 ((h _ log log').symm.trans hr)
    exact Option.map_eq_some_iff.2 ⟨_, runFrom_depthBound hs' hid' hrun, rfl⟩
  · obtain ⟨⟨r, log₁⟩, hrun, rfl⟩ := Option.map_eq_some_iff.1 ((h _ log log').trans hr)
    exact Option.map_eq_some_iff.2 ⟨_, runFrom_depthBound hs hid hrun, rfl⟩

/-- Statements that are written alike at every depth have the same line. -/
theorem line?_congr (hblank : script'.store.kind id' = .blank ↔ script.store.kind id = .blank) :
    script'.line? options id' = script.line? options id := by
  have hagree : Agree (renderElement script options id) (renderElement script' options id') := by
    rw [renderElement_eq (hs.unowned id hid), renderElement_eq (hs'.unowned _ hid')]
    refine (agree_depthBound hs hs' hid hid' h).bind fun text => ?_
    by_cases hk : script.store.kind id = .blank
    · rw [if_pos hk, if_pos (hblank.2 hk)]
      exact agree_pure text
    · rw [if_neg hk, if_neg (mt hblank.1 hk)]
      exact agree_pure _
  have hrun := congrArg
    (Option.map fun r : Except RenderFault String => r.toOption.getD options.style.faultyLine)
    (hagree #[] #[])
  rw [Option.map_map, Option.map_map] at hrun
  exact hrun.symm

end

/-- **At another position a statement is written as the same line.** -/
theorem line?_rename (hs : script.Sound) (hs' : script'.Sound) (hid : id ∈ script.statements)
    (hid' : ρ id ∈ script'.statements) {n : Nat} (h : script.store.Renames ρ n script'.store)
    (options : RenderOptions) : script'.line? options (ρ id) = script.line? options id :=
  line?_congr hs hs' hid hid' (fun n => agree_renderWithin h options n id none [])
    (h.kind_eq_iff rfl id)

/-- Scripts with corresponding statements are written alike. -/
theorem Renames.render_eq (hs : script.Sound) (hs' : script'.Sound)
    (h : script.Renames ρ [] [] script') (options : RenderOptions) :
    script'.render options = script.render options := by
  obtain ⟨ids, hids, hids'⟩ := h.statements
  have hstatements : script'.statements = script.statements.map ρ := by rw [hids, hids']; rfl
  refine render_congr ?_
  rw [hstatements, List.map_map]
  exact List.map_congr_left fun id hid =>
    line?_rename hs hs' hid (hstatements ▸ List.mem_map_of_mem hid) h.store options

end Script

end FormulaSheet
