/-
  Inlining is substitution into a copy.

  A rendering with inlining never builds the expanded tree: it writes an argument
  where a name stands and a body where a call stands, and keeps the calls it is
  in as a scope.  Still it writes what is written without inlining for the
  expanded tree, with the parents of that tree.

  * `scopeOf`: the scope that goes with a stack of calls.
  * `plan_of_replacement?` and `plan_of_not_replaced`: a plan asks for the
    replacement of its element, or it is the plan without inlining and without
    scope, up to the scopes it asks for.
  * `plan_copy`: an element and its copy have the same plan, up to the children.
  * `not_fails_renderWithin`: nothing stops the rendering of a script that has
    been read.
  * `expandWithin_writes`: by induction on the depth, the expanded tree is there
    and is written as its element is.
-/
import FormulaSheet.Proofs.Depth
import FormulaSheet.Proofs.Expansion
import FormulaSheet.Proofs.WellFormed

namespace FormulaSheet

open Store Render Rendering

/-! ## What is reached -/

namespace Script

variable {script : Script} {id : ElementId}

/-- An element of a statement that can be written. -/
def Reaches (script : Script) (id : ElementId) : Prop :=
  ∃ statement ∈ script.statements, Visible script.store statement id

theorem Reaches.child {child : ElementId} (h : script.Reaches id)
    (hc : (script.store.kind id).isCompound = true)
    (hchild : child ∈ (script.store.kind id).children) : script.Reaches child := by
  obtain ⟨statement, hs, hv⟩ := h
  refine ⟨statement, hs, hv.child (fun fault ids hk => ?_) hchild⟩
  rw [hk] at hc
  cases hc

theorem Sound.wellFormed (h : script.Sound) (hr : script.Reaches id) :
    WellFormed script.store id := by
  obtain ⟨statement, hs, hv⟩ := hr
  obtain ⟨all, hst, -⟩ := h.statement statement hs
  exact hst.wellFormed hv

theorem Declares.reaches_body {target f body : ElementId} {parameters : List ElementId}
    (h : Declares script id target f parameters body) : script.Reaches body := by
  have hid : script.Reaches id := ⟨id, h.mem, .root⟩
  have hf : script.Reaches f := hid.child (by rw [h.kind]; rfl) (by simp [h.kind, Kind.children])
  exact hf.child (by rw [h.function]; rfl) (by simp [h.function, Kind.children])

/-- A declared function has a name, which stays the same in a larger store. -/
theorem Declares.declaredName? {target f body : ElementId} {parameters : List ElementId}
    (h : Declares script id target f parameters body) :
    ∃ name, ∀ s, Extends script.store s →
      Script.declaredName? { script with store := s } f = some name := by
  obtain ⟨name, hname⟩ := h.target
  refine ⟨name, fun s hs => ?_⟩
  have hf : (s.get f).owner = some id := by
    rw [hs.get (lt_size_of_kind (by simp [h.function])), h.owner]
  have hid : s.kind id = .declaration target f .function := by
    rw [hs.kind (lt_size_of_kind (by simp [h.kind])), h.kind]
  have htarget : s.kind target = .name name := by
    rw [hs.kind (lt_size_of_kind (by simp [hname])), hname]
  rw [Script.declaredName?, hf]
  simp only [hid, htarget, Kind.name?]

/-- A call that is reached is of a function with a body and a name. -/
theorem Sound.callee (h : script.Sound) (hr : script.Reaches id) {f : ElementId}
    {arguments : List ElementId} (hk : script.store.kind id = .call f arguments) :
    ∃ parameters body name, script.store.kind f = .function parameters (some body) ∧
      ∀ s, Extends script.store s →
        Script.declaredName? { script with store := s } f = some name := by
  obtain ⟨parameters, body, hf⟩ := (h.wellFormed hr).callee f arguments hk
  obtain ⟨d, target, b, rfl, hdecl⟩ := h.declares hf
  obtain ⟨name, hname⟩ := hdecl.declaredName?
  exact ⟨parameters, b, name, hf, hname⟩

end Script

/-! ## Stacks and scopes -/

/-- The frame of a call that is being replaced. -/
def Call.frame (s : Store) (call : Call) : Frame where
  function := call.function
  bindings :=
    match s.kind call.function with
    | .function parameters _ => Render.bind s parameters call.arguments
    | _ => []

/-- The scope that goes with a stack. -/
def scopeOf (s : Store) (stack : List Call) : Scope :=
  stack.map (Call.frame s)

/-- The calls of a stack are calls of functions, with arguments that are
    reached. -/
def ValidStack (script : Script) (stack : List Call) : Prop :=
  ∀ call ∈ stack, script.store.IsFunction call.function ∧
    ∀ a ∈ call.arguments, script.Reaches a

theorem holds_scopeOf (s : Store) (stack : List Call) (function : ElementId) :
    (scopeOf s stack).holds function = decide (function ∈ stack.map Call.function) := by
  induction stack with
  | nil => rfl
  | cons call stack ih =>
    have : (scopeOf s (call :: stack)).holds function =
        (call.function == function || (scopeOf s stack).holds function) := rfl
    rw [this, ih]
    by_cases h : call.function = function
    · simp [h]
    · simp [h, Ne.symm h]

/-- The first binding of a name is the argument of the first parameter of that
    name. -/
theorem find?_bind {s : Store} {parameters : List ElementId} (name : String)
    (hp : ∀ p ∈ parameters, ∃ name, s.kind p = .name name) (arguments : List ElementId) :
    ((Render.bind s parameters arguments).find? fun b => b.1 == name).map Prod.snd =
      (parameters.findIdx? fun p => s.kind p = .name name).bind fun i => arguments[i]? := by
  induction parameters generalizing arguments with
  | nil => rfl
  | cons p parameters ih =>
    obtain ⟨⟨n, hn⟩, hp⟩ := List.forall_mem_cons.1 hp
    cases arguments with
    | nil =>
      have hbind : Render.bind s (p :: parameters) [] = [] := List.zip_nil_right
      rw [hbind]
      simp
    | cons a arguments =>
      have hbind : Render.bind s (p :: parameters) (a :: arguments) =
          (n, a) :: Render.bind s parameters arguments := by simp [Render.bind, hn, Kind.name?]
      rw [hbind, List.find?_cons, List.findIdx?_cons]
      by_cases h : n = name
      · simp [h, hn]
      · have hne : (n == name) = false := by simpa using h
        have hne' : s.kind p ≠ .name name := by
          rw [hn]
          simpa using h
        simp only [hne, hne', decide_false, Bool.false_eq_true, if_false, ih hp]
        cases parameters.findIdx? fun p => s.kind p = .name name <;> rfl

theorem Call.argument?_frame {script : Script} (h : script.Sound) {call : Call}
    (hc : script.store.IsFunction call.function) (name : String) :
    (call.frame script.store).argument? name = call.argument? script.store name := by
  obtain ⟨parameters, body, hk⟩ := hc
  obtain ⟨id, target, _, ⟨⟩, hdecl⟩ := h.declares hk
  rw [Frame.argument?, Call.frame, Call.argument?, hk]
  exact find?_bind name hdecl.parameters call.arguments

variable {script : Script} {options : RenderOptions} {id : ElementId} {parent : Option ElementId}
  {stack : List Call}

theorem ValidStack.tail {call : Call} (h : ValidStack script (call :: stack)) :
    ValidStack script stack :=
  fun c hc => h c (List.mem_cons_of_mem call hc)

theorem validStack_below (h : ValidStack script stack) (id : ElementId) :
    ValidStack script (stackBelow script.store stack id) := by
  unfold stackBelow
  split
  · intro call hcall
    cases hcall
  · exact h

/-- What replaces an element is reached, and its stack is valid. -/
theorem ValidStack.replacement? (hs : script.Sound) (hv : ValidStack script stack)
    (hr : script.Reaches id) {stack' : List Call} {id' : ElementId}
    (h : replacement? script.store stack id = some (stack', id')) :
    ValidStack script stack' ∧ script.Reaches id' := by
  unfold FormulaSheet.replacement? at h
  split at h
  · cases stack with
    | nil => cases h
    | cons call caller =>
      obtain ⟨argument, ha, h⟩ := Option.map_eq_some_iff.1 h
      cases h
      refine ⟨hv.tail, (hv call List.mem_cons_self).2 _ ?_⟩
      unfold Call.argument? at ha
      split at ha
      · obtain ⟨i, -, hi⟩ := Option.bind_eq_some_iff.1 ha
        exact List.mem_of_getElem? hi
      · cases ha
  · rename_i function arguments hk
    split at h
    · rename_i parameters body hf
      split at h
      · cases h
      · cases h
        obtain ⟨d, target, b, hb, hdecl⟩ := hs.declares hf
        cases hb
        refine ⟨fun call hcall => ?_, hdecl.reaches_body⟩
        rcases List.mem_cons.1 hcall with rfl | hcall
        · refine ⟨⟨parameters, _, hf⟩, fun a ha => ?_⟩
          exact hr.child (by rw [hk]; rfl) (by rw [hk]; exact ha)
        · exact hv call hcall
    · cases h
  · cases h

/-! ## Plans with inlining -/

/-- A name is replaced by what it stands for in the scope. -/
theorem argument?_scopeOf (hs : script.Sound) (hv : ValidStack script stack) {name : String}
    (hk : script.store.kind id = .name name) :
    (scopeOf script.store stack).argument? name =
      (replacement? script.store stack id).map fun r => (r.2, scopeOf script.store r.1) := by
  rw [replacement?, hk]
  cases stack with
  | nil => rfl
  | cons call caller =>
    have harg := Call.argument?_frame hs (hv call List.mem_cons_self).1 name
    show ((call.frame script.store).argument? name).map _ = ((call.argument? _ name).map _).map _
    rw [harg, Option.map_map]
    rfl

/-- A plan asks for the replacement of its element, if there is one. -/
theorem plan_of_replacement? (hs : script.Sound) (hon : options.inlining = true)
    (hv : ValidStack script stack) {stack' : List Call} {id' : ElementId}
    (h : replacement? script.store stack id = some (stack', id')) (parent : Option ElementId) :
    ∃ events, plan script options id parent (scopeOf script.store stack) =
      .instead events ⟨id', parent, scopeOf script.store stack'⟩ := by
  unfold plan
  dsimp only
  cases hk : script.store.kind id with
  | name name =>
    have harg := argument?_scopeOf hs hv hk
    rw [h, Option.map_some] at harg
    rw [← Store.kind, hk]
    simp only [harg]
    exact ⟨[], rfl⟩
  | call function arguments =>
    rw [replacement?, hk] at h
    dsimp only at h
    split at h
    · rename_i parameters body hf
      split at h
      · cases h
      · rename_i hmem
        cases h
        have hframe : Call.frame script.store ⟨function, arguments⟩ =
            ⟨function, Render.bind script.store parameters arguments⟩ := by
          simp only [Call.frame, hf]
        have hholds : (scopeOf script.store stack).holds function = false := by
          rw [holds_scopeOf]
          exact decide_eq_false hmem
        rw [← Store.kind, hk]
        simp only [planCall, hf, hon, hholds, Bool.not_true, Bool.or_self, Bool.false_eq_true,
          if_false, ← hframe]
        exact ⟨_, rfl⟩
    · cases h
  | _ =>
    rw [replacement?, hk] at h
    cases h

/-- The same request under another scope. -/
def Render.Request.under (scope : Scope) (r : Request) : Request :=
  { r with scope }

theorem map_under_below (scope : Scope) (id : ElementId) (ids : List ElementId) :
    (below id [] ids).map (Request.under scope) = below id scope ids := by
  simp [below, Request.under]

/-- An element that is not replaced is written as without inlining; the scope is
    only handed on. -/
theorem plan_of_not_replaced (hs : script.Sound) (hv : ValidStack script stack)
    (hr : script.Reaches id) (h : replacement? script.store stack id = none)
    (options : RenderOptions) (parent : Option ElementId) :
    let p := plan script options id parent (scopeOf script.store stack)
    let q := plan script { options with inlining := false } id parent []
    p.finish = q.finish ∧ p.rows = q.rows.map fun row =>
      row.map (Request.under (scopeOf script.store (stackBelow script.store stack id))) := by
  unfold plan stackBelow
  dsimp only
  cases hk : script.store.kind id with
  | name name =>
    have harg := argument?_scopeOf hs hv hk
    have hnil : Scope.argument? [] name = none := rfl
    rw [h, Option.map_none] at harg
    rw [Store.kind] at hk
    simp [hk, harg, hnil, Plan.text]
  | call function arguments =>
    obtain ⟨parameters, body, name, hf, hname⟩ := hs.callee hr hk
    have hname : script.declaredName? function = some name := hname _ (.refl _)
    have hholds : (scopeOf script.store stack).holds function = true := by
      rw [holds_scopeOf]
      refine decide_eq_true ?_
      by_contra hmem
      rw [replacement?, hk] at h
      simp only [hf, hmem, if_false] at h
      cases h
    rw [Store.kind] at hk
    simp [hk, planCall, hf, hholds, hname, map_under_below]
  | access target indexes =>
    rw [Store.kind] at hk
    simp [hk, map_under_below, scopeOf]
  | function parameters body =>
    rw [Store.kind] at hk
    cases body with
    | none => simp [hk, Plan.fault]
    | some body => simp [hk, map_under_below]
  | _ =>
    rw [Store.kind] at hk
    simp [hk, map_under_below, Plan.text, Function.comp_def]

/-! ## Plans of copies -/

section

variable {R : ElementId → ElementId → Prop}

/-- The two requests are for children that correspond. -/
def Related (R : ElementId → ElementId → Prop) (id id' : ElementId) (r r' : Request) : Prop :=
  ∃ x x', R x x' ∧ r = ⟨x, some id, []⟩ ∧ r' = ⟨x', some id', []⟩

theorem forall₂_below {xs ys : List ElementId} (h : List.Forall₂ R xs ys) (id id' : ElementId) :
    List.Forall₂ (Related R id id') (below id [] xs) (below id' [] ys) := by
  induction h with
  | nil => exact .nil
  | cons hx _ ih => exact .cons ⟨_, _, hx, rfl, rfl⟩ ih

variable {cells cells' : List Cell}

theorem forall₂_mergeSort {α β : Type} {R : α → β → Prop} {le : α → α → Bool} {le' : β → β → Bool}
    (hle : ∀ x y x' y', R x x' → R y y' → le' x' y' = le x y) {xs : List α} {xs' : List β}
    (h : List.Forall₂ R xs xs') : List.Forall₂ R (xs.mergeSort le) (xs'.mergeSort le') := by
  obtain ⟨hlength, hzip⟩ := List.forall₂_iff_zip.1 h
  -- Both lists are sorted as the list of pairs is.
  let pairs := xs.zip xs'
  have hfirst : (pairs.mergeSort fun p q => le p.1 q.1).map Prod.fst = xs.mergeSort le := by
    rw [List.map_mergeSort (s := le) fun _ _ _ _ => rfl, List.map_fst_zip (Nat.le_of_eq hlength)]
  have hsecond : (pairs.mergeSort fun p q => le p.1 q.1).map Prod.snd = xs'.mergeSort le' := by
    rw [List.map_mergeSort fun p hp q hq => (hle _ _ _ _ (hzip hp) (hzip hq)).symm,
      List.map_snd_zip (Nat.le_of_eq hlength.symm)]
  rw [← hfirst, ← hsecond, List.forall₂_map_left_iff, List.forall₂_map_right_iff,
    List.forall₂_same]
  exact fun p hp => hzip (List.mem_mergeSort.1 hp)

theorem rowCount_eq (h : List.Forall₂ (fun c c' => R c.value c'.value ∧ c'.row = c.row ∧
    c'.col = c.col) cells cells') : rowCount cells' = rowCount cells := by
  unfold rowCount
  generalize 0 = rows
  induction h generalizing rows with
  | nil => rfl
  | cons hc _ ih => rw [List.foldl_cons, List.foldl_cons, hc.2.1, ih]

/-- The rows of two arrays whose cells correspond. -/
theorem forall₂_rowCells (h : List.Forall₂ (fun c c' => R c.value c'.value ∧ c'.row = c.row ∧
    c'.col = c.col) cells cells') (row : Nat) :
    List.Forall₂ R ((rowCells cells row).map Cell.value)
      ((rowCells cells' row).map Cell.value) := by
  have hrow : List.Forall₂ (fun c c' => R c.value c'.value ∧ c'.row = c.row ∧ c'.col = c.col)
      (rowCells cells row) (rowCells cells' row) := by
    rw [rowCells_eq, rowCells_eq]
    refine forall₂_mergeSort (fun x y x' y' hx hy => by rw [hx.2.2, hy.2.2]) ?_
    refine List.rel_filter (fun c c' hc => ?_) h
    simp [hc.2.1]
  rw [List.forall₂_map_left_iff, List.forall₂_map_right_iff]
  exact hrow.imp fun c c' hc => hc.1

/-- Whether an element is written inside an operator. -/
def isNested (s : Store) (parent : Option ElementId) : Bool :=
  parent.any fun p => (s.kind p).isOperator

/-- **An element and its copy have the same plan without inlining**, up to the
    children. -/
theorem plan_copy (hs : script.Sound) (hr : script.Reaches id) {s' : Store}
    (hext : Extends script.store s') {id' : ElementId} {parent' : Option ElementId}
    (hraw : (s'.get id').raw = (script.store.get id).raw)
    (hkind : Kind.Copies R (script.store.kind id) (s'.kind id'))
    (hnested : isNested s' parent' = isNested script.store parent) (options : RenderOptions) :
    let p := plan script { options with inlining := false } id parent []
    let q := plan { script with store := s' } { options with inlining := false } id' parent' []
    q.finish = p.finish ∧ List.Forall₂ (List.Forall₂ (Related R id id')) p.rows q.rows := by
  unfold isNested at hnested
  unfold plan
  dsimp only
  rw [← Store.kind, ← Store.kind]
  generalize hk : script.store.kind id = kind at hkind
  generalize s'.kind id' = kind' at hkind
  cases hkind with
  | operator hf hs =>
    exact ⟨by rw [hnested], .cons (forall₂_below hf id id') (.cons (forall₂_below hs id id') .nil)⟩
  | array h =>
    refine ⟨rfl, ?_⟩
    dsimp only
    rw [rowCount_eq h, List.forall₂_map_left_iff, List.forall₂_map_right_iff, List.forall₂_same]
    exact fun row _ => forall₂_below (forall₂_rowCells h row) id id'
  | access ht hi =>
    exact ⟨rfl, .cons (forall₂_below (.cons ht .nil) id id')
      (.cons (forall₂_below hi id id') .nil)⟩
  | @function parameters parameters' body body' hp hb =>
    cases body with
    | none =>
      cases body' with
      | none => exact ⟨rfl, .nil⟩
      | some body' => cases hb
    | some body =>
      cases body' with
      | none => cases hb
      | some body' =>
        exact ⟨rfl, .cons (forall₂_below hp id id') (.cons (forall₂_below hb id id') .nil)⟩
  | @call callee arguments arguments' ha =>
    obtain ⟨parameters, body, name, hf, hname⟩ := hs.callee hr hk
    have hf' : s'.kind callee = .function parameters (some body) := by
      rw [hext.kind (lt_size_of_isFunction ⟨parameters, body, hf⟩), hf]
    have hname' : script.declaredName? callee = some name := hname _ (.refl _)
    simp only [planCall, hf, hf', hname s' hext, hname', Bool.not_false, Bool.true_or, if_true]
    exact ⟨trivial, .cons (forall₂_below ha id id') .nil⟩
  | declaration ht hc =>
    exact ⟨rfl, .cons (forall₂_below (.cons ht .nil) id id')
      (.cons (forall₂_below (.cons hc .nil) id id') .nil)⟩
  | leaf h =>
    rw [hraw]
    cases kind with
    | name name => exact ⟨rfl, .nil⟩
    | operator | array | access | function | call | declaration => cases h
    | _ => exact ⟨rfl, .nil⟩

end

/-! ## What is asked for without inlining -/

/-- Only children are asked for. -/
theorem mem_children_of_mem_plan {row : List Request} {r : Request}
    (hrow : row ∈ (plan script { options with inlining := false } id parent []).rows)
    (hr : r ∈ row) :
    (script.store.kind id).isCompound = true ∧ r.id ∈ (script.store.kind id).children := by
  have child : ∀ {ids : List ElementId}, (r.id, r.scope) ∈ ids.map (·, []) → r.id ∈ ids := by
    intro ids h
    obtain ⟨x, hx, he⟩ := List.mem_map.1 h
    rwa [← (Prod.mk.inj he).1]
  have hmem := mem_requests hrow hr
  unfold requests at hmem
  generalize script.store.kind id = kind at hmem
  cases kind with
  | call function arguments =>
    simp only [Bool.not_false, Bool.true_or, if_true] at hmem
    split at hmem
    · exact ⟨rfl, child hmem⟩
    · cases hmem
  | operator | array | access | function | declaration => exact ⟨rfl, child hmem⟩
  | _ => cases hmem

theorem exists_mem_two_rows {scope : Scope} {child : ElementId} {first second : List ElementId}
    (h : child ∈ first ++ second) :
    ∃ row ∈ [below id scope first, below id scope second], ⟨child, some id, scope⟩ ∈ row := by
  rcases List.mem_append.1 h with h | h
  · exact ⟨_, List.mem_cons_self, List.mem_map.2 ⟨child, h, rfl⟩⟩
  · exact ⟨_, List.mem_cons_of_mem _ List.mem_cons_self, List.mem_map.2 ⟨child, h, rfl⟩⟩

theorem row_lt_rowCount {cells : List Cell} {cell : Cell} (h : cell ∈ cells) :
    cell.row < rowCount cells :=
  rowCount_le_iff.1 (Nat.le_refl _) cell h

theorem exists_mem_array_rows {scope : Scope} {child : ElementId} {cells : List Cell}
    (h : child ∈ cells.map Cell.value) :
    ∃ row ∈ (List.range (rowCount cells)).map fun row =>
        below id scope ((rowCells cells row).map Cell.value), ⟨child, some id, scope⟩ ∈ row := by
  obtain ⟨cell, hcell, rfl⟩ := List.mem_map.1 h
  refine ⟨_, List.mem_map.2 ⟨cell.row, List.mem_range.2 (row_lt_rowCount hcell), rfl⟩, ?_⟩
  refine List.mem_map.2 ⟨_, List.mem_map.2 ⟨cell, mem_rowCells.2 ⟨hcell, rfl⟩, rfl⟩, rfl⟩

/-- Every child is asked for. -/
theorem exists_mem_plan (hs : script.Sound) (hr : script.Reaches id)
    (hc : (script.store.kind id).isCompound = true) {child : ElementId}
    (hchild : child ∈ (script.store.kind id).children) (options : RenderOptions)
    (parent : Option ElementId) :
    ∃ row ∈ (plan script { options with inlining := false } id parent []).rows,
      ⟨child, some id, []⟩ ∈ row := by
  unfold plan
  dsimp only
  rw [← Store.kind]
  generalize hk : script.store.kind id = kind at hc hchild
  cases kind with
  | operator symbol role first second => exact exists_mem_two_rows hchild
  | array cells => exact exists_mem_array_rows hchild
  | access target indexes => exact exists_mem_two_rows hchild
  | function parameters body =>
    obtain ⟨b, rfl⟩ := Option.isSome_iff_exists.1 ((hs.wellFormed hr).body parameters body hk)
    exact exists_mem_two_rows hchild
  | call function arguments =>
    obtain ⟨parameters, body, name, hf, hname⟩ := hs.callee hr hk
    have hname : script.declaredName? function = some name := hname _ (.refl _)
    simp only [planCall, hf, hname, Bool.not_false, Bool.true_or, if_true]
    exact ⟨_, List.mem_cons_self, List.mem_map.2 ⟨child, hchild, rfl⟩⟩
  | declaration target content form => exact exists_mem_two_rows hchild
  | _ => cases hc

/-! ## No faults -/

theorem head?_of_below {P : Request → String → Prop} {x : ElementId} {texts : List String}
    (h : List.Forall₂ P (below id [] [x]) texts) : ∃ text, texts = [text] := by
  cases h with
  | cons _ h =>
    cases h
    exact ⟨_, rfl⟩

/-- Once the children are written, so is the element. -/
theorem exists_finish_eq_ok (hs : script.Sound) (hr : script.Reaches id)
    {P : Request → String → Prop} {rows : List (List String)}
    (h : List.Forall₂ (List.Forall₂ P)
      (plan script { options with inlining := false } id parent []).rows rows) :
    ∃ text, (plan script { options with inlining := false } id parent []).finish rows =
      .ok text := by
  have hwf := hs.wellFormed hr
  unfold plan at h ⊢
  dsimp only at h ⊢
  rw [← Store.kind] at h ⊢
  cases hk : script.store.kind id with
  | operator symbol role first second =>
    obtain ⟨-, hfirst, hsecond⟩ := hwf.operands symbol role first second hk
    obtain ⟨x, rfl⟩ := Option.isSome_iff_exists.1 hfirst
    rw [hk] at h
    obtain _ | ⟨hx, _ | ⟨hy, _ | _⟩⟩ := h
    obtain ⟨a, rfl⟩ := head?_of_below hx
    dsimp only [operatorText, List.headD, List.head?, List.tail]
    split
    · exact ⟨_, rfl⟩
    · cases role with
      | binary =>
        obtain ⟨y, rfl⟩ := Option.isSome_iff_exists.1 (hsecond.2 rfl)
        obtain ⟨b, rfl⟩ := head?_of_below hy
        exact ⟨_, rfl⟩
      | function => exact ⟨_, rfl⟩
      | sign => exact ⟨_, rfl⟩
  | function parameters body =>
    obtain ⟨b, rfl⟩ := Option.isSome_iff_exists.1 (hwf.body parameters body hk)
    exact ⟨_, rfl⟩
  | call function arguments =>
    obtain ⟨parameters, body, name, hf, hname⟩ := hs.callee hr hk
    have hname : script.declaredName? function = some name := hname _ (.refl _)
    simp only [planCall, hf, hname, Bool.not_false, Bool.true_or, if_true]
    exact ⟨_, rfl⟩
  | _ => exact ⟨_, rfl⟩

/-- What a plan asks for is reached. -/
theorem reaches_of_mem_plan (hr : script.Reaches id) {row : List Request} {r : Request}
    (hrow : row ∈ (plan script { options with inlining := false } id parent []).rows)
    (hm : r ∈ row) : script.Reaches r.id := by
  obtain ⟨hc, hchild⟩ := mem_children_of_mem_plan hrow hm
  exact hr.child hc hchild

/-- **Writing with inlining does not stop with a fault.** -/
theorem not_fails_renderWithin (hs : script.Sound) (hon : options.inlining = true) {n : Nat}
    (hr : script.Reaches id) (hv : ValidStack script stack) (parent : Option ElementId) :
    ¬ Fails (renderWithin script options n id parent (scopeOf script.store stack)) := by
  induction n generalizing id parent stack with
  | zero =>
    rintro ⟨log, fault, log', ⟨⟩⟩
  | succ n ih =>
    rw [renderWithin, renderNode_eq]
    intro h
    cases hrep : replacement? script.store stack id with
    | some r =>
      obtain ⟨stack', id'⟩ := r
      obtain ⟨hv', hr'⟩ := hv.replacement? hs hr hrep
      obtain ⟨events, hplan⟩ := plan_of_replacement? hs hon hv hrep parent
      rw [hplan] at h
      rcases Plan.fails_run h with ⟨row, hrow, r, hm, hf⟩ | ⟨rows, -, hf⟩
      · obtain rfl := List.mem_singleton.1 hrow
        obtain rfl := List.mem_singleton.1 hm
        exact ih hr' hv' parent hf
      · exact hf _ rfl
    | none =>
      obtain ⟨hfinish, hrows⟩ := plan_of_not_replaced hs hv hr hrep options parent
      rcases Plan.fails_run h with ⟨row, hrow, r, hm, hf⟩ | ⟨rows, hgives, hf⟩
      · rw [hrows] at hrow
        obtain ⟨row₀, hrow₀, rfl⟩ := List.mem_map.1 hrow
        obtain ⟨r₀, hm₀, rfl⟩ := List.mem_map.1 hm
        exact ih (reaches_of_mem_plan hr hrow₀ hm₀) (validStack_below hv id) _ hf
      · rw [hrows, List.forall₂_map_left_iff] at hgives
        have hgives := hgives.imp fun row texts hrow => List.forall₂_map_left_iff.1 hrow
        obtain ⟨text, hok⟩ := exists_finish_eq_ok hs hr hgives
        rw [hfinish] at hf
        exact hf text hok

/-! ## The expanded tree is written as its element -/

section

variable {α β γ : Type} {R : α → β → Prop} {S : α → γ → Prop} {T : β → γ → Prop}

theorem exists_of_forall₂ : ∀ {xs : List α} {ys : List β}, List.Forall₂ R xs ys →
    ∀ {x : α}, x ∈ xs → ∃ y, R x y
  | _, _, .cons (b := y) hx hxs, x, hm => by
    rcases List.mem_cons.1 hm with rfl | hm
    · exact ⟨y, hx⟩
    · exact exists_of_forall₂ hxs hm

theorem forall₂_join (hT : ∀ x y z, R x y → S x z → T y z) : ∀ {xs : List α} {ys : List β}
    {zs : List γ}, List.Forall₂ R xs ys → List.Forall₂ S xs zs → List.Forall₂ T ys zs
  | _, _, _, .nil, .nil => .nil
  | _, _, _, .cons hy hys, .cons hz hzs => .cons (hT _ _ _ hy hz) (forall₂_join hT hys hzs)

end

/-- Where the store is at least `s`, the element is written as `text` without
    inlining, inside an operator or not. -/
def WritesAs (script : Script) (options : RenderOptions) (n : Nat) (nested : Bool) (s : Store)
    (id : ElementId) (text : String) : Prop :=
  ∀ s', Extends s s' → ∀ parent, isNested s' parent = nested →
    Always (renderWithin { script with store := s' } { options with inlining := false } n id
      parent []) text

theorem WritesAs.mono {n : Nat} {nested : Bool} {s s' : Store} {text : String}
    (h : WritesAs script options n nested s id text) (hs : Extends s s') :
    WritesAs script options n nested s' id text :=
  fun s'' hs'' => h s'' (hs.trans hs'')

theorem WritesAs.succ {n : Nat} {nested : Bool} {s : Store} {text : String}
    (h : WritesAs script options n nested s id text) :
    WritesAs script options (n + 1) nested s id text :=
  fun s' hs' parent hnested =>
    (h s' hs' parent hnested).refines (refines_renderWithin (Nat.le_succ n) id parent [])

/-- The element `y` is written as the child `x` of `id` is under the stack. -/
def WritesChild (script : Script) (options : RenderOptions) (n : Nat) (stack : List Call)
    (id : ElementId) (s : Store) (x y : ElementId) : Prop :=
  ∀ text, Gives (renderWithin script options n x (some id) (scopeOf script.store stack)) text →
    WritesAs script options n (isNested script.store (some id)) s y text

/-- There is only one text. -/
theorem eq_of_gives {n : Nat} {scope : Scope} {text text' : String}
    (h : Gives (renderWithin script options n id parent scope) text)
    (h' : Gives (renderWithin script options n id parent scope) text') : text' = text := by
  obtain ⟨log, log', h'⟩ := h'
  obtain ⟨log'', h⟩ := always_of_gives h log
  rw [h'] at h
  cases h
  rfl

open Copying

/-- The step: a copy is written as its element is, if the children of the element
    expand to trees that are written as they are. -/
theorem copy_writes (hs : script.Sound) {n : Nat} {text : String} (hr : script.Reaches id)
    (hv : ValidStack script stack) (hrep : replacement? script.store stack id = none)
    (h : Gives (renderWithin script options (n + 1) id parent (scopeOf script.store stack)) text)
    (ih : ∀ x t, script.Reaches x →
      Gives (renderWithin script options n x (some id)
        (scopeOf script.store (stackBelow script.store stack id))) t →
      Succeeds script.store (expandWithin script n (stackBelow script.store stack id) x)
        fun s y => WritesAs script options n (isNested script.store (some id)) s y t) :
    Succeeds script.store
      ((script.store.get id).copy (expandWithin script n (stackBelow script.store stack id)))
      fun s id' => (s.get id').owner = none ∧
        (s.kind id' = .blank ↔ script.store.kind id = .blank) ∧
        WritesAs script options (n + 1) (isNested script.store parent) s id' text := by
  rw [renderWithin, renderNode_eq] at h
  obtain ⟨hfin, hplan⟩ := plan_of_not_replaced hs hv hr hrep options parent
  obtain ⟨rows, hrows, hfinish⟩ := Plan.gives_run h
  rw [hplan, List.forall₂_map_left_iff] at hrows
  have hrows := hrows.imp fun row texts hrow => List.forall₂_map_left_iff.1 hrow
  rw [hfin] at hfinish
  let R := WritesChild script options n (stackBelow script.store stack id) id
  have hR : ∀ s s' x y, Extends s s' → R s x y → R s' x y :=
    fun s s' x y hext hxy t ht => (hxy t ht).mono hext
  -- A child is asked for, so it has a text, and there is only one.
  have hchildren : (script.store.kind id).isCompound = true →
      ∀ x ∈ (script.store.kind id).children,
      Succeeds script.store (expandWithin script n (stackBelow script.store stack id) x)
        fun s y => R s x y := by
    intro hc x hx
    obtain ⟨row, hrow, hm⟩ := exists_mem_plan hs hr hc hx options parent
    obtain ⟨texts, htexts⟩ := exists_of_forall₂ hrows hrow
    obtain ⟨t, ht⟩ := exists_of_forall₂ htexts hm
    refine (ih x t (hr.child hc hx) ht).imp fun s y _ hw t' ht' => ?_
    rw [eq_of_gives ht ht']
    exact hw
  refine (succeeds_copy hR hchildren).imp ?_
  rintro s id' hext ⟨hlt, kind, hkind, hget⟩
  refine ⟨by rw [hget], ?_, fun s' hs' parent' hnested => ?_⟩
  · rw [Store.kind, hget]
    exact hkind.eq_blank_iff
  · have hget' := (hs'.get hlt).trans hget
    have hkind' : Kind.Copies (R s) (script.store.kind id) (s'.kind id') := by
      rw [Store.kind, Store.kind, hget']
      exact hkind
    obtain ⟨hfin', hrel⟩ := plan_copy hs hr (hext.trans hs') (by rw [hget']) hkind' hnested options
    rw [renderWithin, renderNode_eq]
    refine Plan.always_run (forall₂_join ?_ hrel hrows) (hfin' ▸ hfinish)
    intro row row' texts hrow htexts
    refine forall₂_join ?_ hrow htexts
    rintro _ _ t ⟨x, x', hx, rfl, rfl⟩ ht
    refine hx t ht s' hs' (some id') ?_
    simp only [isNested, Option.any_some, hkind'.isOperator_eq]

/-- **The expanded tree is there and is written as its element is.** -/
theorem expandWithin_writes (hs : script.Sound) (hon : options.inlining = true) {n : Nat}
    {text : String} (hr : script.Reaches id) (hv : ValidStack script stack)
    (h : Gives (renderWithin script options n id parent (scopeOf script.store stack)) text) :
    Succeeds script.store (expandWithin script n stack id) fun s id' =>
      WritesAs script options n (isNested script.store parent) s id' text := by
  induction n generalizing id parent stack text with
  | zero =>
    obtain ⟨log, log', ⟨⟩⟩ := h
  | succ n ih =>
    unfold expandWithin
    cases hrep : replacement? script.store stack id with
    | some r =>
      obtain ⟨stack', id'⟩ := r
      obtain ⟨hv', hr'⟩ := hv.replacement? hs hr hrep
      obtain ⟨events, hplan⟩ := plan_of_replacement? hs hon hv hrep parent
      rw [renderWithin, renderNode_eq, hplan] at h
      obtain ⟨rows, hrows, hfinish⟩ := Plan.gives_run h
      obtain _ | ⟨_ | ⟨ht, _ | _⟩, _ | _⟩ := hrows
      rename_i t
      have htext : t = text := by simpa [Plan.instead] using hfinish
      rw [htext] at ht
      -- The replacement is one step less deep, inside the same parent.
      exact (ih hr' hv' ht).imp fun s x _ hw => hw.succ
    | none =>
      have hcopy := copy_writes hs hr hv hrep h fun x t hx ht => ih hx (validStack_below hv id) ht
      exact hcopy.imp fun s x _ hx => hx.2.2

/-! ## Statements -/

theorem replacement?_statement (hs : script.Sound) (hid : id ∈ script.statements) :
    replacement? script.store [] id = none := by
  obtain ⟨all, hst, -⟩ := hs.statement id hid
  unfold replacement?
  cases hst with
  | line hk => rcases hk with hk | hk <;> simp [hk]
  | value hk => simp [hk]
  | function hk => simp [hk]

theorem renderElement_eq (h : (script.store.get id).owner = none) :
    renderElement script options id =
      renderWithin script options (depthBound script.store) id none [] >>= fun text =>
        pure (if script.store.kind id = .blank then text else options.style.topLevel text) := by
  unfold renderElement
  dsimp only
  rw [h]
  refine bind_congr fun text => ?_
  by_cases hk : script.store.kind id = .blank
  · rw [if_pos hk, ← Store.kind, hk]
  · rw [if_neg hk, ← Store.kind]
    split
    · contradiction
    · rfl
    · contradiction

/-- **Inlining is substitution into a copy.**  A statement whose rendering ends
    has an expanded tree, and without inlining that tree is written as the
    statement is with it. -/
theorem render_eq_render_expanded {v : Vocabulary} {lines : List String} {script : Script}
    (h : Script.parse v lines = .ok script) {options : RenderOptions}
    (hon : options.inlining = true) {id : ElementId} (hid : id ∈ script.statements)
    {log log' : Log} {r : Except RenderFault String}
    (hends : runFrom (renderElement script options id) log = some (r, log')) :
    ∃ text root store, r = .ok text ∧
      StateT.run (expand script id) script.store = some (root, store) ∧
      Always (renderElement { script with store } { options with inlining := false } root)
        text := by
  have hs := Script.parse_sound h
  have hr : script.Reaches id := ⟨id, hid, .root⟩
  have hv : ValidStack script [] := fun call hcall => by cases hcall
  rw [renderElement_eq (hs.unowned id hid), runFrom_bind] at hends
  cases hrun : runFrom (renderWithin script options (depthBound script.store) id none []) log with
  | none =>
    rw [hrun] at hends
    cases hends
  | some result =>
    obtain ⟨result, log₁⟩ := result
    rw [hrun] at hends
    cases result with
    | error fault =>
      exact absurd ⟨log, fault, log₁, hrun⟩ (not_fails_renderWithin hs hon hr hv none)
    | ok text =>
      cases hends
      have hrep := replacement?_statement hs hid
      have hcopy := copy_writes hs hr hv hrep ⟨log, _, hrun⟩ fun x t hx ht =>
        expandWithin_writes hs hon hx (validStack_below hv id) ht
      obtain ⟨root, store, hexpand, hext, howner, hblank, hwrites⟩ := hcopy _ (.refl _)
      refine ⟨_, root, store, rfl, ?_, ?_⟩
      · rw [expand, depthBound, expandWithin, hrep]
        exact hexpand
      · rw [renderElement_eq howner]
        have hroot : Always (renderWithin { script with store } { options with inlining := false }
            (depthBound store) root none []) text :=
          (hwrites store (.refl _) none rfl).refines
            (refines_renderWithin hext.depthBound_le root none [])
        refine hroot.bind ?_
        simp only [hblank]
        exact always_pure _

/-- Two functions with a parameter of the same name, which is also a name of the
    statement, a call inside itself and an access. -/
theorem render_eq_render_expanded_nested :
    ∃ script id root store,
      Script.parse {} ["f = @(x) x + a(x) * f(x)", "g = @(x) f(x * 2)", "y = g(x - 1)"] =
        .ok script ∧
      id ∈ script.statements ∧
      Gives (renderElement script {} id)
        "$y = ((x - 1) \\cdot 2) + (a(x) \\cdot f((x - 1) \\cdot 2))$ \\par" ∧
      StateT.run (expand script id) script.store = some (root, store) ∧
      Always (renderElement { script with store } { inlining := false } root)
        "$y = ((x - 1) \\cdot 2) + (a(x) \\cdot f((x - 1) \\cdot 2))$ \\par" := by
  have hfacts : ∃ script ∈ (Script.parse {} ["f = @(x) x + a(x) * f(x)", "g = @(x) f(x * 2)",
      "y = g(x - 1)"]).toOption, ∃ id ∈ script.statements.getLast?,
      ((runFrom (renderElement script {} id) #[]).map fun r => r.1.toOption) = some (some
        "$y = ((x - 1) \\cdot 2) + (a(x) \\cdot f((x - 1) \\cdot 2))$ \\par") := by
    decide +kernel
  obtain ⟨script, hscript, id, hid, hrun⟩ := hfacts
  have hparse := Script.parse_of_mem hscript
  obtain ⟨⟨r, log'⟩, hends, hr⟩ := Option.map_eq_some_iff.1 hrun
  have hmem := List.mem_of_getLast? hid
  obtain ⟨text, root, store, rfl, hexpand, hwritten⟩ :=
    render_eq_render_expanded hparse rfl hmem hends
  cases hr
  exact ⟨script, id, root, store, hparse, hmem, ⟨_, _, hends⟩, hexpand, hwritten⟩

end FormulaSheet
