/-
  The steps of a reduction.

  A reduction does two things to the store: it retouches operators of its term,
  and it adds nodes.

  * `Node c ids s kind raw`: such a node can be added to `s`.  What an access or
    a call leads to is what its name refers to at that time.
  * `Step c ids s s'`: one of the two is done; `Steps c ids s s'`: any number of
    times.
  * `buildArray_steps` and `reduce_steps`: array literals and terms do nothing
    else, whether they succeed or fail.
  * `Steps.grows` and `Steps.callee_eq`: the frame that follows from it, and
    that names keep referring to the same thing.
-/
import FormulaSheet.Proofs.Frame
import Mathlib.Logic.Relation

namespace FormulaSheet

/-- Declarations and functions: what a name can refer to. -/
def Kind.isBinding : Kind → Bool
  | .declaration .. | .function .. => true
  | _ => false

theorem Element.Retouched.isBinding {e e' : Element} (h : e.Retouched e') :
    e'.kind = e.kind ∨ e.kind.isBinding = false ∧ e'.kind.isBinding = false := by
  cases h with
  | same => exact Or.inl rfl
  | operator hk => exact Or.inr ⟨by rw [hk]; rfl, rfl⟩

namespace Term

open Building Store

variable {c : Context} {ids ids' : List ElementId} {s s' s'' : Store}

/-! ## What names refer to -/

theorem calleeInside_eq_function {function : Option OpenFunction} {name : String} {f : ElementId}
    (h : calleeInside function name = .function f) :
    ∃ g, function = some g ∧ g.name = name ∧ name ∉ g.parameters ∧ g.id = f := by
  unfold calleeInside at h
  split at h
  · cases h
  · rename_i g
    split at h
    · cases h
    · rename_i hnot
      split at h
      · rename_i hname
        cases h
        exact ⟨g, rfl, hname, by simpa using hnot, rfl⟩
      · cases h

theorem calleeInside_eq_indexed {function : Option OpenFunction} {name : String}
    (h : calleeInside function name = .indexed) : ∃ g, function = some g ∧ name ∈ g.parameters := by
  unfold calleeInside at h
  split at h
  · cases h
  · rename_i g
    split at h
    · rename_i hmem
      exact ⟨g, rfl, by simpa using hmem⟩
    · split at h <;> cases h

/-- What is called is the function of a declaration, or the open one. -/
theorem callee_eq_function {name : String} {f : ElementId} (h : callee c s name = .function f) :
    (∃ id target parameters body, c.registry.get? name = some id ∧
      s.kind id = .declaration target f .function ∧ s.kind f = .function parameters body) ∨
    (∀ id, c.registry.get? name = some id →
      ∀ target content form, s.kind id ≠ .declaration target content form) ∧
      calleeInside c.function name = .function f := by
  unfold callee at h
  split at h
  · rename_i target content form hmap
    obtain ⟨id, hget, hk⟩ := Option.map_eq_some_iff.1 hmap
    split at h
    · rename_i hf
      cases h
      exact Or.inl ⟨id, target, _, _, hget, hk, hf⟩
    · cases h
    · cases h
  · rename_i hnot
    refine Or.inr ⟨fun id hget target content form hk => ?_, h⟩
    exact hnot target content form (by rw [hget, Option.map_some, hk])

/-- What is accessed is an array, or a parameter of the open function. -/
theorem callee_eq_indexed {name : String} (h : callee c s name = .indexed) :
    (∃ id target content, c.registry.get? name = some id ∧
      s.kind id = .declaration target content .array) ∨
    (∀ id, c.registry.get? name = some id →
      ∀ target content form, s.kind id ≠ .declaration target content form) ∧
      calleeInside c.function name = .indexed := by
  unfold callee at h
  split at h
  · rename_i target content form hmap
    obtain ⟨id, hget, hk⟩ := Option.map_eq_some_iff.1 hmap
    split at h
    · cases h
    · exact Or.inl ⟨id, target, content, hget, hk⟩
    · cases h
  · rename_i hnot
    refine Or.inr ⟨fun id hget target content form hk => ?_, h⟩
    exact hnot target content form (by rw [hget, Option.map_some, hk])

/-- What is called is in the store. -/
theorem lt_size_of_callee {name : String} {f : ElementId}
    (hf : ∀ g, c.function = some g → g.id < s.size) (h : callee c s name = .function f) :
    f < s.size := by
  rcases callee_eq_function h with ⟨id, target, parameters, body, -, -, hk⟩ | ⟨-, hinside⟩
  · exact lt_size_of_kind (by simp [hk])
  · obtain ⟨g, hg, -, -, rfl⟩ := calleeInside_eq_function hinside
    exact hf g hg

/-- A name whose declaration is none refers to what the open function says. -/
theorem callee_of_not_isBinding {name : String} {id : ElementId}
    (hget : c.registry.get? name = some id) (hk : (s.kind id).isBinding = false) :
    callee c s name = calleeInside c.function name := by
  unfold callee
  rw [hget, Option.map_some]
  cases hkind : s.kind id with
  | declaration target content form =>
    rw [hkind] at hk
    cases hk
  | _ => rfl

/-- The declaration of a function has to have one. -/
theorem callee_of_content {name : String} {id target content : ElementId}
    (hget : c.registry.get? name = some id) (hk : s.kind id = .declaration target content .function)
    (hc : (s.kind content).isBinding = false) : callee c s name = .unresolved := by
  unfold callee
  rw [hget, Option.map_some, hk]
  dsimp only
  cases hkind : s.kind content with
  | function parameters body =>
    rw [hkind] at hc
    cases hc
  | _ => rfl

/-- What a name refers to depends on declarations and functions alone. -/
theorem callee_congr (h : ∀ id, s'.kind id = s.kind id ∨
    (s.kind id).isBinding = false ∧ (s'.kind id).isBinding = false) (name : String) :
    callee c s' name = callee c s name := by
  cases hget : c.registry.get? name with
  | none =>
    unfold callee
    rw [hget]
    rfl
  | some id =>
    rcases h id with he | ⟨hn, hn'⟩
    · cases hk : s.kind id with
      | declaration target content form =>
        rw [hk] at he
        rcases h content with hc | ⟨hc, hc'⟩
        · unfold callee
          rw [hget, Option.map_some, Option.map_some, he, hk]
          simp only [hc]
        · cases form with
          | function => rw [callee_of_content hget he hc', callee_of_content hget hk hc]
          | _ =>
            unfold callee
            rw [hget, Option.map_some, Option.map_some, he, hk]
      | _ =>
        unfold callee
        rw [hget, Option.map_some, Option.map_some, he, hk]
    · rw [callee_of_not_isBinding hget hn', callee_of_not_isBinding hget hn]

/-! ## Steps -/

/-- An element of a term, or one that is in the store. -/
def Known (ids : List ElementId) (s : Store) (id : ElementId) : Prop :=
  id ∈ ids ∨ id < s.size

theorem Known.mono {id : ElementId} (h : Known ids s id) (hi : ids ⊆ ids')
    (hs : s.size ≤ s'.size) : Known ids' s' id :=
  h.imp (fun hm => hi hm) fun hlt => Nat.lt_of_lt_of_le hlt hs

theorem known_of_among {id : ElementId} (h : Among ids s s' id) : Known ids s' id :=
  h.imp_right And.right

/-- A node that a reduction of `ids` can add to the store. -/
inductive Node (c : Context) (ids : List ElementId) (s : Store) : Kind → String → Prop
  | array {cells : List Cell} {raw : String} (hc : ∀ cell ∈ cells, Known ids s cell.value) :
      Node c ids s (.array cells) raw
  | passThrough {raw : String} : Node c ids s .passThrough raw
  | access {id : ElementId} {name : String} {indexes inner : List ElementId}
      (hk : s.kind id = .name name) (hc : callee c s name = .indexed)
      (hi : ∀ x ∈ indexes, Known ids s x) :
      Node c ids s (.access id indexes) (callText s name inner)
  | call {id f : ElementId} {name : String} {arguments inner : List ElementId}
      (hk : s.kind id = .name name) (hc : callee c s name = .function f)
      (ha : ∀ x ∈ arguments, Known ids s x) :
      Node c ids s (.call f arguments) (callText s name inner)

theorem Node.mono {kind : Kind} {raw : String} (h : Node c ids s kind raw) (hi : ids ⊆ ids') :
    Node c ids' s kind raw := by
  have known : ∀ {x : ElementId}, Known ids s x → Known ids' s x :=
    fun hx => hx.mono hi (Nat.le_refl _)
  cases h with
  | array hc => exact .array fun cell hm => known (hc cell hm)
  | passThrough => exact .passThrough
  | access hk hc hi => exact .access hk hc fun x hx => known (hi x hx)
  | call hk hc ha => exact .call hk hc fun x hx => known (ha x hx)

theorem Node.isBinding_eq_false {kind : Kind} {raw : String} (h : Node c ids s kind raw) :
    kind.isBinding = false := by
  cases h <;> rfl

/-- One change of the store by a reduction of `ids`. -/
inductive Step (c : Context) (ids : List ElementId) (s : Store) : Store → Prop
  | node {kind : Kind} {raw : String} (h : Node c ids s kind raw) :
      Step c ids s (s.push { kind, raw, line := c.line, sealed := true })
  | retouch {id : ElementId} {f : Element → Element} (hid : id ∈ ids)
      (hr : (s.get id).Retouched (f (s.get id)))
      (hk : ∀ x ∈ (f (s.get id)).kind.children, x ∈ (s.kind id).children ∨ Known ids s x) :
      Step c ids s (s.modify id f)

namespace Step

theorem mono (h : Step c ids s s') (hi : ids ⊆ ids') : Step c ids' s s' := by
  cases h with
  | node h => exact .node (h.mono hi)
  | retouch hid hr hk =>
    exact .retouch (hi hid) hr fun x hx => (hk x hx).imp_right fun h => h.mono hi (Nat.le_refl _)

theorem operands {id : ElementId} {role : Role} {first second : Option ElementId} (hid : id ∈ ids)
    (hp : (s.get id).pendingRole? = some role)
    (hk : ∀ x ∈ first.toList ++ second.toList, Known ids s x) :
    Step c ids s (s.modify id (·.withOperands first second)) := by
  have ho := Element.isOperator_of_pendingRole? hp
  refine .retouch hid (Element.retouched_withOperands ho _ _) fun x hx => Or.inr ?_
  rw [Element.children_withOperands ho] at hx
  exact hk x hx

theorem sign {id operand : ElementId} (hid : id ∈ ids) (ho : (s.kind id).isOperator = true)
    (hoperand : operand ∈ ids) : Step c ids s (s.modify id (·.signOf operand)) := by
  refine .retouch hid (Element.retouched_signOf ho operand) fun x hx => ?_
  rcases Element.children_signOf ho hx with rfl | hm
  · exact Or.inr (Or.inl hoperand)
  · exact Or.inl hm

theorem later (h : Step c ids s s') : Later ids s s' := by
  cases h with
  | node h => exact (Later.refl ids s).push _
  | retouch hid hr hk => exact (Later.refl ids s).modify fun _ => ⟨hid, hr⟩

/-- A step neither adds nor changes what a name can refer to. -/
theorem isBinding (h : Step c ids s s') (id : ElementId) : s'.kind id = s.kind id ∨
    (s.kind id).isBinding = false ∧ (s'.kind id).isBinding = false := by
  cases h with
  | @node kind raw h =>
    rcases Nat.lt_trichotomy id s.size with hlt | rfl | hgt
    · exact Or.inl (by rw [Store.kind, get_push_of_lt _ hlt, Store.kind])
    · refine Or.inr ⟨?_, ?_⟩
      · rw [Store.kind, get_of_size_le (Nat.le_refl _)]
        rfl
      · rw [Store.kind, get_push_size]
        exact h.isBinding_eq_false
    · refine Or.inl ?_
      rw [Store.kind, Store.kind, get_of_size_le (Nat.le_of_lt hgt),
        get_of_size_le (by rwa [size_push])]
  | @retouch id' f hid hr hk =>
    by_cases hne : id' = id
    · subst hne
      by_cases hlt : id' < s.size
      · rw [Store.kind, get_modify_self f hlt]
        exact hr.isBinding
      · refine Or.inl ?_
        rw [Store.kind, Store.kind, get_of_size_le (Nat.not_lt.1 hlt),
          get_of_size_le (by rw [size_modify]; exact Nat.not_lt.1 hlt)]
    · exact Or.inl (by rw [Store.kind, get_modify_of_ne f hne, Store.kind])

end Step

/-- Any number of steps. -/
abbrev Steps (c : Context) (ids : List ElementId) : Store → Store → Prop :=
  Relation.ReflTransGen (Step c ids)

namespace Steps

theorem mono (h : Steps c ids s s') (hi : ids ⊆ ids') : Steps c ids' s s' :=
  Relation.ReflTransGen.mono (fun _ _ (h : Step c ids _ _) => h.mono hi) _ _ h

theorem later (h : Steps c ids s s') : Later ids s s' := by
  induction h with
  | refl => exact .refl _ _
  | tail _ hs ih => exact ih.trans hs.later (List.Subset.refl _)

theorem callee_eq (h : Steps c ids s s') (c' : Context) (name : String) :
    callee c' s' name = callee c' s name := by
  induction h with
  | refl => rfl
  | tail _ hs ih => rw [callee_congr hs.isBinding, ih]

theorem release {released : List ElementId} (hs : released ⊆ ids) :
    Steps c ids s (s.release released) := by
  induction released generalizing s with
  | nil => exact .refl
  | cons id rest ih =>
    obtain ⟨hid, hrest⟩ := List.cons_subset.1 hs
    have hstep : Step c ids s (s.modify id Element.released) :=
      .retouch hid (Element.retouched_released _) fun x hx =>
        Or.inl (Element.children_released_subset _ hx)
    exact .head hstep (ih hrest)

end Steps

/-- Whatever later stores look like, names call only `targets`. -/
def Settled (targets : ElementId → Prop) (c : Context) (s : Store) : Prop :=
  ∀ ids s', Later ids s s' → ∀ name function, callee c s' name = .function function →
    targets function

theorem Settled.later {targets : ElementId → Prop} (h : Settled targets c s)
    (hs : Later ids s s') : Settled targets c s' := by
  intro ids' s'' hs' name function hc
  refine h (ids ++ ids') s'' ?_ name function hc
  have hs₁ : Later (ids ++ ids') s s' :=
    ⟨hs.size_le, fun id hid hn => hs.kept id hid fun hm => hn (List.mem_append_left _ hm),
      hs.retouched⟩
  exact hs₁.trans hs' (List.subset_append_right _ _)

/-- The frame of a reduction. -/
theorem Steps.grows {targets : ElementId → Prop} (h : Steps c ids s s')
    (hs : Settled targets c s) : Grows targets ids s s' := by
  induction h with
  | refl => exact .refl _ _ _
  | @tail s₁ s₂ _ hstep ih =>
    cases hstep with
    | node hnode =>
      refine ih.push ⟨rfl, rfl, ?_⟩
      cases hnode with
      | array hc => exact trivial
      | passThrough => exact trivial
      | access hk hc hi => exact ⟨_, hk⟩
      | call hk hc ha => exact hs _ _ ih.toLater _ _ hc
    | retouch hid hr hk => exact ih.modify hid hr

/-- Of the elements that a reduction works on, only those of its term are
    operators. -/
theorem Steps.mem_of_isOperator (h : Steps c ids s s') {id : ElementId} (hid : Among ids s s' id)
    (ho : (s'.kind id).isOperator = true) : id ∈ ids := by
  have hgrows : Grows (fun _ => True) ids s s' := h.grows fun _ _ _ _ _ _ => trivial
  exact hgrows.mem_of_isOperator hid ho

/-! ## Array literals -/

theorem layout_steps {nested : List ElementId → Reducing ElementId} {parts : List Item}
    (hids : parts.flatMap Item.ids ⊆ ids)
    (hn : ∀ inner, .nested inner ∈ parts → ∀ w : Workspace,
      (nested inner).Ensures w fun r w' => Steps c inner w.store w'.store ∧
        ∀ id, r = .ok id → id < w'.store.size)
    {w : Workspace}
    (hs : ∀ sign operand, .signed sign operand ∈ parts → (w.store.kind sign).isOperator = true)
    (row col : Nat) :
    (layout nested row col parts).Ensures w fun r w' => Steps c ids w.store w'.store ∧
      ∀ cells, r = .ok cells → ∀ cell ∈ cells, Known ids w'.store cell.value := by
  induction parts generalizing w row col with
  | nil =>
    refine ⟨.refl, ?_⟩
    rintro cells ⟨⟩ cell hm
    cases hm
  | cons part parts ih =>
    rw [List.flatMap_cons, List.append_subset] at hids
    obtain ⟨hpart, hids⟩ := hids
    have ih' := @ih hids fun inner hm => hn inner (List.mem_cons_of_mem _ hm)
    have rest : ∀ {w' : Workspace}, Steps c ids w.store w'.store → ∀ row col,
        (layout nested row col parts).Ensures w' fun r w'' => Steps c ids w.store w''.store ∧
          w'.store.size ≤ w''.store.size ∧
          ∀ cells, r = .ok cells → ∀ cell ∈ cells, Known ids w''.store cell.value :=
      fun h row col => (ih' (fun sign operand hm =>
        h.later.isOperator (hs sign operand (List.mem_cons_of_mem _ hm))) row col).imp
          fun _ _ h' => ⟨h.trans h'.1, h'.1.later.size_le, h'.2⟩
    -- The first cell joins those that are laid out after it.
    have cons : ∀ {id : ElementId} {w' : Workspace}, Steps c ids w.store w'.store →
        Known ids w'.store id →
        (layout nested row (col + 1) parts >>= fun cells => pure (⟨id, row, col⟩ :: cells) :
          Reducing (List Cell)).Ensures w' fun r w'' => Steps c ids w.store w''.store ∧
            ∀ cells, r = .ok cells → ∀ cell ∈ cells, Known ids w''.store cell.value := by
      intro id w' h hid
      refine Reducing.ensures_bind (rest h row (col + 1)) (fun cells w'' h' => ?_)
        (fun _ _ h' => ⟨h'.1, by simp⟩)
      refine ⟨h'.1, ?_⟩
      rintro _ ⟨⟩ cell hm
      rcases List.mem_cons.1 hm with rfl | hm
      · exact hid.mono (List.Subset.refl _) h'.2.1
      · exact h'.2.2 _ rfl cell hm
    cases part with
    | rowEnd =>
      rw [layout]
      split
      · exact (rest .refl _ _).imp fun _ _ h => ⟨h.1, h.2.2⟩
      · exact (rest .refl _ _).imp fun _ _ h => ⟨h.1, h.2.2⟩
    | cell id =>
      rw [layout]
      exact cons .refl (Or.inl (hpart List.mem_cons_self))
    | signed sign operand =>
      rw [layout, Reducing.ensures_lift_bind, run_foldSign]
      have hstep : Step c ids w.store (w.store.modify sign (·.signOf operand)) :=
        .sign (hpart List.mem_cons_self) (hs sign operand List.mem_cons_self)
          (hpart (by simp [Item.ids]))
      exact cons (.single hstep) (Or.inl (hpart List.mem_cons_self))
    | nested inner =>
      rw [layout]
      refine Reducing.ensures_bind (hn inner List.mem_cons_self w) (fun id w' h => ?_)
        (fun _ _ h => ⟨h.1.mono hpart, by simp⟩)
      exact cons (h.1.mono hpart) (Or.inr (h.2 id rfl))
    | unsupported id =>
      rw [layout, Reducing.ensures_store_bind, Reducing.ensures_throw]
      exact ⟨.refl, by simp⟩
    | unclosed =>
      rw [layout, Reducing.ensures_throw]
      exact ⟨.refl, by simp⟩

/-- An array literal makes steps, and its array is new. -/
theorem buildArray_steps (c : Context) (inner : List ElementId) (w : Workspace) :
    (buildArray c inner).Ensures w fun r w' => Steps c inner w.store w'.store ∧
      ∀ id, r = .ok id → w.store.size ≤ id ∧ id < w'.store.size := by
  induction hl : inner.length using Nat.strongRecOn generalizing inner w with
  | _ n ih =>
    rw [buildArray_eq, Reducing.ensures_store_bind]
    refine Reducing.ensures_bind (layout_steps
      (ids_items_sublist c.vocabulary w.store inner).subset (fun nested hm w =>
        (ih _ (hl ▸ length_lt_of_mem_items hm) nested w rfl).imp fun _ _ h =>
          ⟨h.1, fun id hid => (h.2 id hid).2⟩)
      (fun sign operand hm => (fits_of_mem_items hm).1) 0 0)
      (fun cells w' h => ?_) (fun _ _ h => ⟨h.1, by simp⟩)
    simp only [Reducing.ensures_lift_bind, Reducing.ensures_lift, run_store, run_buildNode,
      Workspace.store_withStore]
    refine ⟨h.1.tail (.node (.array (h.2 cells rfl))), ?_⟩
    rintro id ⟨⟩
    rw [size_push]
    exact ⟨h.1.later.size_le, Nat.lt_succ_self _⟩

/-- Laying out parts makes steps on their elements. -/
theorem layout_parts_steps {parts : List Item} (hids : parts.flatMap Item.ids ⊆ ids)
    {w : Workspace}
    (hs : ∀ sign operand, .signed sign operand ∈ parts → (w.store.kind sign).isOperator = true)
    (row col : Nat) : (layout (buildArray c) row col parts).Ensures w fun _ w' =>
      Steps c ids w.store w'.store :=
  (layout_steps hids (fun nested _ w => (buildArray_steps c nested w).imp fun _ _ h =>
    ⟨h.1, fun id hid => (h.2 id hid).2⟩) hs row col).imp fun _ _ h => h.1

/-! ## Calls -/

/-- A reduction of `term` that makes steps only, and whose root is an element
    of the term or new. -/
def MakesSteps (c : Context) (reduce : List ElementId → Reducing ElementId)
    (term : List ElementId) : Prop :=
  ∀ w : Workspace, (reduce term).Ensures w fun r w' => Steps c term w.store w'.store ∧
    ∀ root, r = .ok root → Among term w.store w'.store root

theorem mapM_steps {reduce : List ElementId → Reducing ElementId}
    {pieces : List (List ElementId)} (hids : pieces.flatten ⊆ ids)
    (hr : ∀ piece ∈ pieces, MakesSteps c reduce piece) (w : Workspace) :
    (pieces.mapM reduce).Ensures w fun r w' => Steps c ids w.store w'.store ∧
      ∀ roots, r = .ok roots → ∀ root ∈ roots, Known ids w'.store root := by
  induction pieces generalizing w with
  | nil =>
    refine ⟨.refl, ?_⟩
    rintro roots ⟨⟩ root hm
    cases hm
  | cons piece pieces ih =>
    rw [List.flatten_cons, List.append_subset] at hids
    rw [List.mapM_cons]
    refine Reducing.ensures_bind (hr piece List.mem_cons_self w) (fun id w₁ h₁ => ?_)
      (fun _ _ h => ⟨h.1.mono hids.1, by simp⟩)
    have hsteps := h₁.1.mono hids.1
    refine Reducing.ensures_bind (ih hids.2 (fun p hp => hr p (List.mem_cons_of_mem _ hp)) w₁)
      (fun roots w₂ h₂ => ?_) (fun _ _ h₂ => ⟨hsteps.trans h₂.1, by simp⟩)
    refine ⟨hsteps.trans h₂.1, ?_⟩
    rintro _ ⟨⟩ root hm
    rcases List.mem_cons.1 hm with rfl | hm
    · exact (known_of_among (h₁.2 _ rfl)).mono hids.1 h₂.1.later.size_le
    · exact h₂.2 _ rfl root hm

theorem reduceArguments_steps {reduce : List ElementId → Reducing ElementId}
    {inner : List ElementId}
    (hr : ∀ term : List ElementId, term.length ≤ inner.length → MakesSteps c reduce term)
    (w : Workspace) :
    (reduceArguments reduce inner).Ensures w fun r w' => Steps c inner w.store w'.store ∧
      ∀ roots, r = .ok roots → ∀ root ∈ roots, Known inner w'.store root := by
  rw [reduceArguments, Reducing.ensures_store_bind]
  exact mapM_steps (flatten_arguments_sublist w.store inner).subset
    (fun piece hp => hr piece (length_le_of_mem_arguments hp)) w

/-- A call reduces its arguments and adds its node.  Its name still refers to
    the same thing then. -/
theorem buildCall_steps {reduce : List ElementId → Reducing ElementId} {inner : List ElementId}
    (hr : ∀ term : List ElementId, term.length ≤ inner.length → MakesSteps c reduce term)
    {w : Workspace} {id : ElementId} {name : String} (hid : w.store.kind id = .name name) :
    (buildCall c reduce id name inner).Ensures w fun r w' => Steps c inner w.store w'.store ∧
      ∀ node, r = .ok node → w.store.size ≤ node ∧ node < w'.store.size := by
  have hargs := reduceArguments_steps hr w
  have pushed : ∀ {s' : Store} {kind : Kind} {raw : String}, Steps c inner w.store s' →
      Node c inner s' kind raw →
      Steps c inner w.store (s'.push { kind, raw, line := c.line, sealed := true }) ∧
        ∀ node, (.ok s'.size : Except Fault ElementId) = .ok node → w.store.size ≤ node ∧
          node < (s'.push { kind, raw, line := c.line, sealed := true }).size := by
    intro s' kind raw h hnode
    refine ⟨h.tail (.node hnode), ?_⟩
    rintro node ⟨⟩
    rw [size_push]
    exact ⟨h.later.size_le, Nat.lt_succ_self _⟩
  rw [buildCall, Reducing.ensures_store_bind]
  split
  · rename_i hc
    refine Reducing.ensures_bind hargs (fun indexes w' h => ?_) (fun _ _ h => ⟨h.1, by simp⟩)
    exact pushed h.1 (.access (h.1.later.name hid) ((h.1.callee_eq c name).trans hc) (h.2 _ rfl))
  · rename_i function hc
    refine Reducing.ensures_bind hargs (fun arguments w' h => ?_) (fun _ _ h => ⟨h.1, by simp⟩)
    exact pushed h.1 (.call (h.1.later.name hid) ((h.1.callee_eq c name).trans hc) (h.2 _ rfl))
  · exact pushed .refl .passThrough

/-! ## The three passes -/

/-- The first pass leaves elements of the term and new ones. -/
theorem collapseGroups_steps {reduce : List ElementId → Reducing ElementId}
    {term : List ElementId} {n : Nat}
    (hr : ∀ inner : List ElementId, inner.length < n → MakesSteps c reduce inner)
    {parts : List Segment} (hids : parts.flatMap Segment.ids ⊆ term)
    (hp : ∀ group inner, .group group inner ∈ parts → inner.length < n) {w : Workspace}
    (hw : Steps c term s w.store) {done : List ElementId}
    (hd : ∀ id ∈ done, Among term s w.store id) :
    (collapseGroups c reduce done parts).Ensures w fun r w' => Steps c term s w'.store ∧
      ∀ work, r = .ok work → ∀ id ∈ work, Among term s w'.store id := by
  induction parts generalizing w done with
  | nil =>
    rw [collapseGroups]
    refine ⟨hw, ?_⟩
    rintro work ⟨⟩ id hid
    exact hd id (List.mem_reverse.1 hid)
  | cons part parts ih =>
    rw [List.flatMap_cons, List.append_subset] at hids
    have ih' := @ih hids.2 fun group inner hm => hp group inner (List.mem_cons_of_mem _ hm)
    -- A group becomes one node, which joins those that stay on its left.
    have go : ∀ {kept inner : List ElementId} {x : Reducing ElementId}, kept ⊆ done →
        inner ⊆ term → (x.Ensures w fun r w' => Steps c inner w.store w'.store ∧
          ∀ node, r = .ok node → Among inner w.store w'.store node) →
        (x >>= fun node => collapseGroups c reduce (node :: kept) parts).Ensures w fun r w' =>
          Steps c term s w'.store ∧
            ∀ work, r = .ok work → ∀ id ∈ work, Among term s w'.store id := by
      intro kept inner x hk hi hx
      refine Reducing.ensures_bind hx (fun node w' h => ?_) (fun _ w' h => ?_)
      · refine ih' (hw.trans (h.1.mono hi)) fun id hid => ?_
        rcases List.mem_cons.1 hid with rfl | hid
        · exact (h.2 _ rfl).mono hi hw.later.size_le (Nat.le_refl _)
        · exact (hd id (hk hid)).mono (List.Subset.refl _) (Nat.le_refl _) h.1.later.size_le
      · exact ⟨hw.trans (h.1.mono hi), by simp⟩
    cases part with
    | single id =>
      rw [collapseGroups]
      refine ih' hw fun id' hid => ?_
      rcases List.mem_cons.1 hid with rfl | hid
      · exact Or.inl (hids.1 List.mem_cons_self)
      · exact hd id' hid
    | unmatched group =>
      rw [collapseGroups]
      exact ⟨hw, by simp⟩
    | group group inner =>
      have hlt := hp group inner List.mem_cons_self
      have hreduce := hr inner hlt w
      cases group with
      | bracket =>
        rw [collapseGroups]
        exact go (List.Subset.refl _) hids.1
          ((buildArray_steps c inner w).imp fun _ _ h => ⟨h.1, fun node hn => Or.inr (h.2 node hn)⟩)
      | parenthesis =>
        cases done with
        | nil =>
          rw [collapseGroups]
          exact go (List.Subset.refl _) hids.1 hreduce
        | cons previous done =>
          rw [collapseGroups, Reducing.ensures_store_bind]
          split
          · rename_i name hname
            have hcall := buildCall_steps
              (fun inner' hl => hr inner' (Nat.lt_of_le_of_lt hl hlt)) hname
            exact go (List.subset_cons_self _ _) hids.1
              (hcall.imp fun _ _ h => ⟨h.1, fun node hn => Or.inr (h.2 node hn)⟩)
          · exact go (List.Subset.refl _) hids.1 hreduce

/-- The second pass gives operands to functions of the term. -/
theorem bindFunctions_steps {term : List ElementId} :
    ∀ {work : List ElementId} {w : Workspace}, Steps c term s w.store →
      (∀ id ∈ work, Among term s w.store id) →
      (bindFunctions work).Ensures w fun r w' => Steps c term s w'.store ∧
        w'.store.size = w.store.size ∧ ∀ work', r = .ok work' → work' ⊆ work
  | [], w, hw, _ => ⟨hw, rfl, by rintro work' ⟨⟩; exact List.Subset.refl _⟩
  | [id], w, hw, _ => by
    rw [bindFunctions, Reducing.ensures_store_bind]
    split
    · rw [Reducing.ensures_lift_bind, Reducing.ensures_throw_bind]
      exact ⟨hw, rfl, by simp⟩
    · exact ⟨hw, rfl, by rintro work' ⟨⟩; exact List.Subset.refl _⟩
  | id :: next :: rest, w, hw, hwork => by
    rw [bindFunctions, Reducing.ensures_store_bind]
    split
    · rename_i hp
      have hid := hw.mem_of_isOperator (hwork id List.mem_cons_self)
        (Element.isOperator_of_pendingRole? hp)
      have hstep : Step c term w.store (w.store.modify id (·.withOperands (some next) none)) := by
        refine .operands hid hp fun x hx => ?_
        rw [Option.toList_none, List.append_nil, Option.toList_some, List.mem_singleton] at hx
        exact known_of_among (hwork x (by simp [hx]))
      rw [Reducing.ensures_lift_bind, run_giveOperands]
      refine Reducing.ensures_bind (bindFunctions_steps (hw.tail hstep) fun x hx => ?_)
        (fun rest' w' h => ?_) (fun _ _ h => ?_)
      · rw [Workspace.store_withStore]
        exact (hwork x (by simp [hx])).mono (List.Subset.refl _) (Nat.le_refl _) (by simp)
      · refine ⟨h.1, h.2.1.trans (size_modify ..), ?_⟩
        rintro work' ⟨⟩
        exact List.cons_subset_cons _ (List.Subset.trans (h.2.2 _ rfl) (List.subset_cons_self _ _))
      · exact ⟨h.1, h.2.1.trans (size_modify ..), by simp⟩
    · refine Reducing.ensures_bind
        (bindFunctions_steps hw fun x hx => hwork x (List.mem_cons_of_mem _ hx))
        (fun rest' w' h => ⟨h.1, h.2.1, ?_⟩) (fun _ _ h => ⟨h.1, h.2.1, by simp⟩)
      rintro work' ⟨⟩
      exact List.cons_subset_cons _ (h.2.2 _ rfl)

/-- The third pass gives operands to signs and binary operators of the term. -/
theorem bindOperators_steps {term : List ElementId} :
    ∀ {before after : List ElementId} {w : Workspace}, Steps c term s w.store →
      (∀ id ∈ before ++ after, Among term s w.store id) →
      (bindOperators before after).Ensures w fun r w' => Steps c term s w'.store ∧
        w'.store.size = w.store.size ∧ ∀ work, r = .ok work → work ⊆ before ++ after
  | [], after, w, hw, _ => by
    rw [bindOperators]
    exact ⟨hw, rfl, by rintro work ⟨⟩; exact List.Subset.refl _⟩
  | id :: before, after, w, hw, hb => by
    rw [bindOperators, Reducing.ensures_store_bind]
    have given : ∀ {role : Role} {first second : Option ElementId},
        (w.store.get id).pendingRole? = some role →
        (∀ x ∈ first.toList ++ second.toList, x ∈ id :: before ++ after) →
        Steps c term s (w.store.modify id (·.withOperands first second)) := by
      intro role first second hp hmem
      have hid := hw.mem_of_isOperator (hb id (by simp)) (Element.isOperator_of_pendingRole? hp)
      exact hw.tail (.operands hid hp fun x hx => known_of_among (hb x (hmem x hx)))
    -- What is left after a step is a part of what was there.
    have rest : ∀ {before' after' : List ElementId} {w' : Workspace},
        (∀ x ∈ before' ++ after', x ∈ id :: before ++ after) → w'.store.size = w.store.size →
        ((∀ x ∈ before' ++ after', Among term s w'.store x) →
          (bindOperators before' after').Ensures w' fun r w'' => Steps c term s w''.store ∧
            w''.store.size = w'.store.size ∧ ∀ work, r = .ok work → work ⊆ before' ++ after') →
        (bindOperators before' after').Ensures w' fun r w'' => Steps c term s w''.store ∧
          w''.store.size = w.store.size ∧ ∀ work, r = .ok work → work ⊆ id :: before ++ after := by
      intro before' after' w' hmem hsize h
      have hamong : ∀ x ∈ before' ++ after', Among term s w'.store x := fun x hx =>
        (hb x (hmem x hx)).mono (List.Subset.refl _) (Nat.le_refl _) (Nat.le_of_eq hsize.symm)
      refine (h hamong).imp fun r w'' h' => ⟨h'.1, h'.2.1.trans hsize, fun work hwork x hx => ?_⟩
      exact hmem x (h'.2.2 work hwork hx)
    have failed : (liftM (missingOperand id) >>= fun fault => throw fault :
        Reducing (List ElementId)).Ensures w fun r w' => Steps c term s w'.store ∧
          w'.store.size = w.store.size ∧ ∀ work, r = .ok work → work ⊆ id :: before ++ after := by
      rw [Reducing.ensures_lift_bind, Reducing.ensures_throw]
      exact ⟨hw, rfl, by simp⟩
    split
    · rename_i operand after hp
      rw [Reducing.ensures_lift_bind, run_giveOperands]
      refine rest (fun x hx => ?_) (size_modify ..) (bindOperators_steps (given hp ?_))
      · simp only [List.mem_append, List.mem_cons] at hx ⊢
        grind
      · simp
    · exact failed
    · rename_i left before right after hp
      rw [Reducing.ensures_lift_bind, run_giveOperands]
      refine rest (fun x hx => ?_) (size_modify ..) (bindOperators_steps (given hp ?_))
      · simp only [List.mem_append, List.mem_cons] at hx ⊢
        grind
      · simp
    · exact failed
    · refine rest (fun x hx => ?_) rfl (bindOperators_steps hw)
      simp only [List.mem_append, List.mem_cons] at hx ⊢
      grind

/-! ## Terms -/

/-- **A reduction makes steps**, whether it succeeds or fails. -/
theorem reduce_steps (c : Context) (term : List ElementId) : MakesSteps c (reduce c) term := by
  induction hl : term.length using Nat.strongRecOn generalizing term with
  | _ n ih =>
    intro w
    rw [reduce_eq]
    apply ensures_releasing
    have failed : ∀ {w' : Workspace} {fault : Fault}, Steps c term w.store w'.store →
        Steps c term w.store (w'.withStore (w'.store.release term)).store ∧
          ∀ root, (.error fault : Except Fault ElementId) = .ok root →
            Among term w.store (w'.withStore (w'.store.release term)).store root :=
      fun h => ⟨h.trans (Steps.release (List.Subset.refl _)), by simp⟩
    rw [runPasses]
    split
    · rw [Reducing.ensures_throw_bind]
      exact failed .refl
    rw [Reducing.ensures_store_bind]
    refine Reducing.ensures_bind (collapseGroups_steps (fun inner hi => ih _ (hl ▸ hi) inner rfl)
      (ids_segments_sublist w.store term).subset (fun _ _ hm => length_lt_of_mem_segments hm)
      .refl (by simp)) (fun work w₁ h₁ => ?_) (fun _ _ h => failed h.1)
    refine Reducing.ensures_bind (bindFunctions_steps h₁.1 (h₁.2 _ rfl)) (fun work' w₂ h₂ => ?_)
      (fun _ _ h => failed h.1)
    have hwork' : ∀ id ∈ work'.reverse ++ [], Among term w.store w₂.store id := by
      intro id hid
      rw [List.append_nil, List.mem_reverse] at hid
      exact (h₁.2 _ rfl id (h₂.2.2 _ rfl hid)).mono (List.Subset.refl _) (Nat.le_refl _)
        (Nat.le_of_eq h₂.2.1.symm)
    refine Reducing.ensures_bind (bindOperators_steps h₂.1 hwork') (fun out w₃ h₃ => ?_)
      (fun _ _ h => failed h.1)
    split
    · rename_i root
      rw [Reducing.ensures_store_bind]
      split
      · refine ⟨h₃.1, ?_⟩
        rintro root' ⟨⟩
        exact (hwork' root (h₃.2.2 _ rfl List.mem_cons_self)).mono (List.Subset.refl _)
          (Nat.le_refl _) (Nat.le_of_eq h₃.2.1.symm)
      · exact failed h₃.1
    · exact failed h₃.1

/-- The frame of a reduction, whether it succeeds or fails. -/
theorem reduce_grows {targets : ElementId → Prop} (term : List ElementId) {w : Workspace}
    (hw : Settled targets c w.store) :
    (reduce c term).Ensures w fun _ w' => Grows targets term w.store w'.store :=
  (reduce_steps c term w).imp fun _ _ h => h.1.grows hw

end Term

end FormulaSheet
