/-
  The expanded tree of an element.

  Expanding copies a tree.  A call is replaced by a copy of the body of its
  function, and in that copy the names of parameters by copies of the arguments.
  The stack holds the calls that are being replaced, the innermost first; a call
  of one of their functions stays a call.  An argument is expanded under the
  stack of its own call, so no parameter of another function takes it.  What is
  inside an access is expanded under the empty stack.

  * `replacement? s stack id`: what an element is replaced by.
  * `expandWithin` adds the copy to a store, if the recursion is not too deep.
  * `Kind.Copies`: two kinds are the same up to their children;
    `succeeds_mapChildren`: that is what copying gives.
-/
import FormulaSheet.Proofs.Plan

namespace FormulaSheet

open Store

/-! ## Copying -/

/-- Computations that add copies to a store.  A tree that is too deep has no
    copy. -/
abbrev Copying := StateT Store Option

/-- A kind with other children. -/
def Kind.mapChildren (f : ElementId → Copying ElementId) : Kind → Copying Kind
  | .operator symbol role first second =>
    return .operator symbol role (← first.mapM f) (← second.mapM f)
  | .array cells =>
    return .array (← cells.mapM fun cell => return { cell with value := ← f cell.value })
  | .access target indexes => return .access (← f target) (← indexes.mapM f)
  | .function parameters body => return .function (← parameters.mapM f) (← body.mapM f)
  | .call callee arguments => return .call callee (← arguments.mapM f)
  | .declaration target content form => return .declaration (← f target) (← f content) form
  | kind => return kind

/-- A copy of an element, over the copies of its children. -/
def Element.copy (e : Element) (f : ElementId → Copying ElementId) : Copying ElementId := do
  let kind ← e.kind.mapChildren f
  modifyGet fun s => (s.size, s.push { e with kind, owner := none })

/-! ## Expanding -/

/-- A call that is being replaced. -/
structure Call where
  function : ElementId
  arguments : List ElementId

/-- The argument for the first parameter with the given name, if there is one. -/
def Call.argument? (s : Store) (call : Call) (name : String) : Option ElementId :=
  match s.kind call.function with
  | .function parameters _ =>
    (parameters.findIdx? fun p => s.kind p = .name name).bind fun i => call.arguments[i]?
  | _ => none

/-- What an element is replaced by, and the stack for it: a name by its argument,
    a call by the body of its function. -/
def replacement? (s : Store) (stack : List Call) (id : ElementId) :
    Option (List Call × ElementId) :=
  match s.kind id with
  | .name name =>
    match stack with
    | [] => none
    | call :: caller => (call.argument? s name).map (caller, ·)
  | .call function arguments =>
    match s.kind function with
    | .function _ (some body) =>
      if function ∈ stack.map Call.function then none
      else some (⟨function, arguments⟩ :: stack, body)
    | _ => none
  | _ => none

/-- The stack for the children of an element. -/
def stackBelow (s : Store) (stack : List Call) (id : ElementId) : List Call :=
  match s.kind id with
  | .access _ _ => []
  | _ => stack

/-- The expanded tree of an element, with a bounded depth of recursion. -/
def expandWithin (script : Script) : (depth : Nat) → List Call → ElementId → Copying ElementId
  | 0, _, _ => fun _ => none
  | depth + 1, stack, id =>
    match replacement? script.store stack id with
    | some (stack', id') => expandWithin script depth stack' id'
    | none =>
      (script.store.get id).copy (expandWithin script depth (stackBelow script.store stack id))

/-- The expanded tree of an element. -/
def expand (script : Script) (id : ElementId) : Copying ElementId :=
  expandWithin script (Render.depthBound script.store) [] id

/-! ## Larger stores -/

/-- Elements have been added to a store. -/
def Store.Extends (s s' : Store) : Prop :=
  s.elements.toList <+: s'.elements.toList

namespace Store.Extends

variable {s s' s'' : Store}

theorem refl (s : Store) : Extends s s := List.prefix_refl _

theorem trans (h : Extends s s') (h' : Extends s' s'') : Extends s s'' := List.IsPrefix.trans h h'

theorem push (s : Store) (e : Element) : Extends s (s.push e) := by
  rw [Extends, Store.push, Array.toList_push]
  exact List.prefix_append _ _

theorem get {id : ElementId} (h : Extends s s') (hid : id < s.size) : s'.get id = s.get id := by
  obtain ⟨added, hadded⟩ := h
  have hlt : id < s.elements.size := hid
  have hget : s'.elements[id]? = s.elements[id]? := by
    rw [← Array.getElem?_toList, ← Array.getElem?_toList, ← hadded,
      List.getElem?_append_left (by simpa using hlt)]
  rw [Store.get, Store.get, Array.getD_eq_getD_getElem?, Array.getD_eq_getD_getElem?, hget]

theorem kind {id : ElementId} (h : Extends s s') (hid : id < s.size) : s'.kind id = s.kind id := by
  rw [Store.kind, h.get hid, Store.kind]

theorem depthBound_le (h : Extends s s') : Render.depthBound s ≤ Render.depthBound s' := by
  have hsub := h.sublist
  have count : ∀ p : Element → Bool, s.elements.countP p ≤ s'.elements.countP p := by
    intro p
    rw [← Array.countP_toList, ← Array.countP_toList]
    exact hsub.countP_le
  have hsize : s.size ≤ s'.size := by
    rw [size, size, ← Array.length_toList, ← Array.length_toList]
    exact hsub.length_le
  unfold Render.depthBound
  refine Nat.succ_le_succ (Nat.mul_le_mul hsize ?_)
  exact Nat.le_trans (Nat.pow_le_pow_left (Nat.succ_le_succ (count _)) _)
    (Nat.pow_le_pow_right (Nat.succ_pos _) (count _))

end Store.Extends

/-! ## What copying gives -/

/-- A kind that is copied child by child; the children of errors are not
    written. -/
def Kind.isCompound : Kind → Bool
  | .operator .. | .array _ | .access .. | .function .. | .call .. | .declaration .. => true
  | _ => false

/-- The two kinds are the same up to their children, which correspond. -/
inductive Kind.Copies (R : ElementId → ElementId → Prop) : Kind → Kind → Prop
  | operator {symbol : String} {role : Role} {first second first' second' : Option ElementId}
      (hf : List.Forall₂ R first.toList first'.toList)
      (hs : List.Forall₂ R second.toList second'.toList) :
      Copies R (.operator symbol role first second) (.operator symbol role first' second')
  | array {cells cells' : List Cell} (h : List.Forall₂ (fun c c' => R c.value c'.value ∧
      c'.row = c.row ∧ c'.col = c.col) cells cells') : Copies R (.array cells) (.array cells')
  | access {target target' : ElementId} {indexes indexes' : List ElementId} (ht : R target target')
      (hi : List.Forall₂ R indexes indexes') :
      Copies R (.access target indexes) (.access target' indexes')
  | function {parameters parameters' : List ElementId} {body body' : Option ElementId}
      (hp : List.Forall₂ R parameters parameters') (hb : List.Forall₂ R body.toList body'.toList) :
      Copies R (.function parameters body) (.function parameters' body')
  | call {callee : ElementId} {arguments arguments' : List ElementId}
      (ha : List.Forall₂ R arguments arguments') :
      Copies R (.call callee arguments) (.call callee arguments')
  | declaration {target target' content content' : ElementId} {form : Form} (ht : R target target')
      (hc : R content content') :
      Copies R (.declaration target content form) (.declaration target' content' form)
  | leaf {kind : Kind} (h : kind.isCompound = false) : Copies R kind kind

namespace Kind.Copies

variable {R S : ElementId → ElementId → Prop} {kind kind' : Kind}

theorem imp (h : ∀ x y, R x y → S x y) (hk : Copies R kind kind') : Copies S kind kind' := by
  cases hk with
  | operator hf hs => exact .operator (hf.imp h) (hs.imp h)
  | array hc => exact .array (hc.imp fun c c' hc => ⟨h _ _ hc.1, hc.2⟩)
  | access ht hi => exact .access (h _ _ ht) (hi.imp h)
  | function hp hb => exact .function (hp.imp h) (hb.imp h)
  | call ha => exact .call (ha.imp h)
  | declaration ht hc => exact .declaration (h _ _ ht) (h _ _ hc)
  | leaf hl => exact .leaf hl

theorem isOperator_eq (hk : Copies R kind kind') : kind'.isOperator = kind.isOperator := by
  cases hk <;> rfl

theorem eq_blank_iff (hk : Copies R kind kind') : kind' = .blank ↔ kind = .blank := by
  cases hk with
  | leaf => exact Iff.rfl
  | _ => simp

end Kind.Copies

namespace Copying

/-- From every larger store, `x` has a result that is as `Q` says. -/
def Succeeds {α : Type} (s : Store) (x : Copying α) (Q : Store → α → Prop) : Prop :=
  ∀ s₁, Extends s s₁ → ∃ a s₂, StateT.run x s₁ = some (a, s₂) ∧ Extends s₁ s₂ ∧ Q s₂ a

section

variable {α β : Type} {s s' : Store}

theorem Succeeds.mono {x : Copying α} {Q : Store → α → Prop} (h : Succeeds s x Q)
    (hs : Extends s s') : Succeeds s' x Q :=
  fun s₁ hs₁ => h s₁ (hs.trans hs₁)

theorem Succeeds.imp {x : Copying α} {P Q : Store → α → Prop} (h : Succeeds s x P)
    (hQ : ∀ s₁ a, Extends s s₁ → P s₁ a → Q s₁ a) : Succeeds s x Q := by
  intro s₁ hs
  obtain ⟨a, s₂, hrun, hext, ha⟩ := h s₁ hs
  exact ⟨a, s₂, hrun, hext, hQ s₂ a (hs.trans hext) ha⟩

theorem Succeeds.bind {x : Copying α} {g : α → Copying β} {P : Store → α → Prop}
    {Q : Store → β → Prop} (hx : Succeeds s x P)
    (hg : ∀ a s₁, Extends s s₁ → P s₁ a → Succeeds s₁ (g a) Q) : Succeeds s (x >>= g) Q := by
  intro s₁ hs
  obtain ⟨a, s₂, hrun, hext, ha⟩ := hx s₁ hs
  obtain ⟨b, s₃, hrun', hext', hb⟩ := hg a s₂ (hs.trans hext) ha s₂ (.refl s₂)
  refine ⟨b, s₃, ?_, hext.trans hext', hb⟩
  rw [StateT.run_bind, hrun]
  exact hrun'

theorem succeeds_pure {a : α} {Q : Store → α → Prop} (h : ∀ s₁, Extends s s₁ → Q s₁ a) :
    Succeeds s (pure a) Q :=
  fun s₁ hs => ⟨a, s₁, rfl, .refl s₁, h s₁ hs⟩

variable {R : Store → α → β → Prop} {f : α → Copying β}

theorem succeeds_mapM (hR : ∀ s s' x y, Extends s s' → R s x y → R s' x y) {xs : List α}
    (h : ∀ x ∈ xs, Succeeds s (f x) fun s₁ y => R s₁ x y) :
    Succeeds s (xs.mapM f) fun s₁ ys => List.Forall₂ (R s₁) xs ys := by
  induction xs generalizing s with
  | nil => exact succeeds_pure fun _ _ => .nil
  | cons x xs ih =>
    obtain ⟨hx, hxs⟩ := List.forall_mem_cons.1 h
    rw [List.mapM_cons]
    refine hx.bind fun y s₁ hs₁ hy => ?_
    refine (ih fun x' hx' => (hxs x' hx').mono hs₁).bind fun ys s₂ hs₂ hys => ?_
    refine succeeds_pure fun s₃ hs₃ => ?_
    exact .cons (hR _ _ _ _ (hs₂.trans hs₃) hy) (hys.imp fun _ _ => hR _ _ _ _ hs₃)

theorem succeeds_mapM_option (hR : ∀ s s' x y, Extends s s' → R s x y → R s' x y) {o : Option α}
    (h : ∀ x ∈ o, Succeeds s (f x) fun s₁ y => R s₁ x y) :
    Succeeds s (o.mapM f) fun s₁ o' => List.Forall₂ (R s₁) o.toList o'.toList := by
  cases o with
  | none => exact succeeds_pure fun _ _ => .nil
  | some x =>
    have hmap : Option.mapM f (some x) = f x >>= fun y => pure (some y) := by
      rw [Option.mapM_some, map_eq_pure_bind]
    rw [hmap]
    refine (h x rfl).bind fun y s₁ _ hy => ?_
    exact succeeds_pure fun s₂ hs₂ => .cons (hR _ _ _ _ hs₂ hy) .nil

end

/-- Copying the children of a kind. -/
theorem succeeds_mapChildren {R : Store → ElementId → ElementId → Prop}
    {f : ElementId → Copying ElementId}
    (hR : ∀ s s' x y, Extends s s' → R s x y → R s' x y) {s : Store} {kind : Kind}
    (h : kind.isCompound = true → ∀ x ∈ kind.children, Succeeds s (f x) fun s₁ y => R s₁ x y) :
    Succeeds s (kind.mapChildren f) fun s₁ kind' => Kind.Copies (R s₁) kind kind' := by
  have stable : ∀ {s s' : Store} {xs ys : List ElementId}, Extends s s' →
      List.Forall₂ (R s) xs ys → List.Forall₂ (R s') xs ys :=
    fun hs hxs => hxs.imp fun x y => hR _ _ x y hs
  cases kind with
  | operator symbol role first second =>
    have hx := h rfl
    have hfirst := succeeds_mapM_option (R := R) hR fun x hm =>
      hx x (List.mem_append_left _ (Option.mem_toList.2 hm))
    have hsecond := succeeds_mapM_option (R := R) hR fun x hm =>
      hx x (List.mem_append_right _ (Option.mem_toList.2 hm))
    refine hfirst.bind fun first' s₁ hs₁ hf => (hsecond.mono hs₁).bind fun second' s₂ hs₂ hs => ?_
    exact succeeds_pure fun s₃ hs₃ => .operator (stable (hs₂.trans hs₃) hf) (stable hs₃ hs)
  | array cells =>
    let C (s : Store) (c c' : Cell) : Prop := R s c.value c'.value ∧ c'.row = c.row ∧ c'.col = c.col
    have hC : ∀ s s' c c', Extends s s' → C s c c' → C s' c c' :=
      fun s s' c c' hs hc => ⟨hR s s' _ _ hs hc.1, hc.2⟩
    have hcells : Succeeds s (cells.mapM fun cell => do
        return { cell with value := ← f cell.value }) fun s₁ => List.Forall₂ (C s₁) cells := by
      refine succeeds_mapM (R := C) hC fun cell hm => ?_
      refine (h rfl cell.value (List.mem_map.2 ⟨cell, hm, rfl⟩)).bind fun v s₁ hs₁ hv => ?_
      exact succeeds_pure fun s₂ hs₂ => ⟨hR _ _ _ _ hs₂ hv, rfl, rfl⟩
    refine hcells.bind fun cells' s₁ hs₁ hc => succeeds_pure fun s₂ hs₂ => ?_
    exact .array (hc.imp fun c c' => hC _ _ c c' hs₂)
  | access target indexes =>
    have hx := h rfl
    have hindexes := succeeds_mapM (R := R) hR fun x hm => hx x (List.mem_cons_of_mem target hm)
    refine (hx target List.mem_cons_self).bind fun target' s₁ hs₁ ht => ?_
    refine (hindexes.mono hs₁).bind fun indexes' s₂ hs₂ hi => succeeds_pure fun s₃ hs₃ => ?_
    exact .access (hR _ _ _ _ (hs₂.trans hs₃) ht) (stable hs₃ hi)
  | function parameters body =>
    have hx := h rfl
    have hparameters := succeeds_mapM (R := R) hR fun x hm => hx x (List.mem_append_left _ hm)
    have hbody := succeeds_mapM_option (R := R) hR fun x hm =>
      hx x (List.mem_append_right _ (Option.mem_toList.2 hm))
    refine hparameters.bind fun parameters' s₁ hs₁ hp => ?_
    refine (hbody.mono hs₁).bind fun body' s₂ hs₂ hb => ?_
    exact succeeds_pure fun s₃ hs₃ => .function (stable (hs₂.trans hs₃) hp) (stable hs₃ hb)
  | call callee arguments =>
    have harguments := succeeds_mapM (R := R) hR (h rfl)
    refine harguments.bind fun arguments' s₁ hs₁ ha => succeeds_pure fun s₂ hs₂ => ?_
    exact .call (stable hs₂ ha)
  | declaration target content form =>
    have hx := h rfl
    refine (hx target List.mem_cons_self).bind fun target' s₁ hs₁ ht => ?_
    refine ((hx content (by simp [Kind.children])).mono hs₁).bind fun content' s₂ hs₂ hc => ?_
    exact succeeds_pure fun s₃ hs₃ =>
      .declaration (hR _ _ _ _ (hs₂.trans hs₃) ht) (hR _ _ _ _ hs₃ hc)
  | _ => exact succeeds_pure fun _ _ => .leaf rfl

/-- **A copy of an element** is there, over copies of its children. -/
theorem succeeds_copy {R : Store → ElementId → ElementId → Prop}
    {f : ElementId → Copying ElementId}
    (hR : ∀ s s' x y, Extends s s' → R s x y → R s' x y) {s : Store} {e : Element}
    (h : e.kind.isCompound = true → ∀ x ∈ e.kind.children,
      Succeeds s (f x) fun s₁ y => R s₁ x y) :
    Succeeds s (e.copy f) fun s₁ id => id < s₁.size ∧ ∃ kind, Kind.Copies (R s₁) e.kind kind ∧
      s₁.get id = { e with kind, owner := none } := by
  refine (succeeds_mapChildren hR h).bind fun kind s₁ _ hkind s₂ hs₂ => ?_
  refine ⟨s₂.size, s₂.push { e with kind, owner := none }, rfl, .push _ _, ?_, kind, ?_, ?_⟩
  · rw [size_push]
    exact Nat.lt_succ_self _
  · exact hkind.imp fun x y => hR _ _ x y (hs₂.trans (.push _ _))
  · exact get_push_size _ _

end Copying

end FormulaSheet
