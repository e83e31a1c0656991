/-
  The pool of a reduction: fresh tokens and trees that share nothing.

  A reduction starts from fresh tokens and turns them into trees step by step.
  `Pool s₀ s P A fresh roots` says that the trees of `roots` are finite, that
  no element occurs twice in them and `fresh`, and that the fresh tokens are
  still as they were in `s₀`.  `P` holds of every element of the trees, `A` of
  every id of the pool.

  * `Pool.sub`, `Pool.take`, `Pool.bind`, `Pool.fold` and `Pool.build` are the
    steps: drop and reorder, turn a token into a tree, give an operator its
    operands, add a node.
  * `buildArray_pool` and `reduce_pool`: a literal or a term of the pool gives
    way to its tree.
-/
import FormulaSheet.Proofs.Forest
import FormulaSheet.Proofs.Frame
import Mathlib.Data.List.Perm.Subperm

namespace FormulaSheet

/-! ## Elements -/

namespace Element

/-- An element that no reduction has touched. -/
structure Fresh (e : Element) : Prop where
  children : e.kind.children = []
  unsealed : e.sealed = false

/-- An operator has the operands of its role if it is sealed, and none
    otherwise; an error holds nothing. -/
structure Shaped (e : Element) : Prop where
  operands : ∀ symbol role first second, e.kind = .operator symbol role first second →
    (e.sealed = true → first.isSome ∧ (second.isSome ↔ role = .binary)) ∧
    (e.sealed = false → first = none ∧ second = none)
  error : ∀ fault ids, e.kind = .error fault ids → ids = []

/-- An element of a finished term: moreover it is no structure, and no operator
    without operands. -/
structure Complete (e : Element) : Prop where
  notStructural : e.kind.isStructural = false
  operands : ∀ symbol role first second, e.kind = .operator symbol role first second →
    e.sealed = true ∧ first.isSome ∧ (second.isSome ↔ role = .binary)
  error : ∀ fault ids, e.kind = .error fault ids → ids = []

variable {e : Element}

theorem Complete.shaped (h : e.Complete) : e.Shaped where
  operands symbol role first second hk := by
    obtain ⟨hs, hf⟩ := h.operands _ _ _ _ hk
    exact ⟨fun _ => hf, fun hs' => by rw [hs] at hs'; cases hs'⟩
  error := h.error

theorem Fresh.error (h : e.Fresh) (fault : Fault) (ids : List ElementId)
    (hk : e.kind = .error fault ids) : ids = [] := by
  have hc := h.children
  rw [hk] at hc
  exact hc

theorem Fresh.shaped (h : e.Fresh) : e.Shaped where
  operands symbol role first second hk := by
    have hc := h.children
    have hs := h.unsealed
    simp_all [Kind.children]
  error := h.error

theorem pendingRole?_eq_some_iff {role : Role} : e.pendingRole? = some role ↔
    ∃ symbol first second, e.kind = .operator symbol role first second ∧ e.sealed = false := by
  unfold pendingRole?
  cases hk : e.kind with
  | operator symbol role' first second =>
    cases hs : e.sealed <;> simp
  | _ => simp

/-- An operator that waits for its operands has none. -/
theorem Shaped.children_eq_nil (h : e.Shaped) {role : Role}
    (hp : e.pendingRole? = some role) : e.kind.children = [] := by
  obtain ⟨symbol, first, second, hk, hs⟩ := pendingRole?_eq_some_iff.1 hp
  obtain ⟨rfl, rfl⟩ := (h.operands _ _ _ _ hk).2 hs
  rw [hk]
  rfl

/-- What the check of a finished tree looks for is all that is missing. -/
theorem Shaped.complete (h : e.Shaped) (hs : e.kind.isStructural = false)
    (hp : e.pendingRole? = none) : e.Complete := by
  refine ⟨hs, fun symbol role first second hk => ?_, h.error⟩
  cases hsealed : e.sealed with
  | true => exact ⟨rfl, (h.operands _ _ _ _ hk).1 hsealed⟩
  | false =>
    have := pendingRole?_eq_some_iff.2 ⟨symbol, first, second, hk, hsealed⟩
    rw [hp] at this
    cases this

/-- An operator with the operands of its role is complete. -/
theorem complete_withOperands {role : Role} (hp : e.pendingRole? = some role)
    {first second : Option ElementId} (hf : first.isSome)
    (hs : second.isSome ↔ role = .binary) :
    (e.withOperands first second).Complete ∧
      (e.withOperands first second).kind.children = first.toList ++ second.toList := by
  obtain ⟨symbol, a, b, hk, -⟩ := pendingRole?_eq_some_iff.1 hp
  simp only [withOperands, hk]
  refine ⟨⟨rfl, ?_, by simp⟩, rfl⟩
  intro symbol' role' first' second' hk'
  cases hk'
  exact ⟨rfl, hf, hs⟩

/-- A sign with the element it stands before is complete. -/
theorem complete_signOf (h : e.Fresh) (ho : e.kind.isOperator = true) (operand : ElementId) :
    (e.signOf operand).Complete ∧ (e.signOf operand).kind.children = [operand] := by
  obtain ⟨symbol, role, a, b, hk⟩ := Kind.isOperator_iff.1 ho
  obtain ⟨rfl, rfl⟩ := (h.shaped.operands _ _ _ _ hk).2 h.unsealed
  simp only [signOf, hk]
  refine ⟨⟨rfl, ?_, by simp⟩, rfl⟩
  intro symbol' role' first' second' hk'
  cases hk'
  exact ⟨rfl, rfl, by simp⟩

theorem complete_of_not_isOperator (hs : e.kind.isStructural = false)
    (ho : e.kind.isOperator = false) (he : ∀ fault ids, e.kind = .error fault ids → ids = []) :
    e.Complete := by
  refine ⟨hs, fun symbol role first second hk => ?_, he⟩
  rw [hk] at ho
  cases ho

end Element

/-! ## Pools -/

open Store

/-- Fresh tokens and trees that share nothing. -/
structure Pool (s₀ s : Store) (P : Element → Prop) (A : ElementId → Prop)
    (fresh roots : List ElementId) : Prop where
  tokens : ∀ id ∈ fresh, s.get id = s₀.get id ∧ (s.get id).Fresh
  trees : ∃ all, Forest s roots all ∧ (fresh ++ all).Nodup ∧
    (∀ id ∈ fresh ++ all, id < s.size ∧ A id) ∧ ∀ id ∈ all, P (s.get id)
  /-- New elements belong to the pool. -/
  new : ∀ id, s.size ≤ id → A id

namespace Pool

variable {s₀ s s' : Store} {P : Element → Prop} {A : ElementId → Prop}
  {fresh fresh' roots roots' : List ElementId}

/-- Fresh tokens are a pool without trees. -/
theorem of_fresh (hf : ∀ id ∈ fresh, (s.get id).Fresh ∧ id < s.size ∧ A id) (hn : fresh.Nodup)
    (hnew : ∀ id, s.size ≤ id → A id) : Pool s s P A fresh [] where
  tokens id hid := ⟨rfl, (hf id hid).1⟩
  trees := ⟨[], .nil, by rwa [List.append_nil], fun id hid =>
    (hf id (by rwa [List.append_nil] at hid)).2, by simp⟩
  new := hnew

theorem weaken {A' : ElementId → Prop} (h : Pool s₀ s P A fresh roots)
    (hA : ∀ id, A id → A' id) : Pool s₀ s P A' fresh roots := by
  obtain ⟨all, hall, hn, hmem, hP⟩ := h.trees
  exact ⟨h.tokens, ⟨all, hall, hn, fun id hid => (hmem id hid).imp_right (hA id), hP⟩,
    fun id hid => hA id (h.new id hid)⟩

theorem of_mem_fresh (h : Pool s₀ s P A fresh roots) {id : ElementId} (hid : id ∈ fresh) :
    A id := by
  obtain ⟨_, -, -, hmem, -⟩ := h.trees
  exact (hmem id (List.mem_append_left _ hid)).2

/-- Without trees `P` says nothing. -/
theorem of_no_roots {P' : Element → Prop} (h : Pool s₀ s P A fresh []) :
    Pool s₀ s P' A fresh [] := by
  obtain ⟨all, hall, hn, hA, -⟩ := h.trees
  cases hall
  exact ⟨h.tokens, ⟨[], .nil, hn, hA, by simp⟩, h.new⟩

/-- Drop and reorder. -/
theorem sub (h : Pool s₀ s P A fresh roots) (hf : fresh'.Subperm fresh)
    (hr : roots'.Subperm roots) : Pool s₀ s P A fresh' roots' := by
  obtain ⟨all, hall, hn, hA, hP⟩ := h.trees
  obtain ⟨rest, hrest⟩ : ∃ rest, roots.Perm (roots' ++ rest) := by
    obtain ⟨l, hl, hs⟩ := hr
    obtain ⟨rest, hp⟩ := hs.exists_perm_append
    exact ⟨rest, hp.trans (hl.append_right rest)⟩
  obtain ⟨all₁, h₁, hp⟩ := hall.perm hrest
  obtain ⟨x, y, rfl, hx, -⟩ := h₁.of_append
  have hsub : (fresh' ++ x).Subperm (fresh ++ all) :=
    hf.append ((List.sublist_append_left x y).subperm.trans hp.symm.subperm)
  refine ⟨fun id hid => h.tokens id (hf.subset hid), ⟨x, hx, ?_, ?_, ?_⟩, h.new⟩
  · obtain ⟨l, hl, hs⟩ := hsub
    exact hl.nodup_iff.1 (hs.nodup hn)
  · exact fun id hid => hA id (hsub.subset hid)
  · exact fun id hid => hP id (hp.mem_iff.2 (List.mem_append_left _ hid))

theorem perm (h : Pool s₀ s P A fresh roots) (hr : roots.Perm roots') :
    Pool s₀ s P A fresh roots' :=
  h.sub (List.Subperm.refl _) hr.symm.subperm

/-- The tokens are as they were when the pool was last looked at. -/
theorem rebase (h : Pool s₀ s P A fresh roots) : Pool s s P A fresh roots :=
  ⟨fun id hid => ⟨rfl, (h.tokens id hid).2⟩, h.trees, h.new⟩

theorem unbase (h : Pool s₀ s P A fresh roots) (hs : fresh' ⊆ fresh)
    (h' : Pool s s' P A fresh' roots') : Pool s₀ s' P A fresh' roots' where
  tokens id hid :=
    ⟨(h'.tokens id hid).1.trans (h.tokens id (hs hid)).1, (h'.tokens id hid).2⟩
  trees := h'.trees
  new := h'.new

theorem of_mem_roots (h : Pool s₀ s P A fresh roots) {id : ElementId} (hid : id ∈ roots) :
    P (s.get id) := by
  obtain ⟨all, hall, -, -, hP⟩ := h.trees
  exact hP id (hall.subset hid)

/-- A token becomes a tree. -/
theorem take {id : ElementId} (h : Pool s₀ s P A (id :: fresh) roots) (hP : P (s.get id)) :
    Pool s₀ s P A fresh (id :: roots) := by
  obtain ⟨all, hall, hn, hA, hPall⟩ := h.trees
  have hleaf : Forest s (s.kind id).children [] := by
    rw [kind, (h.tokens id List.mem_cons_self).2.children]
    exact .nil
  have hp : (fresh ++ id :: all).Perm (id :: fresh ++ all) := List.perm_middle
  refine ⟨fun x hx => h.tokens x (List.mem_cons_of_mem _ hx),
    ⟨id :: all, .cons hleaf hall, hp.nodup_iff.2 hn, fun x hx => hA x (hp.mem_iff.1 hx), ?_⟩,
    h.new⟩
  intro x hx
  rcases List.mem_cons.1 hx with rfl | hx
  · exact hP
  · exact hPall x hx

/-- A change of one element of the trees. -/
theorem modified {id : ElementId} {f : Element → Element} {all : List ElementId}
    (hfresh : ∀ id ∈ fresh, s.get id = s₀.get id ∧ (s.get id).Fresh)
    (hall : Forest (s.modify id f) roots all) (hn : (fresh ++ all).Nodup)
    (hA : ∀ id ∈ fresh ++ all, id < s.size ∧ A id) (hid : id ∈ all)
    (hP : ∀ x ∈ all, x ≠ id → P (s.get x)) (hPid : P (f (s.get id)))
    (hnew : ∀ id, s.size ≤ id → A id) : Pool s₀ (s.modify id f) P A fresh roots where
  tokens x hx := by
    have hne : id ≠ x := by
      rintro rfl
      exact (List.nodup_append.1 hn).2.2 id hx id hid rfl
    rw [get_modify_of_ne f hne]
    exact hfresh x hx
  trees := by
    refine ⟨all, hall, hn, fun x hx => by rw [size_modify]; exact hA x hx, fun x hx => ?_⟩
    by_cases hne : id = x
    · subst hne
      rw [get_modify_self f (hA id (List.mem_append_right _ hid)).1]
      exact hPid
    · rw [get_modify_of_ne f hne]
      exact hP x hx (Ne.symm hne)
  new x hx := hnew x (by rwa [size_modify] at hx)

/-- A root without children takes other roots below itself. -/
theorem bind {id : ElementId} {operands : List ElementId} {f : Element → Element}
    (h : Pool s₀ s P A fresh (id :: (operands ++ roots))) (hleaf : (s.kind id).children = [])
    (hf : (f (s.get id)).kind.children = operands) (hP : P (f (s.get id))) :
    Pool s₀ (s.modify id f) P A fresh (id :: roots) := by
  obtain ⟨all, hall, hn, hA, hPall⟩ := h.trees
  have hid := hall.subset List.mem_cons_self
  exact modified h.tokens (hall.graft (List.nodup_append.1 hn).2.1
    (hA id (List.mem_append_right _ hid)).1 hleaf hf) hn hA hid (fun x hx _ => hPall x hx) hP h.new

/-- A token takes roots below itself. -/
theorem fold {id : ElementId} {operands : List ElementId} {f : Element → Element}
    (h : Pool s₀ s P A (id :: fresh) (operands ++ roots))
    (hf : (f (s.get id)).kind.children = operands) (hP : P (f (s.get id))) :
    Pool s₀ (s.modify id f) P A fresh (id :: roots) := by
  obtain ⟨all, hall, hn, hA, hPall⟩ := h.trees
  have hleaf := (h.tokens id List.mem_cons_self).2.children
  have hp : (fresh ++ id :: all).Perm (id :: fresh ++ all) := List.perm_middle
  have hn' := hp.nodup_iff.2 hn
  have hforest : Forest s (id :: (operands ++ roots)) (id :: all) := by
    have hbelow : Forest s (s.kind id).children [] := by
      rw [kind, hleaf]
      exact .nil
    exact .cons hbelow hall
  refine modified (fun x hx => h.tokens x (List.mem_cons_of_mem _ hx))
    (hforest.graft (List.nodup_append.1 hn').2.1 (hA id List.mem_cons_self).1 hleaf hf) hn'
    (fun x hx => hA x (hp.mem_iff.1 hx)) List.mem_cons_self (fun x hx hne => ?_) hP h.new
  exact hPall x ((List.mem_cons.1 hx).resolve_left hne)

/-- A new node takes roots below itself. -/
theorem build {e : Element} (h : Pool s₀ s P A fresh (e.kind.children ++ roots)) (hP : P e) :
    Pool s₀ (s.push e) P A fresh (s.size :: roots) := by
  obtain ⟨all, hall, hn, hA, hPall⟩ := h.trees
  have hlt : ∀ id ∈ all, id < s.size := fun id hid => (hA id (List.mem_append_right _ hid)).1
  have hnew : s.size ∉ fresh ++ all := fun hm => Nat.lt_irrefl _ (hA _ hm).1
  have hp : (fresh ++ s.size :: all).Perm (s.size :: (fresh ++ all)) := List.perm_middle
  refine ⟨fun id hid => ?_, ⟨s.size :: all, hall.build hlt, ?_, fun id hid => ?_, fun id hid => ?_⟩,
    fun id hid => h.new id ?_⟩
  · rw [get_push_of_lt e (hA id (List.mem_append_left _ hid)).1]
    exact h.tokens id hid
  · exact hp.nodup_iff.2 (List.nodup_cons.2 ⟨hnew, hn⟩)
  · rw [size_push]
    rcases List.mem_cons.1 (hp.mem_iff.1 hid) with rfl | hid
    · exact ⟨Nat.lt_succ_self _, h.new _ (Nat.le_refl _)⟩
    · exact ⟨Nat.lt_succ_of_lt (hA id hid).1, (hA id hid).2⟩
  · rcases List.mem_cons.1 hid with rfl | hid
    · rw [get_push_size]
      exact hP
    · rw [get_push_of_lt e (hlt id hid)]
      exact hPall id hid
  · rw [size_push] at hid
    exact Nat.le_of_succ_le hid

end Pool

namespace Term

open Building

variable {P : Element → Prop} {A : ElementId → Prop} {c : Context}

/-- A computation that, if it succeeds, puts one tree in place of the tokens
    `term` of a pool. -/
def Yields (P : Element → Prop) (A : ElementId → Prop) (x : Reducing ElementId)
    (term : List ElementId) : Prop :=
  ∀ {s₀ : Store} {w : Workspace} {fresh roots : List ElementId},
    Pool s₀ w.store P A (term ++ fresh) roots →
      x.Returns w fun id w' => Pool s₀ w'.store P A fresh (id :: roots)

/-! ## Array literals -/

theorem complete_of_canBeSigned {e : Element} (h : canBeSigned e.kind = true) : e.Complete := by
  apply Element.complete_of_not_isOperator
  all_goals cases hk : e.kind <;> simp_all [canBeSigned, Kind.isStructural, Kind.isOperator]

/-- The cells of a literal are trees of complete elements. -/
theorem layout_pool (hP : ∀ e : Element, e.Complete → P e)
    {nested : List ElementId → Reducing ElementId} {s₀ : Store} {parts : List Item}
    (hn : ∀ inner, .nested inner ∈ parts → Yields P A (nested inner) inner)
    (hs : ∀ part ∈ parts, part.Fits s₀) (row col : Nat) {w : Workspace}
    {fresh roots : List ElementId}
    (h : Pool s₀ w.store P A (parts.flatMap Item.ids ++ fresh) roots) :
    (layout nested row col parts).Returns w fun cells w' =>
      Pool s₀ w'.store P A fresh (cells.map Cell.value ++ roots) := by
  induction parts generalizing w row col roots with
  | nil => simpa [layout] using h
  | cons part parts ih =>
    rw [List.flatMap_cons, List.append_assoc] at h
    have hfits := hs part List.mem_cons_self
    have ih' := @ih (fun inner hm => hn inner (List.mem_cons_of_mem _ hm))
      fun part hm => hs part (List.mem_cons_of_mem _ hm)
    -- The first cell is a tree already when the others are laid out.
    have rest : ∀ {id : ElementId} {w' : Workspace},
        Pool s₀ w'.store P A (parts.flatMap Item.ids ++ fresh) (id :: roots) →
        (layout nested row (col + 1) parts >>= fun cells => pure (⟨id, row, col⟩ :: cells) :
          Reducing (List Cell)).Returns w' fun cells w'' =>
            Pool s₀ w''.store P A fresh (cells.map Cell.value ++ roots) := by
      intro id w' h'
      refine Reducing.returns_bind (ih' row (col + 1) h') fun cells w'' h'' => ?_
      rw [Reducing.returns_pure]
      exact h''.perm List.perm_middle
    cases part with
    | rowEnd =>
      rw [layout]
      split
      · exact ih' row col h
      · exact ih' (row + 1) 0 h
    | cell id =>
      rw [layout]
      have hfresh := h.tokens id List.mem_cons_self
      have hcomplete : (w.store.get id).Complete := by
        refine Element.complete_of_not_isOperator ?_ ?_ hfresh.2.error
        · rw [hfresh.1]; exact hfits.1
        · rw [hfresh.1]; exact hfits.2
      exact rest (h.take (hP _ hcomplete))
    | signed sign operand =>
      rw [layout, Reducing.returns_lift_bind, run_foldSign]
      obtain ⟨hsign, hoperand⟩ := hfits
      have hcomplete : (w.store.get operand).Complete := by
        rw [(h.tokens operand (by simp [Item.ids])).1]
        exact complete_of_canBeSigned hoperand
      have hfresh := h.tokens sign List.mem_cons_self
      have hswap := h.sub (List.Perm.swap sign operand _).subperm (List.Subperm.refl _)
      obtain ⟨hc, hchildren⟩ := Element.complete_signOf hfresh.2 (by rwa [hfresh.1]) operand
      have htaken : Pool s₀ w.store P A (sign :: (parts.flatMap Item.ids ++ fresh))
          ([operand] ++ roots) := hswap.take (hP _ hcomplete)
      exact rest (htaken.fold hchildren (hP _ hc))
    | nested inner =>
      rw [layout]
      exact Reducing.returns_bind (hn inner List.mem_cons_self h) fun id w' h' => rest h'
    | unsupported id => rw [layout, Reducing.returns_store_bind]; exact Reducing.returns_throw
    | unclosed => rw [layout]; exact Reducing.returns_throw

/-- **An array literal gives way to its array**, a tree of complete elements. -/
theorem buildArray_pool (hP : ∀ e : Element, e.Complete → P e) (inner : List ElementId) :
    Yields P A (buildArray c inner) inner := by
  induction hl : inner.length using Nat.strongRecOn generalizing inner with
  | _ n ih =>
    intro s₀ w fresh roots h
    rw [buildArray_eq, Reducing.returns_store_bind]
    have hitems : Pool w.store w.store P A
        ((items c.vocabulary w.store inner).flatMap Item.ids ++ fresh) roots :=
      h.rebase.sub ((ids_items_sublist c.vocabulary w.store inner).subperm.append
        (List.Subperm.refl _)) (List.Subperm.refl _)
    refine Reducing.returns_bind (layout_pool hP
      (fun nested hm => ih _ (hl ▸ length_lt_of_mem_items hm) nested rfl)
      (fun _ hm => fits_of_mem_items hm) 0 0 hitems) fun cells w' h' => ?_
    simp only [Reducing.returns_lift_bind, Reducing.returns_lift, run_store, run_buildNode,
      Workspace.store_withStore]
    have hnode : (⟨.array cells, "[" ++ w'.store.rawText " " inner ++ "]", c.line, true, none⟩ :
        Element).Complete := Element.complete_of_not_isOperator rfl rfl (by simp)
    exact (h.unbase (List.subset_append_right _ _) h').build (hP _ hnode)

/-! ## Calls -/

theorem mapM_pool {reduce : List ElementId → Reducing ElementId} {pieces : List (List ElementId)}
    (hr : ∀ piece ∈ pieces, Yields P A (reduce piece) piece) {s₀ : Store} {w : Workspace}
    {fresh roots : List ElementId} (h : Pool s₀ w.store P A (pieces.flatten ++ fresh) roots) :
    (pieces.mapM reduce).Returns w fun ids w' => Pool s₀ w'.store P A fresh (ids ++ roots) := by
  induction pieces generalizing w roots with
  | nil => simpa using h
  | cons piece pieces ih =>
    rw [List.flatten_cons, List.append_assoc] at h
    rw [List.mapM_cons]
    refine Reducing.returns_bind (hr piece List.mem_cons_self h) fun id w₁ h₁ => ?_
    refine Reducing.returns_bind (ih (fun p hp => hr p (List.mem_cons_of_mem _ hp)) h₁)
      fun ids w₂ h₂ => ?_
    rw [Reducing.returns_pure]
    exact h₂.perm List.perm_middle

theorem reduceArguments_pool {reduce : List ElementId → Reducing ElementId}
    {inner : List ElementId}
    (hr : ∀ term : List ElementId, term.length ≤ inner.length → Yields P A (reduce term) term)
    {s₀ : Store} {w : Workspace} {fresh roots : List ElementId}
    (h : Pool s₀ w.store P A (inner ++ fresh) roots) :
    (reduceArguments reduce inner).Returns w fun ids w' =>
      Pool s₀ w'.store P A fresh (ids ++ roots) := by
  rw [reduceArguments, Reducing.returns_store_bind]
  refine mapM_pool (fun piece hp => hr piece (length_le_of_mem_arguments hp)) (h.sub ?_ ?_)
  · exact (flatten_arguments_sublist w.store inner).subperm.append (List.Subperm.refl _)
  · exact List.Subperm.refl _

/-- A call takes the trees of its arguments; an access also takes its name, and
    the name of any other call is dropped. -/
theorem buildCall_pool (hP : ∀ e : Element, e.Complete → P e)
    {reduce : List ElementId → Reducing ElementId} {inner : List ElementId}
    (hr : ∀ term : List ElementId, term.length ≤ inner.length → Yields P A (reduce term) term)
    (id : ElementId) (name : String) {s₀ : Store} {w : Workspace}
    {fresh roots : List ElementId} (h : Pool s₀ w.store P A (inner ++ fresh) (id :: roots)) :
    (buildCall c reduce id name inner).Returns w fun node w' =>
      Pool s₀ w'.store P A fresh (node :: roots) := by
  have built : ∀ {w : Workspace} (kind : Kind) (raw : String), kind.isStructural = false →
      kind.isOperator = false → (∀ fault ids, kind = .error fault ids → ids = []) →
      Pool s₀ w.store P A fresh (kind.children ++ roots) →
      (liftM (buildNode c kind raw) : Reducing ElementId).Returns w fun node w' =>
        Pool s₀ w'.store P A fresh (node :: roots) := by
    intro w kind raw hs ho he h
    rw [Reducing.returns_lift]
    exact h.build (hP _ (Element.complete_of_not_isOperator hs ho he))
  have hargs := reduceArguments_pool hr h
  rw [buildCall, Reducing.returns_store_bind]
  split
  · refine Reducing.returns_bind hargs fun indexes w' h' => ?_
    have hnode : Pool s₀ w'.store P A fresh (id :: indexes ++ roots) := h'.perm List.perm_middle
    rw [Reducing.returns_store_bind]
    exact built _ _ rfl rfl (by simp) hnode
  · refine Reducing.returns_bind hargs fun arguments w' h' => ?_
    have hnode : Pool s₀ w'.store P A fresh (arguments ++ roots) :=
      h'.sub (List.Subperm.refl _)
        ((List.Sublist.refl _).append (List.sublist_cons_self id roots)).subperm
    rw [Reducing.returns_lift_bind, run_note, Reducing.returns_store_bind]
    exact built _ _ rfl rfl (by simp) hnode
  · have hnode : Pool s₀ w.store P A fresh ([] ++ roots) :=
      h.sub (List.sublist_append_right _ _).subperm (List.sublist_cons_self id roots).subperm
    rw [Reducing.returns_lift_bind, run_note, Reducing.returns_store_bind]
    exact built _ _ rfl rfl (by simp) hnode

/-! ## The three passes -/

theorem collapseGroups_pool {reduce : List ElementId → Reducing ElementId} {n : Nat}
    (hr : ∀ inner : List ElementId, inner.length < n →
      Yields Element.Shaped A (reduce inner) inner)
    {parts : List Segment} (hp : ∀ group inner, .group group inner ∈ parts → inner.length < n)
    {s₀ : Store} {w : Workspace} {fresh done roots : List ElementId}
    (h : Pool s₀ w.store Element.Shaped A (parts.flatMap Segment.ids ++ fresh) (done ++ roots)) :
    (collapseGroups c reduce done parts).Returns w fun work w' =>
      Pool s₀ w'.store Element.Shaped A fresh (work ++ roots) := by
  induction parts generalizing w done with
  | nil =>
    rw [collapseGroups, Reducing.returns_pure]
    exact h.perm (done.reverse_perm.symm.append_right roots)
  | cons part parts ih =>
    rw [List.flatMap_cons, List.append_assoc] at h
    have ih' := @ih fun group inner hm => hp group inner (List.mem_cons_of_mem _ hm)
    cases part with
    | single id =>
      rw [collapseGroups]
      exact ih' (h.take (h.tokens id List.mem_cons_self).2.shaped)
    | unmatched group =>
      rw [collapseGroups]
      exact Reducing.returns_throw
    | group group inner =>
      have hlt := hp group inner List.mem_cons_self
      cases group with
      | bracket =>
        rw [collapseGroups]
        exact Reducing.returns_bind (buildArray_pool (fun _ => Element.Complete.shaped) inner h)
          fun _ _ h' => ih' h'
      | parenthesis =>
        cases done with
        | nil =>
          rw [collapseGroups]
          exact Reducing.returns_bind (hr inner hlt h) fun _ _ h' => ih' h'
        | cons previous done =>
          rw [collapseGroups, Reducing.returns_store_bind]
          split
          · rename_i name _
            have hcall := buildCall_pool (c := c) (fun _ => Element.Complete.shaped)
              (fun term ht => hr term (Nat.lt_of_le_of_lt ht hlt)) previous name h
            exact Reducing.returns_bind hcall fun _ _ h' => ih' h'
          · exact Reducing.returns_bind (hr inner hlt h) fun _ _ h' => ih' h'

/-- An operator takes its operands. -/
theorem pool_giveOperands {s₀ s : Store} {fresh roots : List ElementId} {id : ElementId}
    {role : Role} {first second : Option ElementId}
    (h : Pool s₀ s Element.Shaped A fresh (id :: (first.toList ++ second.toList ++ roots)))
    (hp : (s.get id).pendingRole? = some role) (hf : first.isSome)
    (hs : second.isSome ↔ role = .binary) :
    Pool s₀ (s.modify id (·.withOperands first second)) Element.Shaped A fresh (id :: roots) := by
  obtain ⟨hc, hchildren⟩ := Element.complete_withOperands hp hf hs
  exact h.bind ((h.of_mem_roots List.mem_cons_self).children_eq_nil hp) hchildren hc.shaped

theorem bindFunctions_pool {s₀ : Store} {fresh : List ElementId} :
    ∀ {work roots : List ElementId} {w : Workspace},
      Pool s₀ w.store Element.Shaped A fresh (work ++ roots) →
      (bindFunctions work).Returns w fun work' w' =>
        Pool s₀ w'.store Element.Shaped A fresh (work' ++ roots)
  | [], roots, w, h => by
    rw [bindFunctions, Reducing.returns_pure]
    exact h
  | [id], roots, w, h => by
    rw [bindFunctions, Reducing.returns_store_bind]
    split
    · rw [Reducing.returns_lift_bind]
      exact Reducing.ensures_throw_bind.2 (by simp)
    · exact Reducing.returns_pure.2 h
  | id :: next :: rest, roots, w, h => by
    have done : ∀ {rest : List ElementId} {w : Workspace},
        (bindFunctions rest).Returns w (fun work' w' =>
          Pool s₀ w'.store Element.Shaped A fresh (work' ++ id :: roots)) →
        (bindFunctions rest >>= fun rest => pure (id :: rest)).Returns w fun work' w' =>
          Pool s₀ w'.store Element.Shaped A fresh (work' ++ roots) := by
      intro rest w hr
      refine Reducing.returns_bind hr fun work' w' h' => ?_
      rw [Reducing.returns_pure]
      exact h'.perm List.perm_middle
    rw [bindFunctions, Reducing.returns_store_bind]
    split
    · rename_i hp
      rw [Reducing.returns_lift_bind, run_giveOperands]
      have hgiven : Pool s₀ (w.store.modify id (·.withOperands (some next) none)) Element.Shaped A
          fresh (id :: (rest ++ roots)) := pool_giveOperands h hp rfl (by simp)
      exact done (bindFunctions_pool (hgiven.perm List.perm_middle.symm))
    · exact done (bindFunctions_pool (h.perm List.perm_middle.symm))

theorem bindOperators_pool {s₀ : Store} {fresh roots : List ElementId} :
    ∀ {before after : List ElementId} {w : Workspace},
      Pool s₀ w.store Element.Shaped A fresh (before ++ (after ++ roots)) →
      (bindOperators before after).Returns w fun work w' =>
        Pool s₀ w'.store Element.Shaped A fresh (work ++ roots)
  | [], after, w, h => by
    rw [bindOperators, Reducing.returns_pure]
    exact h
  | id :: before, after, w, h => by
    have failed : (liftM (missingOperand id) >>= fun fault => throw fault :
        Reducing (List ElementId)).Returns w fun work w' =>
          Pool s₀ w'.store Element.Shaped A fresh (work ++ roots) := by
      rw [Reducing.returns_lift_bind]
      exact Reducing.returns_throw
    rw [bindOperators, Reducing.returns_store_bind]
    split
    · rename_i before _ _ _ operand after hp
      rw [Reducing.returns_lift_bind, run_giveOperands]
      have hoperand : Pool s₀ w.store Element.Shaped A fresh
          (id :: (operand :: (before ++ (after ++ roots)))) := h.perm (List.perm_middle.cons id)
      have hgiven : Pool s₀ (w.store.modify id (·.withOperands (some operand) none))
          Element.Shaped A fresh (id :: (before ++ (after ++ roots))) :=
        pool_giveOperands hoperand hp rfl (by simp)
      exact bindOperators_pool (hgiven.perm List.perm_middle.symm)
    · exact failed
    · rename_i left before right after hp
      rw [Reducing.returns_lift_bind, run_giveOperands]
      have hoperands : Pool s₀ w.store Element.Shaped A fresh
          (id :: (left :: right :: (before ++ (after ++ roots)))) :=
        h.perm ((List.perm_middle.cons left).cons id)
      have hgiven : Pool s₀ (w.store.modify id (·.withOperands (some left) (some right)))
          Element.Shaped A fresh (id :: (before ++ (after ++ roots))) :=
        pool_giveOperands hoperands hp rfl (by simp)
      exact bindOperators_pool (hgiven.perm List.perm_middle.symm)
    · exact failed
    · exact bindOperators_pool (h.perm List.perm_middle.symm)

/-! ## Terms -/

/-- What the check of a tree finds nothing in is complete. -/
theorem complete_of_unfinishedWithin {s : Store} {depth : Nat} {roots all : List ElementId}
    (h : Forest s roots all) (hd : all.length ≤ depth)
    (hnone : ∀ id ∈ roots, unfinishedWithin s depth id = none)
    (hs : ∀ id ∈ all, (s.get id).Shaped) : ∀ id ∈ all, (s.get id).Complete := by
  induction h generalizing depth with
  | nil => simp
  | @cons id roots below rest hb hr ihb ihr =>
    simp only [List.length_cons, List.length_append] at hd
    have hid := hnone id List.mem_cons_self
    obtain ⟨depth, rfl⟩ : ∃ d, depth = d + 1 := ⟨depth - 1, by omega⟩
    rw [unfinishedWithin] at hid
    split at hid
    · cases hid
    rename_i hstructural
    split at hid
    · cases hid
    rename_i hpending
    have hshaped := hs id List.mem_cons_self
    have hchildren : ∀ child ∈ (s.kind id).children, unfinishedWithin s depth child = none := by
      intro child hchild
      split at hid
      · rename_i fault ids hk
        rw [kind, hk, hshaped.error fault ids hk] at hchild
        cases hchild
      · exact List.findSome?_eq_none_iff.1 hid child (List.mem_reverse.2 hchild)
    intro x hx
    rcases List.mem_cons.1 hx with rfl | hx
    · exact hshaped.complete (by simpa using hstructural) (by simpa using hpending)
    rcases List.mem_append.1 hx with hx | hx
    · exact ihb (by omega) hchildren (fun y hy => hs y (by simp [hy])) x hx
    · exact ihr (by omega) (fun y hy => hnone y (List.mem_cons_of_mem _ hy))
        (fun y hy => hs y (by simp [hy])) x hx

theorem complete_of_unfinished? {s₀ s : Store} {fresh roots : List ElementId} {root : ElementId}
    (h : Pool s₀ s Element.Shaped A fresh (root :: roots)) (hnone : unfinished? s root = none) :
    Pool s₀ s Element.Complete A fresh [root] := by
  have h' := h.sub (List.Subperm.refl fresh)
    (List.Sublist.cons_cons root (List.nil_sublist roots)).subperm
  obtain ⟨all, hall, hn, hA, hP⟩ := h'.trees
  have hlen : all.length ≤ s.size + 1 := by
    have hsub : all ⊆ List.range s.size := fun id hid =>
      List.mem_range.2 (hA id (List.mem_append_right _ hid)).1
    have := (List.subperm_of_subset (List.nodup_append.1 hn).2.1 hsub).length_le
    rw [List.length_range] at this
    omega
  exact ⟨h'.tokens, ⟨all, hall, hn, hA,
    complete_of_unfinishedWithin hall hlen (by simpa [unfinished?] using hnone) hP⟩, h'.new⟩

/-- A term that reduces gives way to its tree, and the check of the tree finds
    nothing. -/
theorem reduce_checked (term : List ElementId) {s₀ : Store} {w : Workspace}
    {fresh roots : List ElementId} (h : Pool s₀ w.store Element.Shaped A (term ++ fresh) roots) :
    (reduce c term).Returns w fun root w' =>
      Pool s₀ w'.store Element.Shaped A fresh (root :: roots) ∧
        unfinished? w'.store root = none := by
  induction hl : term.length using Nat.strongRecOn generalizing term s₀ w fresh roots with
  | _ n ih =>
    rw [reduce_eq]
    apply returns_releasing
    rw [runPasses]
    split
    · exact Reducing.ensures_throw_bind.2 (by simp)
    rw [Reducing.returns_store_bind]
    have hparts : Pool s₀ w.store Element.Shaped A
        ((segments w.store term).flatMap Segment.ids ++ fresh) ([] ++ roots) :=
      h.sub ((ids_segments_sublist w.store term).subperm.append (List.Subperm.refl _))
        (List.Subperm.refl roots)
    have hinner : ∀ inner : List ElementId, inner.length < term.length →
        Yields Element.Shaped A (reduce c inner) inner :=
      fun inner hi _ _ _ _ h => (ih _ (hl ▸ hi) inner h rfl).imp fun _ _ h => h.1
    refine Reducing.returns_bind (collapseGroups_pool hinner
      (fun _ _ hm => length_lt_of_mem_segments hm) hparts) fun work w₁ h₁ => ?_
    refine Reducing.returns_bind (bindFunctions_pool h₁) fun work' w₂ h₂ => ?_
    have hreversed : Pool s₀ w₂.store Element.Shaped A fresh (work'.reverse ++ ([] ++ roots)) :=
      h₂.perm (work'.reverse_perm.symm.append_right roots)
    refine Reducing.returns_bind (bindOperators_pool hreversed) fun out w₃ h₃ => ?_
    split
    · rw [Reducing.returns_store_bind]
      split
      · exact Reducing.returns_pure.2 ⟨h₃, ‹_›⟩
      · exact Reducing.returns_throw
    · exact Reducing.returns_throw

/-- **A term gives way to its tree**, in which every element is complete. -/
theorem reduce_pool (term : List ElementId) {s₀ : Store} {w : Workspace}
    {fresh roots : List ElementId} (h : Pool s₀ w.store Element.Shaped A (term ++ fresh) roots) :
    (reduce c term).Returns w fun root w' => Pool s₀ w'.store Element.Complete A fresh [root] :=
  (reduce_checked term h).imp fun _ _ h => complete_of_unfinished? h.1 h.2

end Term

end FormulaSheet
