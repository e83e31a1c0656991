/-
  The value of a declaration.

  * `Body targets s root all`: `all` are the elements of the tree of `root`,
    a finished term or an error that holds leaves, and its calls lead to
    `targets`.
  * `Value targets s A fresh root form`: `root` is a value of a declaration of
    that form, built from elements of `A` other than `fresh`.
  * `declarationValue_value`: every right-hand side of fresh tokens is read as
    such a value, and apart from its tokens nothing changes.
-/
import FormulaSheet.Proofs.Pool
import FormulaSheet.Proofs.Steps

namespace FormulaSheet

/-! ## Elements of terms -/

namespace Element

/-- An element that a term can consist of; an access is one of a name, a call
    leads to one of the `targets`, and an error holds nothing. -/
def InTerm (s : Store) (targets : ElementId → Prop) (e : Element) : Prop :=
  match e.kind with
  | .blank | .function _ _ | .declaration _ _ _ => False
  | .access target _ => ∃ name, s.kind target = .name name
  | .call function _ => targets function
  | .error _ ids => ids = []
  | _ => True

variable {s s' : Store} {targets : ElementId → Prop} {e e' : Element}

theorem Retouched.inTerm (h : e.Retouched e') (he : e.InTerm s targets) : e'.InTerm s targets := by
  cases h with
  | same => exact he
  | operator => exact trivial

theorem IsNode.inTerm (h : e.IsNode s targets) : e.InTerm s targets := by
  obtain ⟨-, -, hk⟩ := h
  unfold InTerm
  cases hkind : e.kind <;> simp_all

theorem InTerm.mono {targets' : ElementId → Prop} (h : e.InTerm s targets)
    (ht : ∀ f, targets f → targets' f) : e.InTerm s targets' := by
  unfold InTerm at h ⊢
  cases hk : e.kind <;> simp_all

theorem InTerm.congr (h : e.InTerm s targets) (hk : e'.kind = e.kind)
    (hs : ∀ id ∈ e.kind.children, ∀ name, s.kind id = .name name → s'.kind id = .name name) :
    e'.InTerm s' targets := by
  unfold InTerm at h ⊢
  rw [hk]
  cases hkind : e.kind with
  | access target indexes =>
    rw [hkind] at h hs
    obtain ⟨name, hname⟩ := h
    exact ⟨name, hs target List.mem_cons_self name hname⟩
  | _ =>
    rw [hkind] at h
    exact h

theorem Retouched.owner_eq (h : e.Retouched e') : e'.owner = e.owner := by
  cases h with
  | same => rfl
  | operator => rfl

theorem children_released (e : Element) (ho : e.released.kind.isOperator = true) :
    e.released.kind.children = [] := by
  unfold released at ho ⊢
  split at ho
  · rfl
  · rename_i hk
    obtain ⟨symbol, role, first, second, hk'⟩ := Kind.isOperator_iff.1 ho
    exact absurd hk' (hk _ _ _ _)

/-- A token that is released is a leaf again. -/
theorem Fresh.children_of_retouched (h : e.Fresh) (hr : e.Retouched e')
    (hx : ∃ x : Element, e' = x.released) : e'.kind.children = [] := by
  obtain ⟨x, rfl⟩ := hx
  cases ho : x.released.kind.isOperator with
  | true => exact children_released x ho
  | false =>
    rw [hr.eq_of_not_isOperator (by rw [← hr.isOperator_eq, ho])]
    exact h.children

end Element

namespace Store

/-! ## What building leaves alone -/

/-- Only elements among `ids` have been changed, and no owner has been
    written. -/
structure Builds (ids : List ElementId) (s s' : Store) : Prop where
  size_le : s.size ≤ s'.size
  kept : ∀ id < s.size, id ∉ ids → s'.get id = s.get id
  owner : ∀ id, (s'.get id).owner = (s.get id).owner

namespace Builds

variable {ids ids' : List ElementId} {s s' s'' : Store}

theorem refl (ids : List ElementId) (s : Store) : Builds ids s s :=
  ⟨Nat.le_refl _, fun _ _ _ => rfl, fun _ => rfl⟩

theorem trans (h : Builds ids s s') (h' : Builds ids' s' s'')
    (hs : ∀ id ∈ ids', id < s.size → id ∈ ids) : Builds ids s s'' where
  size_le := Nat.le_trans h.size_le h'.size_le
  kept id hid hn := by
    rw [h'.kept id (Nat.lt_of_lt_of_le hid h.size_le) fun hm => hn (hs id hm hid),
      h.kept id hid hn]
  owner id := (h'.owner id).trans (h.owner id)

theorem of_grows {targets : ElementId → Prop} (h : Grows targets ids s s') : Builds ids s s' where
  size_le := h.size_le
  kept := h.kept
  owner id := by
    by_cases hid : id < s.size
    · exact (h.retouched id hid).owner_eq
    · rw [get_of_size_le (Nat.not_lt.1 hid)]
      by_cases hid' : id < s'.size
      · exact (h.node id (Nat.not_lt.1 hid) hid').2.1
      · rw [get_of_size_le (Nat.not_lt.1 hid')]

theorem push {e : Element} (ids : List ElementId) (s : Store) (he : e.owner = none) :
    Builds ids s (s.push e) where
  size_le := by rw [size_push]; exact Nat.le_succ _
  kept id hid _ := get_push_of_lt e hid
  owner id := by
    by_cases hid : id < s.size
    · rw [get_push_of_lt e hid]
    · rw [get_of_size_le (Nat.not_lt.1 hid)]
      by_cases hid' : id = s.size
      · rw [hid', get_push_size, he]
        rfl
      · have hlt := Nat.lt_of_le_of_ne (Nat.not_lt.1 hid) (Ne.symm hid')
        rw [get_of_size_le (by rw [size_push]; exact hlt)]

theorem modify {id : ElementId} {f : Element → Element} (s : Store) (hid : id ∈ ids)
    (hf : (f (s.get id)).owner = (s.get id).owner) : Builds ids s (s.modify id f) where
  size_le := Nat.le_of_eq (size_modify s id f).symm
  kept other _ hn := get_modify_of_ne f fun he => hn (he ▸ hid)
  owner other := by
    by_cases he : id = other
    · subst he
      by_cases hlt : id < s.size
      · rw [get_modify_self f hlt, hf]
      · rw [get_of_size_le (by rw [size_modify]; exact Nat.not_lt.1 hlt),
          get_of_size_le (Nat.not_lt.1 hlt)]
    · rw [get_modify_of_ne f he]

end Builds

/-- Every element among those released has been released. -/
theorem get_release {s : Store} {ids : List ElementId} {id : ElementId}
    (h : id ∈ ids ∨ ∃ x : Element, s.get id = x.released) :
    ∃ x : Element, (s.release ids).get id = x.released := by
  induction ids generalizing s with
  | nil => exact h.resolve_left (by simp)
  | cons first ids ih =>
    rw [release]
    refine ih ?_
    by_cases hne : first = id
    · subst hne
      by_cases hlt : first < s.size
      · exact Or.inr ⟨s.get first, get_modify_self _ hlt⟩
      · refine Or.inr ⟨absent, ?_⟩
        rw [get_of_size_le (by rw [size_modify]; exact Nat.not_lt.1 hlt)]
        rfl
    · rw [get_modify_of_ne _ hne]
      rcases h with hm | hx
      · exact Or.inl ((List.mem_cons.1 hm).resolve_left (Ne.symm hne))
      · exact Or.inr hx

/-! ## Finished terms -/

/-- All elements of `A` are elements of terms. -/
def InTerms (A : ElementId → Prop) (targets : ElementId → Prop) (s : Store) : Prop :=
  ∀ id < s.size, A id → (s.get id).InTerm s targets

theorem InTerms.grows {A targets : ElementId → Prop} {ids : List ElementId} {s s' : Store}
    (h : InTerms A targets s) (hs : Grows targets ids s s') : InTerms A targets s' := by
  intro id hid hA
  by_cases hlt : id < s.size
  · exact (hs.retouched id hlt).inTerm ((h id hlt hA).congr rfl fun _ _ _ => hs.name)
  · exact (hs.node id (Nat.not_lt.1 hlt) hid).inTerm

/-- The tree of `root` is a finished term, or an error that holds leaves. -/
structure Body (targets : ElementId → Prop) (s : Store) (root : ElementId)
    (all : List ElementId) : Prop where
  forest : Forest s [root] all
  finished : (∀ id ∈ all, (s.get id).Complete ∧ (s.get id).InTerm s targets) ∨
    ∃ fault ids, s.kind root = .error fault ids ∧
      ∀ id ∈ ids, (s.kind id).children = [] ∧ (s.get id).InTerm s targets

/-- Some elements of `A` without a duplicate. -/
structure Apart (A : ElementId → Prop) (s : Store) (ids : List ElementId) : Prop where
  nodup : ids.Nodup
  mem : ∀ id ∈ ids, id < s.size ∧ A id

theorem Apart.perm {A : ElementId → Prop} {s : Store} {ids ids' : List ElementId}
    (h : Apart A s ids) (hp : ids.Perm ids') : Apart A s ids' :=
  ⟨hp.nodup_iff.1 h.nodup, fun id hid => h.mem id (hp.mem_iff.2 hid)⟩

theorem Apart.mono {A A' : ElementId → Prop} {s s' : Store} {ids : List ElementId}
    (h : Apart A s ids) (hA : ∀ id, A id → A' id) (hs : s.size ≤ s'.size) : Apart A' s' ids :=
  ⟨h.nodup, fun id hid => ⟨Nat.lt_of_lt_of_le (h.mem id hid).1 hs, hA id (h.mem id hid).2⟩⟩

/-- A new element is apart from all others. -/
theorem Apart.cons_push {A : ElementId → Prop} {s : Store} {ids : List ElementId} (e : Element)
    (h : Apart A s ids) (hnew : A s.size) : Apart A (s.push e) (s.size :: ids) where
  nodup := List.nodup_cons.2 ⟨fun hm => Nat.lt_irrefl _ (h.mem _ hm).1, h.nodup⟩
  mem id hid := by
    rw [size_push]
    rcases List.mem_cons.1 hid with rfl | hid
    · exact ⟨Nat.lt_succ_self _, hnew⟩
    · exact ⟨Nat.lt_succ_of_lt (h.mem id hid).1, (h.mem id hid).2⟩

theorem Body.congr {targets : ElementId → Prop} {s s' : Store} {root : ElementId}
    {all : List ElementId} (h : Body targets s root all)
    (hk : ∀ id ∈ all, s'.kind id = s.kind id ∧ (s'.get id).sealed = (s.get id).sealed) :
    Body targets s' root all where
  forest := h.forest.congr fun id hid => by rw [(hk id hid).1]
  finished := by
    have hroot : root ∈ all := h.forest.subset List.mem_cons_self
    refine h.finished.imp (fun hc id hid => ?_) ?_
    · obtain ⟨hkind, hsealed⟩ := hk id hid
      obtain ⟨⟨h₁, h₂, h₃⟩, hin⟩ := hc id hid
      refine ⟨?_, hin.congr hkind fun child hchild name hname => ?_⟩
      · rw [kind, kind] at hkind
        exact ⟨by rwa [hkind], by rwa [hkind, hsealed], by rwa [hkind]⟩
      · rwa [(hk child (h.forest.mem_of_below hid (Below.root.child hchild))).1]
    · rintro ⟨fault, ids, hr, hleaf⟩
      refine ⟨fault, ids, by rw [(hk root hroot).1, hr], fun id hid => ?_⟩
      obtain ⟨below, hb, hs⟩ := h.forest.children hroot
      rw [hr] at hb
      have hkind := (hk id (hs (hb.subset hid))).1
      refine ⟨by rw [hkind]; exact (hleaf id hid).1, (hleaf id hid).2.congr hkind ?_⟩
      rw [← kind, (hleaf id hid).1]
      simp

theorem Body.mono {targets targets' : ElementId → Prop} {s : Store} {root : ElementId}
    {all : List ElementId} (h : Body targets s root all) (ht : ∀ f, targets f → targets' f) :
    Body targets' s root all where
  forest := h.forest
  finished := by
    refine h.finished.imp (fun hc id hid => ⟨(hc id hid).1, (hc id hid).2.mono ht⟩) ?_
    rintro ⟨fault, ids, hr, hleaf⟩
    exact ⟨fault, ids, hr, fun id hid => ⟨(hleaf id hid).1, (hleaf id hid).2.mono ht⟩⟩

/-- An error over leaves. -/
theorem Body.error {targets : ElementId → Prop} {s : Store} {ids : List ElementId} {e : Element}
    {fault : Fault} (he : e.kind = .error fault ids)
    (hleaf : ∀ id ∈ ids, (s.kind id).children = [] ∧ (s.get id).InTerm s targets)
    (hlt : ∀ id ∈ ids, id < s.size) : Body targets (s.push e) s.size (s.size :: ids) where
  forest := by
    have h : Forest s (e.kind.children ++ []) (ids ++ []) := by
      rw [he]
      exact (Forest.of_leaves fun id hid => (hleaf id hid).1).append .nil
    simpa using h.build (by simpa using hlt)
  finished := by
    refine Or.inr ⟨fault, ids, by rw [kind, get_push_size, he], fun id hid => ?_⟩
    rw [kind, get_push_of_lt e (hlt id hid)]
    refine ⟨(hleaf id hid).1, (hleaf id hid).2.congr rfl ?_⟩
    rw [← kind, (hleaf id hid).1]
    simp

end Store

/-! ## Bodies from pools -/

namespace Pool

open Store

variable {A targets : ElementId → Prop} {P : Element → Prop} {s₀ s : Store}
  {fresh roots : List ElementId}

theorem apart (h : Pool s₀ s P A fresh roots) : Apart A s fresh := by
  obtain ⟨all, -, hn, hA, -⟩ := h.trees
  exact ⟨(List.nodup_append.1 hn).1, fun id hid => hA id (List.mem_append_left _ hid)⟩

theorem body {root : ElementId} (h : Pool s₀ s Element.Complete A fresh [root])
    (hin : InTerms A targets s) : ∃ all, Body targets s root all ∧ Apart A s (fresh ++ all) := by
  obtain ⟨all, hall, hn, hA, hc⟩ := h.trees
  have hmem := fun id (hid : id ∈ all) => hA id (List.mem_append_right _ hid)
  exact ⟨all, ⟨hall, Or.inl fun id hid =>
    ⟨hc id hid, hin id (hmem id hid).1 (hmem id hid).2⟩⟩, hn, hA⟩

end Pool

namespace Term

open Building Store

variable {A targets : ElementId → Prop} {c : Context} {s₀ : Store} {w : Workspace}
  {term fresh : List ElementId}

/-! ## Terms -/

/-- A term that does not reduce is released. -/
theorem reduce_released (term : List ElementId) (w : Workspace) :
    (reduce c term).Ensures w fun r w' => ∀ fault, r = .error fault →
      ∀ id ∈ term, ∃ x : Element, w'.store.get id = x.released := by
  rw [reduce_eq]
  refine ensures_releasing (Reducing.Ensures.imp (P := fun _ _ => True) trivial fun r w' _ => ?_)
  cases r with
  | ok root => exact fun fault hf => by cases hf
  | error fault => exact fun _ _ id hid => get_release (Or.inl hid)

/-- A term of the pool becomes a body, or all of it is a leaf again. -/
theorem reduce_body (h : Pool s₀ w.store Element.Shaped A (term ++ fresh) [])
    (hw : Settled targets c w.store) (hin : InTerms A targets w.store) :
    (reduce c term).Ensures w fun r w' => Grows targets term w.store w'.store ∧
      match r with
      | .ok root => ∃ all, Body targets w'.store root all ∧ Apart A w'.store (fresh ++ all)
      | .error _ => ∀ id ∈ term, (w'.store.kind id).children = [] := by
  refine (((reduce_grows term hw).and (reduce_pool term h)).and (reduce_released term w)).imp ?_
  rintro r w' ⟨⟨hg, hpool⟩, hreleased⟩
  refine ⟨hg, ?_⟩
  cases r with
  | ok root => exact (hpool root rfl).body (hin.grows hg)
  | error fault =>
    intro id hid
    have hfresh := (h.tokens id (List.mem_append_left _ hid)).2
    have hlt := (h.apart.mem id (List.mem_append_left _ hid)).1
    exact hfresh.children_of_retouched (hg.retouched id hlt) (hreleased fault rfl id hid)

/-- Tokens that are leaves become an error that holds them. -/
theorem buildError_body (hap : Apart A w.store (term ++ fresh)) (hnew : A w.store.size)
    (hin : InTerms A targets w.store) (hleaf : ∀ id ∈ term, (w.store.kind id).children = [])
    (fault : Fault) : (buildError c fault term).Ensures w fun root w' =>
      Builds [] w.store w'.store ∧ InTerms (fun id => A id ∧ id ≠ root) targets w'.store ∧
      ∃ all, Body targets w'.store root all ∧ Apart A w'.store (fresh ++ all) := by
  rw [Building.Ensures, run_buildError]
  have hmem := fun id (hid : id ∈ term) => hap.mem id (List.mem_append_left _ hid)
  have hbody : Body targets (w.store.push ⟨.error fault term, w.store.rawText " " term, c.line,
      true, none⟩) w.store.size (w.store.size :: term) :=
    .error rfl (fun id hid => ⟨hleaf id hid, hin id (hmem id hid).1 (hmem id hid).2⟩)
      (fun id hid => (hmem id hid).1)
  refine ⟨.push _ _ rfl, ?_, _, hbody, ?_⟩
  · rintro id hid ⟨hA, hne⟩
    rw [Workspace.store_withStore, size_push] at hid
    have hlt := Nat.lt_of_le_of_ne (Nat.le_of_lt_succ hid) hne
    rw [Workspace.store_withStore, get_push_of_lt _ hlt]
    exact (hin id hlt hA).congr rfl fun _ _ _ => ((Later.refl [] w.store).push _).name
  · refine (hap.cons_push _ hnew).perm ?_
    exact (List.perm_append_comm.cons _).trans List.perm_middle.symm

theorem reduceOrError_body (h : Pool s₀ w.store Element.Shaped A (term ++ fresh) [])
    (hw : Settled targets c w.store) (hin : InTerms A targets w.store) :
    (reduceOrError c term).Ensures w fun root w' => Builds term w.store w'.store ∧
      InTerms (fun id => A id ∧ id ≠ root) targets w'.store ∧
      ∃ all, Body targets w'.store root all ∧ Apart A w'.store (fresh ++ all) := by
  rw [reduceOrError, Building.ensures_bind, Building.ensures_run]
  refine (reduce_body h hw hin).imp fun r w' hr => ?_
  obtain ⟨hg, hr⟩ := hr
  cases r with
  | ok root => exact ⟨.of_grows hg, fun id hid hA => hin.grows hg id hid hA.1, hr⟩
  | error fault =>
    have hap : Apart A w'.store (term ++ fresh) := h.apart.mono (fun _ h => h) hg.size_le
    refine (buildError_body hap (h.new _ hg.size_le) (hin.grows hg) hr fault).imp ?_
    rintro root w'' ⟨hb, hin', hbody⟩
    exact ⟨(Builds.of_grows hg).trans hb (by simp), hin', hbody⟩

/-! ## Functions -/

/-- Inside a function a name can also call the function itself. -/
theorem callee_open {f : OpenFunction} {s : Store} {name : String} {function : ElementId}
    (h : callee { c with function := some f } s name = .function function) :
    callee c s name = .function function ∨ function = f.id := by
  unfold callee at h ⊢
  split at h
  · rename_i hreg
    refine Or.inl ?_
    simp only [hreg]
    exact h
  · rw [calleeInside] at h
    split at h
    · cases h
    · split at h
      · cases h
        exact Or.inr rfl
      · cases h

theorem Settled.opened {s : Store} (h : Settled targets c s) (f : OpenFunction) :
    Settled (fun g => targets g ∨ g = f.id) { c with function := some f } s := by
  intro ids s' hs name function hc
  exact (callee_open hc).imp_left (h ids s' hs name function)

/-- A value of a declaration; `n` is the first element of its line. -/
inductive Value (n : Nat) (targets : ElementId → Prop) (s : Store) (fresh : List ElementId) :
    ElementId → Form → Prop
  | term {root : ElementId} {form : Form} {all : List ElementId} (hb : Body targets s root all)
      (ha : Apart (n ≤ ·) s (fresh ++ all))
      (hin : InTerms (fun id => n ≤ id ∧ id ≠ root) targets s)
      (hform : form = .plain ∨ form = .array ∧ ∃ cells, s.kind root = .array cells) :
      Value n targets s fresh root form
  | function {f body : ElementId} {parameters all : List ElementId}
      (hk : s.kind f = .function parameters (some body))
      (hp : ∀ p ∈ parameters, ∃ name, s.kind p = .name name)
      (hb : Body (fun g => targets g ∨ g = f) s body all)
      (ha : Apart (n ≤ ·) s (fresh ++ f :: (parameters ++ all)))
      (hin : InTerms (fun id => (n ≤ id ∧ id ≠ f) ∧ id ≠ body) (fun g => targets g ∨ g = f) s) :
      Value n targets s fresh f .function

/-- The store with a sign where a body opens with a binary operator. -/
def opened (s : Store) : (body : List ElementId) → Store
  | [] => s
  | first :: _ => s.modify first Element.openingSign

theorem size_opened (s : Store) (body : List ElementId) : (opened s body).size = s.size := by
  cases body with
  | nil => rfl
  | cons first rest => rw [opened, size_modify]

theorem later_opened (s : Store) (body : List ElementId) : Later body s (opened s body) := by
  cases body with
  | nil => exact .refl _ _
  | cons first rest =>
    exact (Later.refl _ _).modify fun _ => ⟨List.mem_cons_self, Element.retouched_openingSign _⟩

theorem builds_opened (s : Store) (body : List ElementId) : Builds body s (opened s body) := by
  cases body with
  | nil => exact .refl _ _
  | cons first rest =>
    exact .modify s List.mem_cons_self (Element.retouched_openingSign _).owner_eq

theorem fresh_opened {s : Store} {id : ElementId} (h : (s.get id).Fresh) (hid : id < s.size)
    (body : List ElementId) : ((opened s body).get id).Fresh := by
  cases body with
  | nil => exact h
  | cons first rest =>
    rw [opened]
    by_cases hne : first = id
    · subst hne
      rw [get_modify_self _ hid]
      unfold Element.openingSign
      split
      · rename_i hk
        have hc := h.children
        rw [hk] at hc
        split
        · exact h
        · exact ⟨hc, h.unsealed⟩
      · exact h
    · rw [get_modify_of_ne _ hne]
      exact h

/-- The elements from which a body is read, next to its function. -/
theorem pool_opened {s : Store} {n : Nat} {body rest : List ElementId}
    (h : Pool s s Element.Shaped (n ≤ ·) (body ++ rest) []) (node : Element) :
    Pool (opened (s.push node) body) (opened (s.push node) body) Element.Shaped
      (fun id => n ≤ id ∧ id ≠ s.size) (body ++ rest) [] := by
  have hsize : (opened (s.push node) body).size = s.size + 1 := by rw [size_opened, size_push]
  refine .of_fresh (fun id hid => ?_) h.apart.nodup (fun id hid => ?_)
  · obtain ⟨hlt, hn⟩ := h.apart.mem id hid
    refine ⟨fresh_opened ?_ (by rw [size_push]; exact Nat.lt_succ_of_lt hlt) body,
      by rw [hsize]; exact Nat.lt_succ_of_lt hlt, hn, Nat.ne_of_lt hlt⟩
    rw [get_push_of_lt _ hlt]
    exact (h.tokens id hid).2
  · rw [hsize] at hid
    exact ⟨h.new id (Nat.le_of_succ_le hid), Nat.ne_of_gt hid⟩

/-- In the body a function may be called that is still being read. -/
theorem inTerms_opened {s : Store} {n : Nat} (h : InTerms (n ≤ ·) targets s) (node : Element)
    (body : List ElementId) :
    InTerms (fun id => n ≤ id ∧ id ≠ s.size) (fun g => targets g ∨ g = s.size)
      (opened (s.push node) body) := by
  have hlater : Later body s (opened (s.push node) body) :=
    ((Later.refl body s).push node).trans (later_opened _ body) (List.Subset.refl _)
  rintro id hid ⟨hn, hne⟩
  rw [size_opened, size_push] at hid
  have hlt := Nat.lt_of_le_of_ne (Nat.le_of_lt_succ hid) hne
  have hname := (h id hlt hn).congr rfl fun _ _ _ => hlater.name
  exact ((hlater.retouched id hlt).inTerm hname).mono fun _ => Or.inl

/-- The node of a function whose body is not read yet. -/
def functionNode (c : Context) (s : Store) (inner : List ElementId) : Element where
  kind := .function (inner.filter fun id => (s.kind id).name?.isSome) none
  raw := "@(" ++ ",".intercalate (inner.filterMap fun id => (s.kind id).name?) ++ ")"
  line := c.line

/-- A function with its body. -/
def withBody (body : ElementId) (e : Element) : Element :=
  match e.kind with
  | .function parameters _ => { e with kind := .function parameters (some body), sealed := true }
  | _ => { e with sealed := true }

theorem owner_withBody (body : ElementId) (e : Element) : (withBody body e).owner = e.owner := by
  unfold withBody
  split <;> rfl

/-- A function is a node whose body is read in its place. -/
theorem ensures_buildFunctionBody {name : String} {inner body : List ElementId}
    {Q : ElementId → Workspace → Prop}
    (h : (reduceOrError { c with function := some ⟨name, w.store.size,
        inner.filterMap fun id => (w.store.kind id).name?⟩ } body).Ensures
      (w.withStore (opened (w.store.push (functionNode c w.store inner)) body))
      fun root w' => Q w.store.size (w'.withStore (w'.store.modify w.store.size (withBody root)))) :
    (buildFunctionBody c name inner body).Ensures w Q := by
  cases body with
  | nil => exact h
  | cons first rest => exact h

/-- A function that is given its body is a value. -/
theorem value_withBody {n : Nat} {f root : ElementId} {parameters all : List ElementId} {s : Store}
    (hf : f < s.size) (hn : n ≤ f) (hk : s.kind f = .function parameters none)
    (hp : ∀ p ∈ parameters, ∃ name, s.kind p = .name name)
    (hb : Body (fun g => targets g ∨ g = f) s root all)
    (ha : Apart (fun id => n ≤ id ∧ id ≠ f) s (parameters ++ fresh ++ all))
    (hin : InTerms (fun id => (n ≤ id ∧ id ≠ f) ∧ id ≠ root) (fun g => targets g ∨ g = f) s) :
    Value n targets (s.modify f (withBody root)) fresh f .function := by
  have hother : ∀ id, id ≠ f → (s.modify f (withBody root)).get id = s.get id :=
    fun id hne => get_modify_of_ne _ (Ne.symm hne)
  have hne : ∀ id ∈ parameters ++ fresh ++ all, id ≠ f := fun id hid => (ha.mem id hid).2.2
  have hkind : (s.modify f (withBody root)).kind f = .function parameters (some root) := by
    rw [kind] at hk
    rw [kind, get_modify_self _ hf, withBody, hk]
  refine .function hkind (fun p hm => ?_) (hb.congr fun id hid => ?_) ⟨?_, fun id hid => ?_⟩ ?_
  · rw [kind, hother p (hne p (by simp [hm]))]
    exact hp p hm
  · rw [kind, hother id (hne id (by simp [hid]))]
    exact ⟨rfl, rfl⟩
  · have hperm : (f :: (parameters ++ fresh ++ all)).Perm (fresh ++ f :: (parameters ++ all)) := by
      refine List.Perm.trans (.cons f ?_) List.perm_middle.symm
      rw [← List.append_assoc]
      exact List.perm_append_comm.append_right all
    exact hperm.nodup_iff.1 (List.nodup_cons.2 ⟨fun hm => hne f hm rfl, ha.nodup⟩)
  · rw [size_modify]
    by_cases he : id = f
    · rw [he]
      exact ⟨hf, hn⟩
    · obtain ⟨hlt, hn', -⟩ := ha.mem id (by simp at hid ⊢; grind)
      exact ⟨hlt, hn'⟩
  · rintro id hid ⟨⟨hn', he⟩, hroot⟩
    rw [hother id he]
    refine (hin id (by rwa [size_modify] at hid) ⟨⟨hn', he⟩, hroot⟩).congr rfl
      fun child _ name hname => ?_
    rw [kind, hother child fun hc => ?_]
    · exact hname
    · rw [hc, hk] at hname
      cases hname

theorem buildFunctionBody_value {n : Nat} {inner body : List ElementId}
    (h : Pool w.store w.store Element.Shaped (n ≤ ·) (body ++ (inner ++ fresh)) [])
    (hw : Settled targets c w.store) (hin : InTerms (n ≤ ·) targets w.store) (name : String) :
    (buildFunctionBody c name inner body).Ensures w fun f w' =>
      Builds body w.store w'.store ∧ Value n targets w'.store fresh f .function := by
  have hap := h.apart
  have hbelow : ∀ id ∈ body ++ (inner ++ fresh), id ≠ w.store.size :=
    fun id hid => Nat.ne_of_lt (hap.mem id hid).1
  -- The store in which the body is read.
  generalize hnode : functionNode c w.store inner = node
  generalize hs₃ : opened (w.store.push node) body = s₃
  generalize hps : inner.filter (fun id => (w.store.kind id).name?.isSome) = parameters
  have hopened : Later body (w.store.push node) s₃ := hs₃ ▸ later_opened _ body
  have hlater : Later body w.store s₃ :=
    ((Later.refl body w.store).push node).trans hopened (List.Subset.refl _)
  have hsize : s₃.size = w.store.size + 1 := by rw [← hs₃, size_opened, size_push]
  have hsub : (body ++ (parameters ++ fresh)).Sublist (body ++ (inner ++ fresh)) :=
    (List.Sublist.refl _).append ((hps ▸ List.filter_sublist).append (List.Sublist.refl _))
  have hpool : Pool s₃ s₃ Element.Shaped (fun id => n ≤ id ∧ id ≠ w.store.size)
      (body ++ (parameters ++ fresh)) [] :=
    hs₃ ▸ pool_opened (h.sub hsub.subperm (List.Subperm.refl _)) node
  have hin₃ : InTerms (fun id => n ≤ id ∧ id ≠ w.store.size)
      (fun g => targets g ∨ g = w.store.size) s₃ := hs₃ ▸ inTerms_opened hin node body
  refine ensures_buildFunctionBody ?_
  rw [hnode, hs₃]
  refine (reduceOrError_body hpool ((hw.later hlater).opened ⟨name, w.store.size, _⟩) hin₃).imp ?_
  rintro root w' ⟨hbuilds, hin', all, hbody, hapart⟩
  rw [Workspace.store_withStore] at hbuilds
  have hf : w.store.size < s₃.size := hsize ▸ Nat.lt_succ_self _
  have hnf : n ≤ w.store.size := h.new _ (Nat.le_refl _)
  have hnotBody : w.store.size ∉ body := fun hm => hbelow _ (List.mem_append_left _ hm) rfl
  have hkind : w'.store.kind w.store.size = .function parameters none := by
    rw [kind, hbuilds.kept _ hf hnotBody, hopened.kept _ (by simp) hnotBody, get_push_size,
      ← hnode, ← hps]
    rfl
  have hparameters : ∀ p ∈ parameters, ∃ name, w'.store.kind p = .name name := by
    intro p hp
    have hlt := (hap.mem p (hsub.subset (by simp [hp]))).1
    have hnot : p ∉ body := fun hm =>
      (List.nodup_append.1 (hsub.nodup hap.nodup)).2.2 p hm p (by simp [hp]) rfl
    rw [kind, hbuilds.kept p (Nat.lt_of_lt_of_le hlt hlater.size_le) hnot, hlater.kept p hlt hnot]
    rw [← hps] at hp
    have hname := (List.mem_filter.1 hp).2
    rw [kind] at hname
    cases hk : (w.store.get p).kind with
    | name name => exact ⟨name, rfl⟩
    | _ => rw [hk] at hname; cases hname
  refine ⟨?_, value_withBody (Nat.lt_of_lt_of_le hf hbuilds.size_le) hnf hkind hparameters hbody
    hapart hin'⟩
  have hpush : Builds body w.store s₃ :=
    (Builds.push body w.store (hnode ▸ rfl)).trans (hs₃ ▸ builds_opened _ body) fun _ hm _ => hm
  have hgiven : Builds [w.store.size] w'.store (w'.store.modify w.store.size (withBody root)) :=
    .modify w'.store List.mem_cons_self (owner_withBody _ _)
  refine (hpush.trans hbuilds fun _ hm _ => hm).trans hgiven fun id hm hlt => ?_
  exact absurd (List.mem_singleton.1 hm) (Nat.ne_of_lt hlt)

theorem buildFunction_value {n : Nat} {elements : List ElementId}
    (h : Pool w.store w.store Element.Shaped (n ≤ ·) (elements ++ fresh) [])
    (hw : Settled targets c w.store) (hin : InTerms (n ≤ ·) targets w.store) (name : String) :
    (buildFunction c name elements).Ensures w fun r w' =>
      match r with
      | .ok f => Builds elements w.store w'.store ∧ Value n targets w'.store fresh f .function
      | .error _ => w' = w := by
  rw [buildFunction, Reducing.ensures_store_bind]
  cases elements with
  | nil => exact rfl
  | cons first rest =>
    dsimp only
    split
    · split
      · exact rfl
      · rename_i inner body hs
        obtain ⟨close, rfl, -⟩ := eq_append_of_splitClosing? hs
        have hsub :
            (body ++ (inner ++ fresh)).Subperm (first :: (inner ++ close :: body) ++ fresh) :=
          List.subperm_ext_iff.2 fun x _ => by
            simp only [List.cons_append, List.count_append, List.count_cons]
            omega
        obtain ⟨hb, hv⟩ := buildFunctionBody_value (h.sub hsub (List.Subperm.refl _)) hw hin name
        rw [Reducing.ensures_lift]
        exact ⟨(Builds.refl _ _).trans hb fun id hm _ => by simp [hm], hv⟩
    · exact rfl

/-! ## Right-hand sides -/

theorem buildArray_kind (inner : List ElementId) (w : Workspace) :
    (buildArray c inner).Returns w fun id w' => ∃ cells, w'.store.kind id = .array cells := by
  rw [buildArray_eq, Reducing.returns_store_bind]
  refine Reducing.returns_bind (P := fun _ _ => True) (fun _ _ => trivial) fun cells w' _ => ?_
  simp only [Reducing.returns_lift_bind, Reducing.returns_lift, run_store, run_buildNode,
    Workspace.store_withStore]
  exact ⟨cells, by rw [kind, get_push_size]⟩

theorem eq_of_wholeArray? {s : Store} {rhs inner : List ElementId}
    (h : wholeArray? s rhs = some inner) : ∃ first close, rhs = first :: (inner ++ [close]) := by
  cases rhs with
  | nil => cases h
  | cons first rest =>
    rw [wholeArray?] at h
    split at h
    · split at h
      · rename_i hs
        cases h
        obtain ⟨close, rfl, -⟩ := eq_append_of_splitClosing? hs
        exact ⟨first, close, rfl⟩
      · cases h
    · cases h

/-- What is read is a value; a fault leaves at most operators retouched. -/
theorem readValue_value {n : Nat} {rhs : List ElementId}
    (h : Pool w.store w.store Element.Shaped (n ≤ ·) (rhs ++ fresh) [])
    (hw : Settled targets c w.store) (hin : InTerms (n ≤ ·) targets w.store) (name : String) :
    (readValue c name rhs).Ensures w fun r w' =>
      match r with
      | .ok (content, form) =>
        Builds rhs w.store w'.store ∧ Value n targets w'.store fresh content form
      | .error _ => Grows targets rhs w.store w'.store := by
  rw [readValue, Reducing.ensures_store_bind]
  cases rhs with
  | nil => exact Grows.refl ..
  | cons first rest =>
    dsimp only
    split
    · have hrest := h.sub (List.sublist_cons_self first (rest ++ fresh)).subperm
        (List.Subperm.refl _)
      refine Reducing.ensures_bind (buildFunction_value hrest hw hin name) ?_ ?_
      · rintro f w' ⟨hb, hv⟩
        exact ⟨(Builds.refl _ _).trans hb fun id hm _ => List.mem_cons_of_mem _ hm, hv⟩
      · rintro fault w' hw'
        rw [hw']
        exact Grows.refl ..
    · split
      · rename_i inner hwhole
        obtain ⟨first', close, he⟩ := eq_of_wholeArray? hwhole
        have hmem : inner ⊆ first :: rest := fun id hid => by rw [he]; simp [hid]
        have hsub : (inner ++ fresh).Subperm (first :: rest ++ fresh) := by
          rw [he]
          refine List.subperm_ext_iff.2 fun x _ => ?_
          simp only [List.cons_append, List.count_append, List.count_cons]
          omega
        have hpool : Pool w.store w.store Element.Complete (n ≤ ·) (inner ++ fresh) [] :=
          (h.sub hsub (List.Subperm.refl _)).of_no_roots
        have hgrows : (buildArray c inner).Ensures w fun _ w' =>
            Grows targets (first :: rest) w.store w'.store :=
          (buildArray_steps c inner w).imp fun _ _ h => (h.1.mono hmem).grows hw
        refine Reducing.ensures_bind ((hgrows.and
          (buildArray_pool (fun _ h => h) inner hpool)).and (buildArray_kind inner w)) ?_ ?_
        · rintro root w' ⟨⟨hg, hp⟩, hk⟩
          obtain ⟨all, hb, ha⟩ := (hp root rfl).body (hin.grows hg)
          exact ⟨.of_grows hg, .term hb ha (fun id hid hA => hin.grows hg id hid hA.1)
            (Or.inr ⟨rfl, hk root rfl⟩)⟩
        · exact fun fault w' h => h.1.1
      · refine Reducing.ensures_bind (reduce_body h hw hin) ?_ ?_
        · rintro root w' ⟨hg, all, hb, ha⟩
          exact ⟨.of_grows hg, .term hb ha (fun id hid hA => hin.grows hg id hid hA.1)
            (Or.inl rfl)⟩
        · exact fun fault w' h => h.1

/-- **The value of a declaration**: whatever the right-hand side is, it is read
    as a value, and apart from its tokens nothing changes. -/
theorem declarationValue_value {n : Nat} {rhs : List ElementId}
    (h : Pool w.store w.store Element.Shaped (n ≤ ·) (rhs ++ fresh) [])
    (hw : Settled targets c w.store) (hin : InTerms (n ≤ ·) targets w.store) (name : String) :
    (declarationValue c name rhs).Ensures w fun r w' =>
      Builds rhs w.store w'.store ∧ Value n targets w'.store fresh r.1 r.2 := by
  rw [declarationValue, Building.ensures_bind, Building.ensures_run]
  refine (readValue_value h hw hin name).imp fun r w' hr => ?_
  cases r with
  | ok value => exact hr
  | error fault =>
    have hg : Grows targets rhs w.store (w'.store.release rhs) := hr.release (List.Subset.refl _)
    have hleaf : ∀ id ∈ rhs, ((w'.store.release rhs).kind id).children = [] := fun id hid =>
      (h.tokens id (List.mem_append_left _ hid)).2.children_of_retouched
        (hg.retouched id (h.apart.mem id (List.mem_append_left _ hid)).1)
        (get_release (Or.inl hid))
    have hap : Apart (n ≤ ·) (w'.store.release rhs) (rhs ++ fresh) :=
      h.apart.mono (fun _ h => h) hg.size_le
    dsimp only
    rw [Building.ensures_bind, Building.Ensures, run_release, Building.ensures_bind]
    refine (buildError_body (w := w'.withStore (w'.store.release rhs)) hap (h.new _ hg.size_le)
      (hin.grows hg) hleaf fault).imp ?_
    rintro root w'' ⟨hb, hin', all, hbody, hapart⟩
    exact ⟨(Builds.of_grows hg).trans hb (by simp), .term hbody hapart hin' (Or.inl rfl)⟩

end Term

end FormulaSheet
