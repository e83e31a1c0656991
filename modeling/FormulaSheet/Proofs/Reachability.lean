/-
  Which elements get an owner, on any graph.

  Elements may share children and hang below each other in cycles; the walk that
  writes the owners marks its way by the very links it writes.

  * `claimTurn`: one turn of the walk, which takes the first pending element and puts
    what it claims before the others.  Every claimed element is pending once, so
    the walk ends (`exists_iterate_claimTurn`).
  * `Reached s root id`: a path of children leads from the root to `id`, and no
    element in between is the root or has an owner.
  * `Leads s s' root id path`: following the owners from `id` gives `path`, which ends
    at the root and repeats nothing.
  * `Walk s root pending s'`: the invariant of the walk.  Claiming one child keeps it
    (`Walk.setOwner`), so a turn does (`Walk.claimTurn`) and the whole walk
    (`walk_setOwners`).
  * `setOwners_owned`: what the walk has done in the end.
-/
import FormulaSheet.Proofs.Owners
import Mathlib.Logic.Function.Iterate

namespace FormulaSheet.Store

/-! ## Turns -/

/-- One turn of the walk: the pending elements, and the store. -/
def claimTurn (root : ElementId) : List ElementId × Store → List ElementId × Store
  | ([], s) => ([], s)
  | (parent :: rest, s) =>
    ((claim root parent (s.kind parent).children s).2.reverse ++ rest,
      (claim root parent (s.kind parent).children s).1)

/-- **The walk ends**: every turn takes an element off the pending ones, and only
    elements without owner are added. -/
theorem exists_iterate_claimTurn (root : ElementId) (pending : List ElementId) (s : Store) :
    ∃ turns ≤ pending.length + s.unowned,
      (claimTurn root)^[turns] (pending, s) = ([], claimAll root pending s) := by
  fun_induction claimAll root pending s with
  | case1 s => exact ⟨0, Nat.zero_le _, rfl⟩
  | case2 s parent rest claimed ih =>
    obtain ⟨turns, hle, hturns⟩ := ih
    have hcount : claimed.1.unowned + claimed.2.length = s.unowned := unowned_claim ..
    refine ⟨turns + 1, ?_, hturns⟩
    rw [List.length_append, List.length_reverse] at hle
    rw [List.length_cons]
    omega

/-! ## Paths -/

/-- The element had no owner and has one now. -/
def NewlyOwned (s s' : Store) (id : ElementId) : Prop :=
  (s.get id).owner = none ∧ (s'.get id).owner ≠ none

/-- A path of children leads from the root to the element; no element in between is
    the root or has an owner. -/
inductive Reached (s : Store) (root : ElementId) : ElementId → Prop
  | child {id : ElementId} (h : id ∈ (s.kind root).children) : Reached s root id
  | step {parent id : ElementId} (hp : Reached s root parent) (hne : parent ≠ root)
      (hfree : (s.get parent).owner = none) (h : id ∈ (s.kind parent).children) :
      Reached s root id

/-- Following the owners in `s'` from an element leads through newly owned elements to
    the root; the path from the element to the root holds nothing twice. -/
inductive Leads (s s' : Store) (root : ElementId) : ElementId → List ElementId → Prop
  | root : Leads s s' root root [root]
  | step {id owner : ElementId} {path : List ElementId} (hnew : NewlyOwned s s' id)
      (ho : (s'.get id).owner = some owner) (h : Leads s s' root owner path) (hnot : id ∉ path) :
      Leads s s' root id (id :: path)

variable {s t t' : Store} {root : ElementId} {S : ElementId → Prop}

theorem NewlyOwned.mono {id : ElementId} (h : NewlyOwned s t id) (ht : Claimed root S t t') :
    NewlyOwned s t' id :=
  ⟨h.1, by rw [ht.get_of_owner h.2]; exact h.2⟩

/-- Owners that are written later change no path. -/
theorem Leads.mono {id : ElementId} {path : List ElementId} (h : Leads s t root id path)
    (ht : Claimed root S t t') : Leads s t' root id path := by
  induction h with
  | root => exact .root
  | step hnew ho h hnot ih =>
    refine .step (hnew.mono ht) ?_ ih hnot
    rw [ht.get_of_owner hnew.2, ho]

theorem Leads.mem {id x : ElementId} {path : List ElementId} (h : Leads s t root id path)
    (hx : x ∈ path) : x = root ∨ NewlyOwned s t x := by
  induction h with
  | root => exact Or.inl (List.mem_singleton.1 hx)
  | step hnew ho h hnot ih =>
    rcases List.mem_cons.1 hx with rfl | hx
    · exact Or.inr hnew
    · exact ih hx

theorem Claimed.mem_children {id owner : ElementId} (h : Claimed root S s t)
    (hnew : NewlyOwned s t id) (ho : (t.get id).owner = some owner) :
    id ∈ (s.kind owner).children := by
  rcases h.get id with he | ⟨-, -, -, parent, -, hc, he⟩
  · rw [he, hnew.1] at ho
    cases ho
  · rw [he] at ho
    cases ho
    exact hc

theorem Leads.reached {id : ElementId} {path : List ElementId} (h : Leads s t root id path)
    (hc : Claimed root S s t) : id = root ∨ Reached s root id := by
  induction h with
  | root => exact Or.inl rfl
  | @step id owner path hnew ho h hnot ih =>
    have hchild := hc.mem_children hnew ho
    by_cases hroot : owner = root
    · exact Or.inr (.child (hroot ▸ hchild))
    · cases h with
      | root => exact absurd rfl hroot
      | step hnew' => exact Or.inr (.step (ih.resolve_left hroot) hroot hnew'.1 hchild)

/-! ## The walk -/

/-- The children of the element are the root or have an owner. -/
def Exhausted (s t : Store) (root parent : ElementId) : Prop :=
  ∀ child ∈ (s.kind parent).children, child = root ∨ (t.get child).owner ≠ none

theorem Exhausted.mono {parent : ElementId} (h : Exhausted s t root parent)
    (ht : Claimed root S t t') : Exhausted s t' root parent := fun child hc =>
  (h child hc).imp_right fun ho => by rwa [ht.get_of_owner ho]

/-- What holds of a store `t` that the walk has come to from `s`. -/
structure Walk (s : Store) (root : ElementId) (pending : List ElementId) (t : Store) : Prop where
  claimed : Claimed root (fun _ => True) s t
  leads : ∀ id, id = root ∨ NewlyOwned s t id → ∃ path, Leads s t root id path
  of_pending : ∀ p ∈ pending, p = root ∨ NewlyOwned s t p
  exhausted : ∀ p, p = root ∨ NewlyOwned s t p → p ∉ pending → Exhausted s t root p

theorem walk_start (s : Store) (root : ElementId) : Walk s root [root] s where
  claimed := .refl _ _ _
  leads id hid := by
    rcases hid with rfl | ⟨hnone, hsome⟩
    · exact ⟨_, .root⟩
    · exact absurd hnone hsome
  of_pending p hp := Or.inl (List.mem_singleton.1 hp)
  exhausted p hp hnot := by
    rcases hp with rfl | ⟨hnone, hsome⟩
    · exact absurd List.mem_cons_self hnot
    · exact absurd hnone hsome

/-- A child that is claimed becomes pending.  It cannot be on the path of its owner,
    which holds only the root and elements with an owner. -/
theorem Walk.setOwner {pending : List ElementId} {child parent : ElementId}
    (h : Walk s root pending t) (hfree : t.isFree root child = true)
    (hp : parent = root ∨ NewlyOwned s t parent) (hc : child ∈ (s.kind parent).children) :
    Walk s root (child :: pending) (t.setOwner child parent) := by
  have hstep : Claimed root (fun _ => True) t (t.setOwner child parent) :=
    Claimed.setOwner hfree trivial trivial (by rwa [h.claimed.kind_eq])
  simp only [isFree, Bool.and_eq_true, decide_eq_true_eq, bne_iff_ne, ne_eq,
    Option.isNone_iff_eq_none] at hfree
  obtain ⟨⟨hne, hlt⟩, hnone⟩ := hfree
  have hold : (s.get child).owner = none := by
    rcases h.claimed.get child with he | ⟨-, -, ho, -⟩
    · rw [← he, hnone]
    · exact ho
  have howner : ((t.setOwner child parent).get child).owner = some parent := by
    rw [Store.setOwner, get_modify_self _ hlt]
  have hnew : NewlyOwned s (t.setOwner child parent) child := ⟨hold, by rw [howner]; simp⟩
  have hother : ∀ id, id ≠ child → NewlyOwned s (t.setOwner child parent) id →
      NewlyOwned s t id := by
    intro id hid ho
    have hget : (t.setOwner child parent).get id = t.get id := get_modify_of_ne _ (Ne.symm hid)
    exact ⟨ho.1, by rw [← hget]; exact ho.2⟩
  refine ⟨h.claimed.trans hstep, fun id hid => ?_, fun p hm => ?_, fun p hm hnot => ?_⟩
  · by_cases he : id = child
    · subst he
      obtain ⟨path, hpath⟩ := h.leads parent hp
      refine ⟨id :: path, .step hnew howner (hpath.mono hstep) fun hm => ?_⟩
      rcases hpath.mem hm with hroot | hnew
      · exact hne hroot
      · exact hnew.2 hnone
    · obtain ⟨path, hpath⟩ := h.leads id (hid.imp_right (hother id he))
      exact ⟨path, hpath.mono hstep⟩
  · rcases List.mem_cons.1 hm with rfl | hm
    · exact Or.inr hnew
    · exact (h.of_pending p hm).imp_right fun ho => ho.mono hstep
  · obtain ⟨hchild, hpending⟩ := not_or.1 (mt List.mem_cons.2 hnot)
    exact (h.exhausted p (hm.imp_right (hother p hchild)) hpending).mono hstep

/-- The children of one element are claimed in order. -/
theorem Walk.claim {pending children : List ElementId} {parent : ElementId}
    (h : Walk s root pending t) (hp : parent = root ∨ NewlyOwned s t parent)
    (hc : ∀ child ∈ children, child ∈ (s.kind parent).children) :
    Walk s root ((Store.claim root parent children t).2.reverse ++ pending)
      (Store.claim root parent children t).1 := by
  induction children generalizing t pending with
  | nil => exact h
  | cons child children ih =>
    obtain ⟨hchild, hchildren⟩ := List.forall_mem_cons.1 hc
    rw [Store.claim]
    split
    · rename_i hfree
      have hstep := h.setOwner hfree hp hchild
      have hp' : parent = root ∨ NewlyOwned s (t.setOwner child parent) parent :=
        hp.imp_right fun ho => ho.mono (Claimed.setOwner (S := fun _ => True) hfree trivial trivial
          (by rwa [h.claimed.kind_eq]))
      rw [List.reverse_cons, List.append_assoc]
      exact ih hstep hp' hchildren
    · exact ih h hp hchildren

section

variable (hrange : ∀ id < s.size, ∀ child ∈ (s.kind id).children, child < s.size)
include hrange

theorem lt_size_of_mem_children {id child : ElementId} (h : child ∈ (s.kind id).children) :
    child < s.size := by
  refine hrange id (lt_size_of_kind fun hk => ?_) child h
  rw [hk] at h
  cases h

/-- After its turn all children of an element are the root or have an owner. -/
theorem Walk.exhausted_claim {pending : List ElementId} {parent : ElementId}
    (h : Walk s root pending t) :
    Exhausted s (Store.claim root parent (t.kind parent).children t).1 root parent := by
  intro child hc
  rw [← h.claimed.kind_eq] at hc
  have hmem : ∀ c ∈ (t.kind parent).children, True ∧ c ∈ (t.kind parent).children :=
    fun c hc => ⟨trivial, hc⟩
  by_cases hroot : child = root
  · exact Or.inl hroot
  · refine Or.inr ?_
    by_cases ho : (t.get child).owner = none
    · have hlt : child < t.size := by
        rw [h.claimed.size_eq]
        rw [h.claimed.kind_eq] at hc
        exact lt_size_of_mem_children hrange hc
      have hfree : t.isFree root child = true := by simp [isFree, hroot, hlt, ho]
      rw [owner_claim (S := fun _ => True) root trivial hmem hc hfree]
      simp
    · rw [(claim_claimed (S := fun _ => True) root trivial hmem).1.get_of_owner ho]
      exact ho

/-- **A turn keeps the invariant.** -/
theorem Walk.claimTurn {parent : ElementId} {rest : List ElementId}
    (h : Walk s root (parent :: rest) t) :
    Walk s root ((Store.claim root parent (t.kind parent).children t).2.reverse ++ rest)
      (Store.claim root parent (t.kind parent).children t).1 := by
  have hclaim : Walk s root ((Store.claim root parent (t.kind parent).children t).2.reverse ++
      parent :: rest) (Store.claim root parent (t.kind parent).children t).1 :=
    h.claim (h.of_pending parent List.mem_cons_self) fun child hc => by rwa [← h.claimed.kind_eq]
  refine ⟨hclaim.claimed, hclaim.leads, fun p hp => hclaim.of_pending p ?_, fun p hp hnot => ?_⟩
  · rw [List.mem_append] at hp ⊢
    exact hp.imp_right (List.mem_cons_of_mem parent)
  · by_cases he : p = parent
    · subst he
      exact h.exhausted_claim hrange
    · refine hclaim.exhausted p hp fun hm => hnot ?_
      rw [List.mem_append] at hm ⊢
      exact hm.imp_right fun hm => (List.mem_cons.1 hm).resolve_left he

theorem Walk.claimAll {pending : List ElementId} (h : Walk s root pending t) :
    Walk s root [] (Store.claimAll root pending t) := by
  fun_induction Store.claimAll root pending t with
  | case1 t => exact h
  | case2 t parent rest claimed ih => exact ih (h.claimTurn hrange)

/-- **The walk keeps its invariant to its end.** -/
theorem walk_setOwners (root : ElementId) : Walk s root [] (s.setOwners root) :=
  (walk_start s root).claimAll hrange

end

theorem Walk.owner_of_reached (h : Walk s root [] t) {id : ElementId} (hid : Reached s root id) :
    id = root ∨ (t.get id).owner ≠ none := by
  induction hid with
  | child hc => exact h.exhausted root (Or.inl rfl) List.not_mem_nil _ hc
  | step hp hne hfree hc ih =>
    exact h.exhausted _ (Or.inr ⟨hfree, ih.resolve_left hne⟩) List.not_mem_nil _ hc

theorem Walk.newlyOwned_iff (h : Walk s root [] t) {id : ElementId} :
    NewlyOwned s t id ↔ id ≠ root ∧ (s.get id).owner = none ∧ Reached s root id := by
  constructor
  · intro hnew
    have hne : id ≠ root := by
      rintro rfl
      refine hnew.2 ?_
      rw [h.claimed.get_root]
      exact hnew.1
    obtain ⟨path, hpath⟩ := h.leads id (Or.inr hnew)
    exact ⟨hne, hnew.1, (hpath.reached h.claimed).resolve_left hne⟩
  · rintro ⟨hne, hfree, hreached⟩
    exact ⟨hfree, (h.owner_of_reached hreached).resolve_left hne⟩

theorem claim_of_exhausted {parent : ElementId} {children : List ElementId}
    (h : ∀ child ∈ children, child = root ∨ (t.get child).owner ≠ none) :
    claim root parent children t = (t, []) := by
  induction children with
  | nil => rfl
  | cons child children ih =>
    obtain ⟨hchild, hchildren⟩ := List.forall_mem_cons.1 h
    have hfree : t.isFree root child = false := by
      rcases hchild with rfl | ho
      · simp [isFree]
      · simp [isFree, Option.isNone_eq_false_iff, Option.isSome_iff_ne_none.2 ho]
    rw [claim, hfree]
    exact ih hchildren

/-- A second walk finds nothing to claim. -/
theorem Walk.setOwners_eq (h : Walk s root [] t) : t.setOwners root = t := by
  have hroot : ∀ child ∈ (t.kind root).children, child = root ∨ (t.get child).owner ≠ none := by
    rw [h.claimed.kind_eq]
    exact h.exhausted root (Or.inl rfl) List.not_mem_nil
  rw [setOwners, Store.claimAll, claim_of_exhausted hroot, List.reverse_nil, List.nil_append,
    Store.claimAll]

/-! ## Owners on any graph -/

/-- The store `s'` is `s` with an owner for all that is reached from the root. -/
structure Owned (s : Store) (root : ElementId) (s' : Store) : Prop where
  size : s'.size = s.size
  /-- Only owners are written, only where there was none, and only parents. -/
  get : ∀ id, s'.get id = s.get id ∨ (s.get id).owner = none ∧
    ∃ parent, id ∈ (s.kind parent).children ∧ s'.get id = { s.get id with owner := some parent }
  root_owner : (s'.get root).owner = (s.get root).owner
  newlyOwned_iff : ∀ id, NewlyOwned s s' id ↔
    id ≠ root ∧ (s.get id).owner = none ∧ Reached s root id
  leads : ∀ id, NewlyOwned s s' id → ∃ path, Leads s s' root id path

/-- **Owners on any graph.**  Whatever is shared or cyclic below the root, the walk ends,
    gives an owner to exactly the elements that are reached, and leaves nothing for a
    second walk. -/
theorem setOwners_owned (s : Store) (root : ElementId)
    (hrange : ∀ id < s.size, ∀ child ∈ (s.kind id).children, child < s.size) :
    (∃ turns ≤ s.unowned + 1,
      (claimTurn root)^[turns] ([root], s) = ([], s.setOwners root)) ∧
    Owned s root (s.setOwners root) ∧
    (s.setOwners root).setOwners root = s.setOwners root := by
  have hwalk := walk_setOwners hrange root
  refine ⟨?_, ⟨hwalk.claimed.size_eq, fun id => ?_, by rw [hwalk.claimed.get_root],
    fun id => hwalk.newlyOwned_iff, fun id hnew => hwalk.leads id (Or.inr hnew)⟩,
    hwalk.setOwners_eq⟩
  · obtain ⟨turns, hle, hturns⟩ := exists_iterate_claimTurn root [root] s
    exact ⟨turns, by rwa [List.length_singleton, Nat.add_comm] at hle, hturns⟩
  · rcases hwalk.claimed.get id with he | ⟨-, -, ho, parent, -, hc, he⟩
    · exact Or.inl he
    · exact Or.inr ⟨ho, parent, hc, he⟩

/-- A root among its own children, two elements below each other and both below the root,
    and one that has an owner already and hides its child. -/
theorem setOwners_owned_cyclic :
    let s : Store := ⟨#[⟨.error .emptyTerm [1, 2, 0], "", 1, true, none⟩,
      ⟨.error .emptyTerm [2, 1], "", 1, true, none⟩,
      ⟨.error .emptyTerm [1, 3, 4], "", 1, true, none⟩,
      ⟨.error .emptyTerm [5], "", 1, true, some 2⟩, ⟨.value "4", "4", 1, false, none⟩,
      ⟨.value "5", "5", 1, false, none⟩]⟩
    (∀ id < s.size, ∀ child ∈ (s.kind id).children, child < s.size) ∧
      ((List.range 6).map fun id => ((s.setOwners 0).get id).owner) =
        [none, some 0, some 0, some 2, some 2, none] ∧
      (∃ turns ≤ s.unowned + 1, (claimTurn 0)^[turns] ([0], s) = ([], s.setOwners 0)) ∧
      Owned s 0 (s.setOwners 0) ∧ (s.setOwners 0).setOwners 0 = s.setOwners 0 := by
  intro s
  have hrange : ∀ id < s.size, ∀ child ∈ (s.kind id).children, child < s.size := by
    decide +kernel
  exact ⟨hrange, by decide +kernel, setOwners_owned s 0 hrange⟩

end FormulaSheet.Store
