/-
  Owner links: what writing them changes.

  * `Claimed root S s s'`: `s'` is `s` with a first owner for some elements of
    `S` other than `root`, each owned by an element of `S` that it is a child of.
  * `setOwners_claimed`: writing the owners below a root does no more than that
    if `S` holds of the root and is closed under children.
  * `owner_setOwners`: the free children of the root get it as their owner.
-/
import FormulaSheet.Store.Ownership

namespace FormulaSheet.Store

/-- First owners have been written for some elements of `S` other than
    `root`. -/
structure Claimed (root : ElementId) (S : ElementId → Prop) (s s' : Store) : Prop where
  size_eq : s'.size = s.size
  get : ∀ id, s'.get id = s.get id ∨
    (S id ∧ id ≠ root ∧ (s.get id).owner = none ∧
      ∃ parent, S parent ∧ id ∈ (s.kind parent).children ∧
        s'.get id = { s.get id with owner := some parent })

namespace Claimed

variable {root : ElementId} {S : ElementId → Prop} {s s' s'' : Store}

theorem refl (root : ElementId) (S : ElementId → Prop) (s : Store) : Claimed root S s s :=
  ⟨rfl, fun _ => Or.inl rfl⟩

theorem kind_eq (h : Claimed root S s s') (id : ElementId) : s'.kind id = s.kind id := by
  rw [kind, kind]
  rcases h.get id with he | ⟨-, -, -, parent, -, -, he⟩
  · rw [he]
  · rw [he]

/-- All but the owner is as before. -/
theorem sealed_eq (h : Claimed root S s s') (id : ElementId) :
    (s'.get id).sealed = (s.get id).sealed := by
  rcases h.get id with he | ⟨-, -, -, parent, -, -, he⟩
  · rw [he]
  · rw [he]

theorem raw_eq (h : Claimed root S s s') (id : ElementId) :
    (s'.get id).raw = (s.get id).raw := by
  rcases h.get id with he | ⟨-, -, -, parent, -, -, he⟩
  · rw [he]
  · rw [he]

/-- An owner stays. -/
theorem get_of_owner (h : Claimed root S s s') {id : ElementId}
    (ho : (s.get id).owner ≠ none) : s'.get id = s.get id := by
  rcases h.get id with he | ⟨-, -, hn, -⟩
  · exact he
  · exact absurd hn ho

theorem get_of_not (h : Claimed root S s s') {id : ElementId} (hS : ¬ S id) :
    s'.get id = s.get id := by
  rcases h.get id with he | ⟨hid, -⟩
  · exact he
  · exact absurd hid hS

theorem get_root (h : Claimed root S s s') : s'.get root = s.get root := by
  rcases h.get root with he | ⟨-, hne, -⟩
  · exact he
  · exact absurd rfl hne

theorem trans (h : Claimed root S s s') (h' : Claimed root S s' s'') : Claimed root S s s'' where
  size_eq := h'.size_eq.trans h.size_eq
  get id := by
    rcases h.get id with he | ⟨hS, hr, hn, parent, hp, hc, he⟩
    · rcases h'.get id with he' | ⟨hS, hr, hn, parent, hp, hc, he'⟩
      · exact Or.inl (he'.trans he)
      · rw [he] at hn he'
        rw [h.kind_eq] at hc
        exact Or.inr ⟨hS, hr, hn, parent, hp, hc, he'⟩
    · have hkept : s''.get id = s'.get id := h'.get_of_owner (by rw [he]; simp)
      exact Or.inr ⟨hS, hr, hn, parent, hp, hc, hkept.trans he⟩

theorem setOwner {child parent : ElementId} (hf : s.isFree root child = true) (hS : S child)
    (hp : S parent) (hc : child ∈ (s.kind parent).children) :
    Claimed root S s (s.setOwner child parent) where
  size_eq := size_modify ..
  get id := by
    simp only [isFree, Bool.and_eq_true, decide_eq_true_eq, bne_iff_ne, ne_eq,
      Option.isNone_iff_eq_none] at hf
    obtain ⟨⟨hne, hlt⟩, hnone⟩ := hf
    by_cases hid : child = id
    · subst hid
      exact Or.inr ⟨hS, hne, hnone, parent, hp, hc, get_modify_self _ hlt⟩
    · exact Or.inl (get_modify_of_ne _ hid)

end Claimed

variable {root : ElementId} {S : ElementId → Prop}

/-- One element claims children. -/
theorem claim_claimed (root : ElementId) {parent : ElementId} (hp : S parent)
    {children : List ElementId} {s : Store}
    (hc : ∀ child ∈ children, S child ∧ child ∈ (s.kind parent).children) :
    Claimed root S s (claim root parent children s).1 ∧
      (claim root parent children s).2 ⊆ children := by
  induction children generalizing s with
  | nil => exact ⟨.refl _ _ _, List.Subset.refl _⟩
  | cons child children ih =>
    obtain ⟨hchild, hchildren⟩ := List.forall_mem_cons.1 hc
    rw [claim]
    split
    · rename_i hf
      have h := Claimed.setOwner hf hchild.1 hp hchild.2
      obtain ⟨h', hs⟩ := @ih (s.setOwner child parent) fun c hm => by
        rw [h.kind_eq]
        exact hchildren c hm
      exact ⟨h.trans h', List.cons_subset_cons _ hs⟩
    · obtain ⟨h', hs⟩ := ih hchildren
      exact ⟨h', List.subset_cons_of_subset _ hs⟩

/-- A free child is claimed. -/
theorem owner_claim (root : ElementId) {parent : ElementId} (hp : S parent)
    {children : List ElementId} {s : Store}
    (hc : ∀ child ∈ children, S child ∧ child ∈ (s.kind parent).children) {child : ElementId}
    (hm : child ∈ children) (hf : s.isFree root child = true) :
    ((claim root parent children s).1.get child).owner = some parent := by
  induction children generalizing s with
  | nil => cases hm
  | cons first children ih =>
    obtain ⟨hfirst, hchildren⟩ := List.forall_mem_cons.1 hc
    rw [claim]
    split
    · rename_i hfree
      have h := Claimed.setOwner hfree hfirst.1 hp hfirst.2
      have hrest : ∀ c ∈ children, S c ∧ c ∈ ((s.setOwner first parent).kind parent).children := by
        intro c hm
        rw [h.kind_eq]
        exact hchildren c hm
      by_cases he : first = child
      · subst he
        have hlt : first < s.size := by
          simp only [isFree, Bool.and_eq_true, decide_eq_true_eq] at hfree
          exact hfree.1.2
        have hset : (s.setOwner first parent).get first =
            { s.get first with owner := some parent } := get_modify_self _ hlt
        have hkept := (claim_claimed root hp hrest).1.get_of_owner (by rw [hset]; simp)
        rw [hkept, hset]
      · refine ih hrest ((List.mem_cons.1 hm).resolve_left (Ne.symm he)) ?_
        have hget : (s.setOwner first parent).get child = s.get child := get_modify_of_ne _ he
        have hsize : (s.setOwner first parent).size = s.size := size_modify ..
        rw [isFree, hget, hsize]
        exact hf
    · rename_i hfree
      refine ih hchildren ((List.mem_cons.1 hm).resolve_left ?_) hf
      rintro rfl
      exact hfree hf

theorem claimAll_claimed {pending : List ElementId} {s : Store} (hp : ∀ p ∈ pending, S p)
    (hS : ∀ p, S p → ∀ child ∈ (s.kind p).children, S child) :
    Claimed root S s (claimAll root pending s) := by
  fun_induction claimAll root pending s with
  | case1 s => exact .refl _ _ _
  | case2 s parent rest claimed ih =>
    obtain ⟨hparent, hrest⟩ := List.forall_mem_cons.1 hp
    obtain ⟨h, hs⟩ := claim_claimed root hparent
      fun child hm => ⟨hS parent hparent child hm, hm⟩
    refine h.trans (ih ?_ ?_)
    · intro p hm
      rcases List.mem_append.1 hm with hm | hm
      · exact hS parent hparent p (hs (List.mem_reverse.1 hm))
      · exact hrest p hm
    · intro p hSp child hm
      rw [h.kind_eq] at hm
      exact hS p hSp child hm

/-- **Writing owners** changes nothing but the owners below the root. -/
theorem setOwners_claimed {s : Store} (hr : S root)
    (hS : ∀ p, S p → ∀ child ∈ (s.kind p).children, S child) :
    Claimed root S s (s.setOwners root) :=
  claimAll_claimed (fun p hp => by rwa [List.mem_singleton.1 hp]) hS

/-- Owners are all that changes. -/
theorem claimed_setOwners (root : ElementId) (s : Store) :
    Claimed root (fun _ => True) s (s.setOwners root) :=
  setOwners_claimed trivial fun _ _ _ _ => trivial

/-- The free children of the root are its own. -/
theorem owner_setOwners {s : Store} (hr : S root)
    (hS : ∀ p, S p → ∀ child ∈ (s.kind p).children, S child) {child : ElementId}
    (hm : child ∈ (s.kind root).children) (hf : s.isFree root child = true) :
    ((s.setOwners root).get child).owner = some root := by
  have hchildren := fun c (hc : c ∈ (s.kind root).children) => And.intro (hS root hr c hc) hc
  obtain ⟨h, hs⟩ := claim_claimed root hr hchildren
  have hown := owner_claim root hr hchildren hm hf
  rw [setOwners, claimAll]
  have hrest : Claimed root S (claim root root (s.kind root).children s).1
      (claimAll root ((claim root root (s.kind root).children s).2.reverse ++ [])
        (claim root root (s.kind root).children s).1) := by
    refine claimAll_claimed (fun p hp => ?_) fun p hSp c hc => ?_
    · rw [List.append_nil, List.mem_reverse] at hp
      exact hS root hr p (hs hp)
    · rw [h.kind_eq] at hc
      exact hS p hSp c hc
  rw [hrest.get_of_owner (by rw [hown]; simp), hown]

end FormulaSheet.Store
