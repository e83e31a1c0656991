/-
  Forests of a store: finite trees that share no element.

  * `Forest s roots all`: the trees below `roots` are finite, and `all` are
    their elements, each root before what is below it.  `all` has a duplicate
    as soon as two trees, or two places of one tree, share an element.
  * `Forest.perm`, `Forest.append` and `Forest.congr`: the order of the roots
    does not matter, and elements outside the forest do not either.
  * `Forest.graft`: a root without children takes other roots below itself;
    `Forest.build`: a new element does.  Neither adds a duplicate.
  * `Below s root id`: `id` is in the tree of `root`; `Visible s root id`: and
    nothing above it is an error.
-/
import FormulaSheet.Store

namespace FormulaSheet.Store

/-- The elements of the trees below `roots`, in preorder. -/
inductive Forest (s : Store) : List ElementId → List ElementId → Prop
  | nil : Forest s [] []
  | cons {id : ElementId} {roots below rest : List ElementId}
      (hb : Forest s (s.kind id).children below) (hr : Forest s roots rest) :
      Forest s (id :: roots) (id :: (below ++ rest))

namespace Forest

variable {s s' : Store} {roots roots' all all' : List ElementId}

theorem subset (h : Forest s roots all) : roots ⊆ all := by
  induction h with
  | nil => exact List.Subset.refl _
  | cons hb hr _ ih =>
    exact List.cons_subset_cons _ (List.subset_append_of_subset_right _ ih)

theorem append (h : Forest s roots all) (h' : Forest s roots' all') :
    Forest s (roots ++ roots') (all ++ all') := by
  induction h with
  | nil => exact h'
  | cons hb hr _ ih =>
    rw [List.cons_append, List.cons_append, List.append_assoc]
    exact .cons hb ih

theorem of_append : ∀ {roots roots' all : List ElementId}, Forest s (roots ++ roots') all →
    ∃ x y, all = x ++ y ∧ Forest s roots x ∧ Forest s roots' y
  | [], _, all, h => ⟨[], all, rfl, .nil, h⟩
  | _ :: _, _, _, .cons hb hr => by
    obtain ⟨x, y, rfl, hx, hy⟩ := of_append hr
    exact ⟨_, y, by simp, .cons hb hx, hy⟩

/-- The tree of one root. -/
theorem singleton {id : ElementId} {below : List ElementId}
    (h : Forest s (s.kind id).children below) : Forest s [id] (id :: below) := by
  have := Forest.cons h (.nil (s := s))
  rwa [List.append_nil] at this

theorem perm (h : Forest s roots all) (hp : roots.Perm roots') :
    ∃ all', Forest s roots' all' ∧ all.Perm all' := by
  induction hp generalizing all with
  | nil => exact ⟨all, h, .refl _⟩
  | cons id _ ih =>
    cases h with
    | cons hb hr =>
      obtain ⟨rest', hr', hp'⟩ := ih hr
      exact ⟨_, .cons hb hr', (hp'.append_left _).cons id⟩
  | swap id id' roots =>
    cases h with
    | @cons _ _ below _ hb hr =>
      cases hr with
      | @cons _ _ below' rest hb' hr =>
        refine ⟨_, .cons hb' (.cons hb hr), ?_⟩
        simp only [← List.cons_append, ← List.append_assoc]
        exact (List.perm_append_comm).append_right rest
  | trans _ _ ih ih' =>
    obtain ⟨_, h₁, hp₁⟩ := ih h
    obtain ⟨_, h₂, hp₂⟩ := ih' h₁
    exact ⟨_, h₂, hp₁.trans hp₂⟩

theorem congr (h : Forest s roots all)
    (hk : ∀ id ∈ all, (s'.kind id).children = (s.kind id).children) : Forest s' roots all := by
  induction h with
  | nil => exact .nil
  | @cons id roots below rest hb hr ihb ihr =>
    refine .cons ?_ (ihr fun x hx => hk x (by simp [hx]))
    rw [hk id List.mem_cons_self]
    exact ihb fun x hx => hk x (by simp [hx])

/-- Elements without children are a forest of their own. -/
theorem of_leaves (h : ∀ id ∈ roots, (s.kind id).children = []) : Forest s roots roots := by
  induction roots with
  | nil => exact .nil
  | cons id roots ih =>
    have hid : Forest s (s.kind id).children [] := by
      rw [h id List.mem_cons_self]
      exact .nil
    exact .cons hid (ih fun x hx => h x (List.mem_cons_of_mem _ hx))

/-- What is below an element of a forest is in the forest. -/
theorem children (h : Forest s roots all) {id : ElementId} (hid : id ∈ all) :
    ∃ below, Forest s (s.kind id).children below ∧ below ⊆ all := by
  induction h with
  | nil => cases hid
  | @cons root roots below rest hb hr ihb ihr =>
    rcases List.mem_cons.1 hid with rfl | hid
    · exact ⟨below, hb, fun x hx => by simp [hx]⟩
    · rcases List.mem_append.1 hid with hid | hid
      · obtain ⟨b, hf, hs⟩ := ihb hid
        exact ⟨b, hf, fun x hx => by simp [hs hx]⟩
      · obtain ⟨b, hf, hs⟩ := ihr hid
        exact ⟨b, hf, fun x hx => by simp [hs hx]⟩

/-- A root without children takes other roots below itself. -/
theorem graft {id : ElementId} {operands : List ElementId} {f : Element → Element}
    (h : Forest s (id :: (operands ++ roots)) all) (hn : all.Nodup)
    (hid : id < s.size) (hleaf : (s.kind id).children = [])
    (hf : (f (s.get id)).kind.children = operands) : Forest (s.modify id f) (id :: roots) all := by
  cases h with
  | @cons _ _ below rest hb hr =>
    rw [hleaf] at hb
    cases hb
    rw [List.nil_append] at hn ⊢
    obtain ⟨x, y, rfl, hx, hy⟩ := of_append hr
    have same : ∀ other ∈ x ++ y, ((s.modify id f).kind other).children =
        (s.kind other).children := by
      intro other hm
      have hne : id ≠ other := fun he => (List.nodup_cons.1 hn).1 (he ▸ hm)
      rw [kind, get_modify_of_ne f hne, kind]
    refine .cons ?_ (hy.congr fun other hm => same other (List.mem_append_right _ hm))
    rw [kind, get_modify_self f hid, hf]
    exact hx.congr fun other hm => same other (List.mem_append_left _ hm)

theorem push (h : Forest s roots all) (hall : ∀ id ∈ all, id < s.size) (e : Element) :
    Forest (s.push e) roots all :=
  h.congr fun id hid => by rw [kind, get_push_of_lt e (hall id hid), kind]

/-- A new element takes roots below itself. -/
theorem build {e : Element} (h : Forest s (e.kind.children ++ roots) all)
    (hall : ∀ id ∈ all, id < s.size) :
    Forest (s.push e) (s.size :: roots) (s.size :: all) := by
  obtain ⟨x, y, rfl, hx, hy⟩ := of_append (h.push hall e)
  refine .cons ?_ hy
  rwa [kind, get_push_size]

end Forest

/-! ## Reaching elements -/

/-- `id` is in the tree of `root`. -/
inductive Below (s : Store) (root : ElementId) : ElementId → Prop
  | root : Below s root root
  | child {id child : ElementId} (h : Below s root id) (hc : child ∈ (s.kind id).children) :
      Below s root child

theorem Below.trans {s : Store} {root mid id : ElementId} (h : Below s root mid)
    (h' : Below s mid id) : Below s root id := by
  induction h' with
  | root => exact h
  | child _ hc ih => exact ih.child hc

theorem Below.eq_of_leaf {s : Store} {root id : ElementId} (h : Below s root id)
    (hleaf : (s.kind root).children = []) : id = root := by
  induction h with
  | root => rfl
  | child _ hc ih =>
    rw [ih, hleaf] at hc
    cases hc

/-- `id` is in the tree of `root`, and nothing above it is an error. -/
inductive Visible (s : Store) (root : ElementId) : ElementId → Prop
  | root : Visible s root root
  | child {id child : ElementId} (h : Visible s root id)
      (he : ∀ fault ids, s.kind id ≠ .error fault ids) (hc : child ∈ (s.kind id).children) :
      Visible s root child

theorem below_of_visible {s : Store} {root id : ElementId} (h : Visible s root id) :
    Below s root id := by
  induction h with
  | root => exact .root
  | child _ _ hc ih => exact ih.child hc

/-- What is visible from a root is the root or visible from one of its
    children. -/
theorem Visible.of_root {s : Store} {root id : ElementId} (h : Visible s root id) : id = root ∨
    (∀ fault ids, s.kind root ≠ .error fault ids) ∧
      ∃ child ∈ (s.kind root).children, Visible s child id := by
  induction h with
  | root => exact Or.inl rfl
  | child _ he hc ih =>
    rcases ih with rfl | ⟨hroot, top, htop, hv⟩
    · exact Or.inr ⟨he, _, hc, .root⟩
    · exact Or.inr ⟨hroot, top, htop, hv.child he hc⟩

/-- Everything below an element of a forest is in the forest. -/
theorem Forest.mem_of_below {s : Store} {roots all : List ElementId} (h : Forest s roots all)
    {root id : ElementId} (hr : root ∈ all) (hb : Below s root id) : id ∈ all := by
  induction hb with
  | root => exact hr
  | child _ hc ih =>
    obtain ⟨below, hbelow, hs⟩ := h.children ih
    exact hs (hbelow.subset hc)

/-- Everything in a forest is below one of its roots. -/
theorem Forest.exists_below {s : Store} {roots all : List ElementId} (h : Forest s roots all)
    {id : ElementId} (hid : id ∈ all) : ∃ root ∈ roots, Below s root id := by
  induction h with
  | nil => cases hid
  | @cons root roots below rest _ _ ihb ihr =>
    rcases List.mem_cons.1 hid with rfl | hid
    · exact ⟨id, List.mem_cons_self, .root⟩
    · rcases List.mem_append.1 hid with hid | hid
      · obtain ⟨child, hc, hb⟩ := ihb hid
        exact ⟨root, List.mem_cons_self, (Below.root.child hc).trans hb⟩
      · obtain ⟨other, ho, hb⟩ := ihr hid
        exact ⟨other, List.mem_cons_of_mem root ho, hb⟩

end FormulaSheet.Store
