/-
  Owner links are parent links.

  The statements of a script are the roots of a forest, and below each of them
  the owner of an element is the element it hangs below.

  * `setOwners_links`: if nothing below a root is owned, writing the owners of a
    tree gives every element its parent.
  * `Script.Linked script all`: `all` are the elements of the statements, their
    owners are their parents, and no other element has an owner.  Every line
    keeps that (`addLine_linked`).
  * `Climbs s id top`: following the owners from `id` ends at `top`.
  * `Script.OwnersAreParents`: what that says of a script that has been read
    (`ownersAreParents_of_parse`).
-/
import FormulaSheet.Proofs.WellFormed
import Mathlib.Data.List.Nodup

namespace FormulaSheet

namespace Store

/-! ## Forests without sharing -/

theorem Forest.roots_sublist {s : Store} {roots all : List ElementId} (h : Forest s roots all) :
    roots.Sublist all := by
  induction h with
  | nil => exact .refl _
  | @cons id roots below rest _ _ _ ih =>
    exact (ih.trans (List.sublist_append_right below rest)).cons_cons id

theorem Forest.nodup_children {s : Store} {roots all : List ElementId} (h : Forest s roots all)
    (hn : all.Nodup) {id : ElementId} (hid : id ∈ all) : (s.kind id).children.Nodup := by
  induction h with
  | nil => cases hid
  | @cons root roots below rest hb _ ihb ihr =>
    obtain ⟨hbelow, hrest, -⟩ := List.nodup_append.1 (List.nodup_cons.1 hn).2
    rcases List.mem_cons.1 hid with rfl | hid
    · exact hb.roots_sublist.nodup hbelow
    · rcases List.mem_append.1 hid with hid | hid
      · exact ihb hbelow hid
      · exact ihr hrest hid

/-! ## Writing the owners of a tree -/

/-- Every element below one of `all` has its parent as owner. -/
def Links (s : Store) (all : List ElementId) : Prop :=
  ∀ p ∈ all, ∀ child ∈ (s.kind p).children, (s.get child).owner = some p

theorem claimed_eq {root parent : ElementId} {children : List ElementId} {s : Store}
    (hn : children.Nodup) (hf : ∀ child ∈ children, s.isFree root child = true) :
    (claim root parent children s).2 = children := by
  induction children generalizing s with
  | nil => rfl
  | cons child children ih =>
    obtain ⟨hchild, hchildren⟩ := List.forall_mem_cons.1 hf
    obtain ⟨hnot, hn⟩ := List.nodup_cons.1 hn
    rw [claim, if_pos hchild]
    have hrest : (claim root parent children (s.setOwner child parent)).2 = children := by
      refine ih hn fun other hm => ?_
      have hne : child ≠ other := by
        rintro rfl
        exact hnot hm
      have hget : (s.setOwner child parent).get other = s.get other := get_modify_of_ne _ hne
      have hsize : (s.setOwner child parent).size = s.size := size_modify ..
      rw [isFree, hget, hsize]
      exact hchildren other hm
    exact congrArg (child :: ·) hrest

theorem isFree_of_unowned {s : Store} {root child : ElementId} (hne : child ≠ root)
    (hlt : child < s.size) (ho : (s.get child).owner = none) : s.isFree root child = true := by
  simp [isFree, hne, hlt, ho]

/-- The invariant of the loop: the pending elements are the roots of a forest in
    which only they can have an owner.  In the end the whole forest is linked. -/
theorem claimAll_links {root : ElementId} {pending all : List ElementId} {s : Store}
    (h : Forest s pending all) (hn : all.Nodup) (hlt : ∀ id ∈ all, id < s.size)
    (hfree : ∀ id ∈ all, id ∉ pending → id ≠ root ∧ (s.get id).owner = none) :
    Links (claimAll root pending s) all := by
  fun_induction claimAll root pending s generalizing all with
  | case1 s =>
    cases h
    intro p hp
    cases hp
  | case2 s parent rest claimed =>
    rename_i ih
    cases h with
    | @cons _ _ below others hb hr =>
      obtain ⟨hparent, hn⟩ := List.nodup_cons.1 hn
      obtain ⟨hnb, -, hapart⟩ := List.nodup_append.1 hn
      have hin : ∀ x ∈ below ++ others, x < s.size := fun x hx => hlt x (List.mem_cons_of_mem _ hx)
      have hpending : ∀ x ∈ below, x ∉ parent :: rest := by
        intro x hx hm
        rcases List.mem_cons.1 hm with rfl | hm
        · exact hparent (List.mem_append_left _ hx)
        · exact hapart x hx x (hr.subset hm) rfl
      have hbelow : ∀ x ∈ below, x ≠ root ∧ (s.get x).owner = none := fun x hx =>
        hfree x (by simp [hx]) (hpending x hx)
      have hchildren : ∀ child ∈ (s.kind parent).children, s.isFree root child = true := by
        intro child hc
        have hm := hb.subset hc
        exact isFree_of_unowned (hbelow child hm).1 (hin child (List.mem_append_left _ hm))
          (hbelow child hm).2
      -- The parent claims all its children, and nothing else changes.
      have hall : claimed.2 = (s.kind parent).children :=
        claimed_eq (hb.roots_sublist.nodup hnb) hchildren
      obtain ⟨hclaimed, -⟩ := claim_claimed
        (S := fun x => x = parent ∨ x ∈ (s.kind parent).children)
        root (Or.inl rfl) fun child hc => ⟨Or.inr hc, hc⟩
      have hkind := hclaimed.kind_eq
      have hboth : Forest claimed.1 ((s.kind parent).children ++ rest) (below ++ others) :=
        (hb.append hr).congr fun x _ => by rw [hkind x]
      obtain ⟨all', hforest, hp⟩ := hboth.perm ((List.reverse_perm _).symm.append_right rest)
      rw [← hall] at hforest
      have hrest : Links (claimAll root (claimed.2.reverse ++ rest) claimed.1) all' := by
        refine ih hforest (hp.nodup_iff.1 hn) ?_ ?_
        · intro x hx
          rw [hclaimed.size_eq]
          exact hin x (hp.mem_iff.2 hx)
        · intro x hx hnot
          have hx := hp.mem_iff.2 hx
          rw [hall, List.mem_append, List.mem_reverse, not_or] at hnot
          have hne : x ≠ parent := by
            rintro rfl
            exact hparent hx
          have hkept : claimed.1.get x = s.get x :=
            hclaimed.get_of_not (by simp [hne, hnot.1])
          rw [hkept]
          exact hfree x (List.mem_cons_of_mem _ hx) (by simp [hne, hnot.2])
      have hlater : Claimed root (fun _ => True) claimed.1
          (claimAll root (claimed.2.reverse ++ rest) claimed.1) :=
        claimAll_claimed (fun _ _ => trivial) fun _ _ _ _ => trivial
      intro p hm child hc
      rcases List.mem_cons.1 hm with rfl | hm
      · rw [hlater.kind_eq, hkind] at hc
        have hown : (claimed.1.get child).owner = some p :=
          owner_claim (S := fun _ => True) root trivial (fun c hc => ⟨trivial, hc⟩) hc
            (hchildren child hc)
        rw [hlater.get_of_owner (by rw [hown]; simp), hown]
      · exact hrest p (hp.mem_iff.1 hm) child hc

/-- **Writing owners** gives every element of a tree its parent. -/
theorem setOwners_links {root : ElementId} {all : List ElementId} {s : Store}
    (h : Forest s [root] all) (hn : all.Nodup)
    (hfree : ∀ id ∈ all, id < s.size ∧ (s.get id).owner = none) :
    Links (s.setOwners root) all := by
  refine claimAll_links h hn (fun id hid => (hfree id hid).1) fun id hid hne => ?_
  exact ⟨by simpa using hne, (hfree id hid).2⟩

/-! ## The links of a line -/

/-- The statement of a line is a linked tree among what the line adds, and
    nothing else that it adds has an owner. -/
theorem ReadsLine.linked {registry : Registry} {s s' : Store} {r : ElementId × Option String}
    (h : ReadsLine registry s s' r) :
    ∃ all, Forest s' [r.1] all ∧ Apart (s.size ≤ ·) s' all ∧ Links s' all ∧
      ∀ x, s.size ≤ x → x ∉ all → (s'.get x).owner = none := by
  cases h with
  | @plain s₁ ids e h he ho =>
    have hleaf : ((s₁.push e).kind s₁.size).children = [] := by
      rw [kind, get_push_size]
      rcases he with he | he <;> rw [he] <;> rfl
    refine ⟨[s₁.size], .of_leaves (by simpa using hleaf), ⟨by simp, ?_⟩, ?_, ?_⟩
    · intro x hx
      rw [List.mem_singleton.1 hx, size_push]
      exact ⟨Nat.lt_succ_self _, h.size_le⟩
    · intro p hp child hc
      rw [List.mem_singleton.1 hp, hleaf] at hc
      cases hc
    · intro x hx hne
      by_cases hlt : x < s₁.size
      · rw [get_push_of_lt e hlt]
        exact (h.token x hx hlt).1.unowned
      · have hge : s₁.size + 1 ≤ x :=
          Nat.lt_of_le_of_ne (Nat.not_lt.1 hlt) fun he => hne (by simp [he])
        rw [get_of_size_le (by rwa [size_push])]
        rfl
  | @declaration s₁ s₂ c ids rhs target content form name e h hrhs hb hc hr hv ht he ho =>
    obtain ⟨all, hst, hap⟩ := h.isStatement (fun id hid => (hrhs id hid).1) hb hv ht he
    have hclaimed : Claimed s₂.size (· ∈ all) (s₂.push e) ((s₂.push e).setOwners s₂.size) := by
      refine setOwners_claimed hst.mem_self fun p hp child hc => ?_
      exact hst.forest.mem_of_below hp (Below.root.child hc)
    -- Nothing of the line has an owner until they are written.
    have hnone : ∀ x, s.size ≤ x → ((s₂.push e).get x).owner = none := by
      intro x hx
      rcases Nat.lt_trichotomy x s₂.size with hlt | rfl | hgt
      · rw [get_push_of_lt e hlt]
        exact h.unowned hb hx
      · rw [get_push_size, ho]
      · rw [get_of_size_le (by rwa [size_push])]
        rfl
    refine ⟨all, hst.forest.congr fun x _ => by rw [hclaimed.kind_eq],
      hap.mono (fun _ h => h) (Nat.le_of_eq hclaimed.size_eq.symm), ?_, ?_⟩
    · exact setOwners_links hst.forest hap.nodup fun x hx =>
        ⟨(hap.mem x hx).1, hnone x (hap.mem x hx).2⟩
    · intro x hx hnot
      rw [hclaimed.get_of_not hnot]
      exact hnone x hx

/-! ## Following owners -/

/-- Following the owners from `id` ends at `top`, which has none. -/
inductive Climbs (s : Store) : ElementId → ElementId → Prop
  | stop {id : ElementId} (h : (s.get id).owner = none) : Climbs s id id
  | step {id parent top : ElementId} (h : (s.get id).owner = some parent)
      (hc : Climbs s parent top) : Climbs s id top

end Store

open Store

/-! ## Linked scripts -/

namespace Script

/-- The element is in the tree of a statement. -/
def Contains (script : Script) (id : ElementId) : Prop :=
  ∃ statement ∈ script.statements, Below script.store statement id

/-- `all` are the elements of the statements, without sharing; owners are
    parents, and no other element has one. -/
structure Linked (script : Script) (all : List ElementId) : Prop where
  forest : Forest script.store script.statements all
  nodup : all.Nodup
  lt_size : ∀ id ∈ all, id < script.store.size
  links : Links script.store all
  roots : ∀ id ∈ script.statements, (script.store.get id).owner = none
  unowned : ∀ id, id ∉ all → (script.store.get id).owner = none

theorem linked_empty : ({} : Script).Linked [] where
  forest := .nil
  nodup := .nil
  lt_size := by simp
  links := by simp [Links]
  roots := by simp
  unowned id _ := by
    rw [get_of_size_le (Nat.zero_le id)]
    rfl

theorem Linked.add {script : Script} {all : List ElementId} (h : script.Linked all) {s : Store}
    {r : ElementId × Option String} {registry : Registry}
    (hl : ReadsLine script.registry script.store s r) :
    ∃ all', Linked ⟨s, script.statements ++ [r.1], registry⟩ all' := by
  have hadds := hl.addsStatement
  obtain ⟨new, hforest, hap, hlinks, hnone⟩ := hl.linked
  have hold : ∀ x ∈ all, s.get x = script.store.get x := fun x hx => hadds.kept x (h.lt_size x hx)
  have hkind : ∀ x ∈ all, s.kind x = script.store.kind x := fun x hx => by
    rw [kind, hold x hx, kind]
  have hclosed : ∀ p ∈ all, ∀ child ∈ (script.store.kind p).children, child ∈ all :=
    fun p hp child hc => h.forest.mem_of_below hp (Below.root.child hc)
  refine ⟨all ++ new, ⟨?_, ?_, ?_, ?_, ?_, ?_⟩⟩
  · exact (h.forest.congr fun x hx => by rw [hkind x hx]).append hforest
  · refine List.nodup_append.2 ⟨h.nodup, hap.nodup, ?_⟩
    rintro x hx _ hy rfl
    exact Nat.not_lt.2 (hap.mem x hy).2 (h.lt_size x hx)
  · intro x hx
    rcases List.mem_append.1 hx with hx | hx
    · exact Nat.lt_of_lt_of_le (h.lt_size x hx) hadds.size_le
    · exact (hap.mem x hx).1
  · intro p hp child hc
    rcases List.mem_append.1 hp with hp | hp
    · dsimp only at hc ⊢
      rw [hkind p hp] at hc
      rw [hold child (hclosed p hp child hc)]
      exact h.links p hp child hc
    · exact hlinks p hp child hc
  · intro x hx
    rcases List.mem_append.1 hx with hx | hx
    · rw [hold x (h.forest.subset hx)]
      exact h.roots x hx
    · rw [List.mem_singleton.1 hx]
      exact hadds.unowned
  · intro x hx
    rw [List.mem_append, not_or] at hx
    by_cases hlt : x < script.store.size
    · rw [hadds.kept x hlt]
      exact h.unowned x hx.1
    · exact hnone x (Nat.not_lt.1 hlt) hx.2

theorem addLine_linked {v : Vocabulary} {state : Script × Log} {all : List ElementId}
    (hs : state.1.Sound) (h : state.1.Linked all) (l : LogicalLine) :
    ∃ all', (addLine v state l).1.Linked all' := by
  refine addLine_of_ensures (P := fun script => ∃ all', script.Linked all')
    (Q := fun r w => ReadsLine state.1.registry state.1.store w.store r) ?_ ?_
  · intro w hw
    rw [← hw]
    exact read_readsLine (hw ▸ hs.names) v l
  · intro id declared w hread
    exact h.add hread

/-- **Reading links scripts.** -/
theorem parse_linked {v : Vocabulary} {lines : List String} {script : Script}
    (h : parse v lines = .ok script) : ∃ all, script.Linked all := by
  refine (parse_of_addLine (P := fun script => script.Sound ∧ ∃ all, script.Linked all)
    ⟨sound_empty, [], linked_empty⟩ ?_ h).2
  rintro state l ⟨hs, all, hlinked⟩
  exact ⟨addLine_sound hs l, addLine_linked hs hlinked l⟩

namespace Linked

variable {script : Script} {all : List ElementId}

theorem mem_of_below (h : script.Linked all) {statement id : ElementId}
    (hs : statement ∈ script.statements) (hb : Below script.store statement id) : id ∈ all :=
  h.forest.mem_of_below (h.forest.subset hs) hb

theorem mem_iff_contains (h : script.Linked all) {id : ElementId} :
    id ∈ all ↔ script.Contains id := by
  refine ⟨h.forest.exists_below, ?_⟩
  rintro ⟨statement, hs, hb⟩
  exact h.mem_of_below hs hb

theorem eq_of_owner (h : script.Linked all) {id parent other : ElementId}
    (ho : (script.store.get id).owner = some parent) (hother : other ∈ all)
    (hc : id ∈ (script.store.kind other).children) : other = parent := by
  have hlink := h.links other hother id hc
  rw [ho] at hlink
  exact (Option.some.inj hlink).symm

/-- What is below a statement is the statement or has a parent there, which is
    its owner. -/
theorem parent (h : script.Linked all) {statement id : ElementId}
    (hs : statement ∈ script.statements) (hb : Below script.store statement id)
    (hne : id ≠ statement) : ∃ parent, (script.store.get id).owner = some parent ∧
      Below script.store statement parent ∧ (script.store.kind parent).children.count id = 1 := by
  cases hb with
  | root => exact absurd rfl hne
  | @child parent _ hp hc =>
    have hparent := h.mem_of_below hs hp
    refine ⟨parent, h.links parent hparent id hc, hp, ?_⟩
    exact List.count_eq_one_of_mem (h.forest.nodup_children h.nodup hparent) hc

/-- Two statements have no element in common: their owners would differ. -/
theorem eq_of_below (h : script.Linked all) {statement statement' id : ElementId}
    (hs : statement ∈ script.statements) (hs' : statement' ∈ script.statements)
    (hb : Below script.store statement id) (hb' : Below script.store statement' id) :
    statement = statement' := by
  induction hb with
  | root =>
    by_contra hne
    obtain ⟨parent, ho, -⟩ := h.parent hs' hb' hne
    rw [h.roots statement hs] at ho
    cases ho
  | @child parent id hp hc ih =>
    have hlink := h.links parent (h.mem_of_below hs hp) id hc
    have hne : id ≠ statement' := by
      rintro rfl
      rw [h.roots id hs'] at hlink
      cases hlink
    obtain ⟨parent', ho, hp', -⟩ := h.parent hs' hb' hne
    rw [hlink] at ho
    cases ho
    exact ih hp'

theorem climbs (h : script.Linked all) {statement id : ElementId}
    (hs : statement ∈ script.statements) (hb : Below script.store statement id) :
    Climbs script.store id statement := by
  induction hb with
  | root => exact .stop (h.roots statement hs)
  | @child parent id hp hc ih => exact .step (h.links parent (h.mem_of_below hs hp) id hc) ih

end Linked

end Script

/-! ## Owners after reading -/

/-- The statements are the roots of a forest, and the owner links are exactly
    its parent links. -/
structure Script.OwnersAreParents (script : Script) : Prop where
  forest : ∃ all, Forest script.store script.statements all ∧ all.Nodup
  statement : ∀ statement ∈ script.statements, (script.store.get statement).owner = none
  /-- Below a statement the owner is the only parent, and holds the element
      once. -/
  parent : ∀ statement ∈ script.statements, ∀ id, Below script.store statement id →
    id ≠ statement → ∃ parent, (script.store.get id).owner = some parent ∧
      Below script.store statement parent ∧ (script.store.kind parent).children.count id = 1 ∧
      ∀ other, script.Contains other → id ∈ (script.store.kind other).children → other = parent
  disjoint : ∀ statement ∈ script.statements, ∀ other ∈ script.statements, ∀ id,
    Below script.store statement id → Below script.store other id → statement = other
  outside : ∀ id, ¬ script.Contains id → (script.store.get id).owner = none
  climbs : ∀ id, ∃ top, Climbs script.store id top ∧
    (top ∈ script.statements ∨ ¬ script.Contains top)

/-- **Owner links are the parent links of the statements.** -/
theorem ownersAreParents_of_parse {v : Vocabulary} {lines : List String} {script : Script}
    (h : Script.parse v lines = .ok script) : script.OwnersAreParents := by
  obtain ⟨all, hlinked⟩ := Script.parse_linked h
  have houtside : ∀ id, ¬ script.Contains id → (script.store.get id).owner = none :=
    fun id hid => hlinked.unowned id fun hm => hid (hlinked.mem_iff_contains.1 hm)
  refine ⟨⟨all, hlinked.forest, hlinked.nodup⟩, hlinked.roots, ?_, ?_, houtside, ?_⟩
  · intro statement hs id hb hne
    obtain ⟨parent, ho, hp, hcount⟩ := hlinked.parent hs hb hne
    refine ⟨parent, ho, hp, hcount, fun other hother hc => ?_⟩
    exact hlinked.eq_of_owner ho (hlinked.mem_iff_contains.2 hother) hc
  · intro statement hs other hother id hb hb'
    exact hlinked.eq_of_below hs hother hb hb'
  · intro id
    by_cases hid : script.Contains id
    · obtain ⟨statement, hs, hb⟩ := hid
      exact ⟨statement, hlinked.climbs hs hb, Or.inl hs⟩
    · exact ⟨id, .stop (houtside id hid), Or.inr hid⟩

/-- A function, a call, an array that is declared again and two terms that do
    not reduce, one of them the body of a function. -/
theorem ownersAreParents_of_parse_lines :
    ∃ script, Script.parse {} ["f = @(x) -x + f(1)", "a = [1 -2; x]", "y = f(a(1)) * 2", "a = 1 +",
      "g = @(x) (x"] = .ok script ∧ script.statements.length = 5 ∧ script.OwnersAreParents := by
  have hfacts : ∃ script ∈ (Script.parse {} ["f = @(x) -x + f(1)", "a = [1 -2; x]",
      "y = f(a(1)) * 2", "a = 1 +", "g = @(x) (x"]).toOption, script.statements.length = 5 := by
    decide +kernel
  obtain ⟨script, hscript, hlength⟩ := hfacts
  have hparse := Script.parse_of_mem hscript
  exact ⟨script, hparse, hlength, ownersAreParents_of_parse hparse⟩

end FormulaSheet
