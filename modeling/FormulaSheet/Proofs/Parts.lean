/-
  The parts of a term: what segments, items and arguments hold.

  Cutting a term into parts loses delimiters and separators and nothing else,
  so the elements of the parts, one part after another, are a sublist of the
  term (`ids_segments_sublist`, `ids_items_sublist`, `flatten_arguments_sublist`).
  Where a literal is cut depends only on the kinds of its elements
  (`items_congr`).
-/
import FormulaSheet.Term.Bound

namespace FormulaSheet.Term

/-- The elements of a part of a term. -/
def Segment.ids : Segment → List ElementId
  | single id => [id]
  | group _ inner => inner
  | unmatched _ => []

/-- The elements of a part of an array literal. -/
def Item.ids : Item → List ElementId
  | cell id => [id]
  | signed sign operand => [sign, operand]
  | nested inner => inner
  | rowEnd | unsupported _ | unclosed => []

/-- What stands before and after the delimiter that closes a group. -/
theorem eq_append_of_splitClosing? {s : Store} {group : Group} {depth : Nat}
    {ids inner after : List ElementId} (h : splitClosing? s group depth ids = some (inner, after)) :
    ∃ close, ids = inner ++ close :: after ∧ s.kind close = .delimiter group .closing := by
  induction ids generalizing depth inner after with
  | nil => simp [splitClosing?] at h
  | cons id rest ih =>
    have step : ∀ {depth : Nat}, (splitClosing? s group depth rest).map
        (fun p => (id :: p.1, p.2)) = some (inner, after) →
        ∃ close, id :: rest = inner ++ close :: after ∧
          s.kind close = .delimiter group .closing := by
      intro depth h
      obtain ⟨⟨i, a⟩, hi, he⟩ := Option.map_eq_some_iff.1 h
      obtain ⟨rfl, rfl⟩ := Prod.mk.inj he
      obtain ⟨close, rfl, hc⟩ := ih hi
      exact ⟨close, rfl, hc⟩
    simp only [splitClosing?] at h
    split at h
    · rename_i g side hk
      split at h
      · rename_i hg
        subst hg
        split at h
        · exact step h
        · obtain ⟨rfl, rfl⟩ := Prod.mk.inj (Option.some.inj h)
          exact ⟨id, rfl, hk⟩
        · exact step h
      · exact step h
    · exact step h

theorem ids_segments_sublist (s : Store) (term : List ElementId) :
    ((segments s term).flatMap Segment.ids).Sublist term := by
  fun_induction segments s term with
  | case1 => exact .refl _
  | case2 id rest => exact List.nil_sublist _
  | case3 id rest => exact List.nil_sublist _
  | case4 id rest g hk inner after hs ih =>
    obtain ⟨close, rfl, -⟩ := eq_append_of_splitClosing? hs
    rw [List.flatMap_cons]
    exact ((List.Sublist.refl inner).append (ih.cons close)).cons id
  | case5 id rest _ _ ih =>
    rw [List.flatMap_cons]
    exact ih.cons_cons id

theorem ids_items_sublist (v : Vocabulary) (s : Store) (inner : List ElementId) :
    ((items v s inner).flatMap Item.ids).Sublist inner := by
  fun_induction items v s inner with
  | case1 => exact .refl _
  | case2 id rest _ ih => exact ih.cons id
  | case3 id rest _ ih => exact ih.cons id
  | case4 => exact List.nil_sublist _
  | case5 id rest _ nested after hs ih =>
    obtain ⟨close, rfl, -⟩ := eq_append_of_splitClosing? hs
    rw [List.flatMap_cons]
    exact ((List.Sublist.refl nested).append (ih.cons close)).cons id
  | case6 => exact List.nil_sublist _
  | case7 id _ _ _ _ _ operand after _ ih =>
    rw [List.flatMap_cons]
    exact (ih.cons_cons operand).cons_cons id
  | case8 => exact List.nil_sublist _
  | case9 => exact List.nil_sublist _
  | case10 id rest _ _ _ _ _ ih =>
    rw [List.flatMap_cons]
    exact ih.cons_cons id

/-- What ends the list of items is an element of the literal. -/
theorem mem_of_unsupported {v : Vocabulary} {s : Store} {inner : List ElementId} {id : ElementId}
    (h : .unsupported id ∈ items v s inner) : id ∈ inner := by
  fun_induction items v s inner with
  | case1 => cases h
  | case2 x rest hk ih => exact List.mem_cons_of_mem x (ih (by simpa using h))
  | case3 x rest hk ih => exact List.mem_cons_of_mem x (ih h)
  | case4 => simp at h
  | case5 x rest hk nested after hs ih =>
    obtain ⟨close, rfl, -⟩ := eq_append_of_splitClosing? hs
    exact List.mem_cons_of_mem x (List.mem_append_right nested (List.mem_cons_of_mem close
      (ih (by simpa using h))))
  | case6 x symbol role first second hk =>
    obtain rfl : id = x := by simpa using h
    exact List.mem_cons_self
  | case7 x symbol role first second hk operand after hc ih =>
    exact List.mem_cons_of_mem x (List.mem_cons_of_mem operand (ih (by simpa using h)))
  | case8 x symbol role first second hk operand after hc =>
    obtain rfl : id = x := by simpa using h
    exact List.mem_cons_self
  | case9 x rest h₁ h₂ h₃ h₄ hs =>
    obtain rfl : id = x := by simpa using h
    exact List.mem_cons_self
  | case10 x rest h₁ h₂ h₃ h₄ hs ih => exact List.mem_cons_of_mem x (ih (by simpa using h))

theorem subset_of_nested {v : Vocabulary} {s : Store} {ids inner : List ElementId}
    (h : .nested inner ∈ items v s ids) : inner ⊆ ids := fun _ hid =>
  (ids_items_sublist v s ids).subset (List.mem_flatMap.2 ⟨_, h, hid⟩)

/-- What the elements of a part of an array literal are. -/
def Item.Fits (s : Store) : Item → Prop
  | cell id => (s.kind id).isStructural = false ∧ (s.kind id).isOperator = false
  | signed sign operand => (s.kind sign).isOperator = true ∧ canBeSigned (s.kind operand) = true
  | nested _ | rowEnd | unsupported _ | unclosed => True

/-- A cell is a plain element, and a sign is an operator before a value or a
    name. -/
theorem fits_of_mem_items {v : Vocabulary} {s : Store} {inner : List ElementId} {item : Item}
    (h : item ∈ items v s inner) : item.Fits s := by
  have step : ∀ {first : Item} {rest : List Item}, item ∈ first :: rest → first.Fits s →
      (item ∈ rest → item.Fits s) → item.Fits s := by
    intro first rest hm hf hr
    rcases List.mem_cons.1 hm with rfl | hm
    · exact hf
    · exact hr hm
  fun_induction items v s inner with
  | case1 => cases h
  | case2 id rest _ ih => exact step h trivial ih
  | case3 id rest _ ih => exact ih h
  | case4 => exact step h trivial (by simp)
  | case5 id rest _ nested after hs ih => exact step h trivial ih
  | case6 => exact step h trivial (by simp)
  | case7 id symbol role first second hk operand after hc ih =>
    rw [Bool.and_eq_true] at hc
    exact step h ⟨by rw [hk]; rfl, hc.2⟩ ih
  | case8 => exact step h trivial (by simp)
  | case9 => exact step h trivial (by simp)
  | case10 id rest _ _ _ ho hs ih =>
    refine step h ⟨by simpa using hs, ?_⟩ ih
    cases hk : s.kind id with
    | operator symbol role first second => exact absurd hk (ho symbol role first second)
    | _ => rfl

theorem flatten_splitArguments_sublist (s : Store) (depth : Nat) (ids : List ElementId) :
    (splitArguments s depth ids).flatten.Sublist ids := by
  have onHead : ∀ {id : ElementId} {rest : List ElementId} {pieces : List (List ElementId)},
      pieces.flatten.Sublist rest →
      (pieces.modifyHead (id :: ·)).flatten.Sublist (id :: rest) := by
    intro id rest pieces hp
    cases pieces with
    | nil => exact List.nil_sublist _
    | cons p ps => exact hp.cons_cons id
  induction ids generalizing depth with
  | nil => exact .refl _
  | cons id rest ih =>
    rw [splitArguments]
    split
    · exact onHead (ih _)
    · exact onHead (ih _)
    · split
      · exact (ih 0).cons id
      · exact onHead (ih _)
    · exact onHead (ih _)

theorem flatten_arguments_sublist (s : Store) (inner : List ElementId) :
    (arguments s inner).flatten.Sublist inner := by
  rw [arguments]
  split
  · exact List.nil_sublist _
  · exact flatten_splitArguments_sublist s 0 inner

/-! ## Equal kinds -/

theorem splitClosing?_congr {s s' : Store} {ids : List ElementId}
    (h : ∀ id ∈ ids, s'.kind id = s.kind id) (group : Group) (depth : Nat) :
    splitClosing? s' group depth ids = splitClosing? s group depth ids := by
  induction ids generalizing depth with
  | nil => rfl
  | cons id rest ih =>
    obtain ⟨hid, hrest⟩ := List.forall_mem_cons.1 h
    simp only [splitClosing?, hid, ih hrest]

theorem items_congr {s s' : Store} {inner : List ElementId}
    (h : ∀ id ∈ inner, s'.kind id = s.kind id) (v : Vocabulary) :
    items v s' inner = items v s inner := by
  fun_induction items v s inner with
  | case1 => rw [items]
  | case2 id rest hk ih =>
    obtain ⟨hid, hrest⟩ := List.forall_mem_cons.1 h
    rw [items, hid, hk]
    simp only [ih hrest]
  | case3 id rest hk ih =>
    obtain ⟨hid, hrest⟩ := List.forall_mem_cons.1 h
    rw [items, hid, hk]
    simp only [ih hrest]
  | case4 id rest hk hs =>
    obtain ⟨hid, hrest⟩ := List.forall_mem_cons.1 h
    rw [items, hid, hk]
    dsimp only
    rw [splitClosing?_congr hrest, hs]
  | case5 id rest hk nested after hs ih =>
    obtain ⟨hid, hrest⟩ := List.forall_mem_cons.1 h
    rw [items, hid, hk]
    dsimp only
    rw [splitClosing?_congr hrest, hs]
    obtain ⟨close, rfl, -⟩ := eq_append_of_splitClosing? hs
    simp only [ih fun id hm => hrest id (by simp [hm])]
  | case6 id symbol role first second hk => rw [items, h id List.mem_cons_self, hk]
  | case7 id symbol role first second hk operand after hc ih =>
    obtain ⟨hid, hoperand, hafter⟩ : _ ∧ _ ∧ _ := by simpa using h
    rw [items, hid, hk]
    simp only [hoperand, hc, if_true, ih hafter]
  | case8 id symbol role first second hk operand after hc =>
    obtain ⟨hid, hoperand, -⟩ : _ ∧ _ ∧ _ := by simpa using h
    rw [items, hid, hk]
    simp only [hoperand, hc]
    rfl
  | case9 id rest h₁ h₂ h₃ h₄ hs =>
    rw [items, h id List.mem_cons_self]
    cases hk : s.kind id with
    | operator symbol role first second => exact absurd hk (h₄ symbol role first second)
    | _ => simp_all
  | case10 id rest h₁ h₂ h₃ h₄ hs ih =>
    obtain ⟨hid, hrest⟩ := List.forall_mem_cons.1 h
    rw [items, hid, ih hrest]
    cases hk : s.kind id with
    | operator symbol role first second => exact absurd hk (h₄ symbol role first second)
    | _ => simp_all

end FormulaSheet.Term
