/-
  The frame of a reduction: what it leaves alone.

  * `Retouched`: a reduction may give an operator other operands and make it a
    sign; every other element stays exactly as it is.
  * `Later ids s s'`: from `s` to `s'` elements are only added, and of those in
    `s` only operators among `ids` are retouched.
  * `Grows targets ids s s'`: moreover the new elements are finished nodes, and
    their calls lead to `targets`.
-/
import FormulaSheet.Proofs.Computation
import FormulaSheet.Proofs.Parts

namespace FormulaSheet

theorem Kind.isOperator_iff {kind : Kind} : kind.isOperator = true ↔
    ∃ symbol role first second, kind = .operator symbol role first second := by
  cases kind <;> simp [Kind.isOperator]

/-! ## Elements -/

namespace Element

/-- What a reduction can make of an element. -/
inductive Retouched (e : Element) : Element → Prop
  | same : Retouched e e
  | operator {symbol : String} {role role' : Role} {first second first' second' : Option ElementId}
      {sealed' : Bool} (hk : e.kind = .operator symbol role first second)
      (hr : role' = role ∨ role' = .sign) :
      Retouched e { e with kind := .operator symbol role' first' second', sealed := sealed' }

namespace Retouched

variable {e e' e'' : Element}

theorem trans (h : e.Retouched e') (h' : e'.Retouched e'') : e.Retouched e'' := by
  cases h with
  | same => exact h'
  | operator hk hr =>
    cases h' with
    | same => exact .operator hk hr
    | operator hk' hr' =>
      cases hk'
      refine .operator hk ?_
      rcases hr' with rfl | rfl
      · exact hr
      · exact Or.inr rfl

theorem eq_of_not_isOperator (h : e.Retouched e') (he : e.kind.isOperator = false) : e' = e := by
  cases h with
  | same => rfl
  | operator hk => rw [hk] at he; cases he

theorem isOperator_eq (h : e.Retouched e') : e'.kind.isOperator = e.kind.isOperator := by
  cases h with
  | same => rfl
  | operator hk => rw [hk]; rfl

end Retouched

theorem isOperator_of_pendingRole? {e : Element} {role : Role} (h : e.pendingRole? = some role) :
    e.kind.isOperator = true := by
  unfold pendingRole? at h
  split at h
  · rename_i hk; rw [hk]; rfl
  · cases h

theorem retouched_withOperands {e : Element} (he : e.kind.isOperator = true)
    (first second : Option ElementId) : e.Retouched (e.withOperands first second) := by
  obtain ⟨symbol, role, a, b, hk⟩ := Kind.isOperator_iff.1 he
  simp only [withOperands, hk]
  exact .operator hk (Or.inl rfl)

theorem children_withOperands {e : Element} (he : e.kind.isOperator = true)
    (first second : Option ElementId) :
    (e.withOperands first second).kind.children = first.toList ++ second.toList := by
  obtain ⟨symbol, role, a, b, hk⟩ := Kind.isOperator_iff.1 he
  simp only [withOperands, hk, Kind.children]

theorem retouched_signOf {e : Element} (he : e.kind.isOperator = true) (operand : ElementId) :
    e.Retouched (e.signOf operand) := by
  obtain ⟨symbol, role, a, b, hk⟩ := Kind.isOperator_iff.1 he
  simp only [signOf, hk]
  exact .operator hk (Or.inr rfl)

theorem children_signOf {e : Element} (he : e.kind.isOperator = true) {operand x : ElementId}
    (hx : x ∈ (e.signOf operand).kind.children) : x = operand ∨ x ∈ e.kind.children := by
  obtain ⟨symbol, role, a, b, hk⟩ := Kind.isOperator_iff.1 he
  rw [hk]
  simp only [signOf, hk, Kind.children, Option.toList_some, List.singleton_append,
    List.mem_cons] at hx
  exact hx.imp_right fun hm => List.mem_append_right _ hm

theorem retouched_released (e : Element) : e.Retouched e.released := by
  unfold released
  split
  · rename_i hk; exact .operator hk (Or.inl rfl)
  · exact .same

theorem children_released_subset (e : Element) : e.released.kind.children ⊆ e.kind.children := by
  unfold released
  split
  · exact List.nil_subset _
  · exact List.Subset.refl _

theorem retouched_openingSign (e : Element) : e.Retouched e.openingSign := by
  unfold openingSign
  split
  · rename_i hk
    split
    · exact .same
    · exact .operator hk (Or.inr rfl)
  · exact .same

theorem children_openingSign (e : Element) : e.openingSign.kind.children = e.kind.children := by
  unfold openingSign
  split
  · rename_i hk
    split
    · rfl
    · rw [hk]
      rfl
  · rfl

/-- A node that a reduction adds; an access is one of a name, and a call leads to
    one of the `targets`. -/
def IsNode (s : Store) (targets : ElementId → Prop) (e : Element) : Prop :=
  e.sealed = true ∧ e.owner = none ∧
    match e.kind with
    | .array _ | .passThrough => True
    | .access target _ => ∃ name, s.kind target = .name name
    | .call function _ => targets function
    | _ => False

theorem IsNode.not_isOperator {s : Store} {targets : ElementId → Prop} {e : Element}
    (h : e.IsNode s targets) : e.kind.isOperator = false := by
  obtain ⟨-, -, hk⟩ := h
  cases hkind : e.kind <;> simp_all [Kind.isOperator]

end Element

/-! ## Stores -/

namespace Store

theorem lt_size_of_isOperator {s : Store} {id : ElementId} (h : (s.kind id).isOperator = true) :
    id < s.size := by
  refine lt_size_of_kind fun hk => ?_
  rw [hk] at h
  cases h

/-- A change that changes nothing. -/
theorem get_modify_of_eq {s : Store} {id : ElementId} {f : Element → Element}
    (h : id < s.size → f (s.get id) = s.get id) (x : ElementId) :
    (s.modify id f).get x = s.get x := by
  by_cases hne : id = x
  · subst hne
    by_cases hlt : id < s.size
    · rw [get_modify_self f hlt, h hlt]
    · rw [get_of_size_le (by rw [size_modify]; exact Nat.not_lt.1 hlt),
        get_of_size_le (Nat.not_lt.1 hlt)]
  · exact get_modify_of_ne f hne

/-- Between the two stores elements have been added, and of the others at most
    operators among `ids` have been retouched. -/
structure Later (ids : List ElementId) (s s' : Store) : Prop where
  size_le : s.size ≤ s'.size
  kept : ∀ id < s.size, id ∉ ids → s'.get id = s.get id
  retouched : ∀ id < s.size, (s.get id).Retouched (s'.get id)

namespace Later

variable {ids ids' : List ElementId} {s s' s'' : Store}

theorem refl (ids : List ElementId) (s : Store) : Later ids s s :=
  ⟨Nat.le_refl _, fun _ _ _ => rfl, fun _ _ => .same⟩

theorem trans (h : Later ids s s') (h' : Later ids' s' s'') (hs : ids' ⊆ ids) :
    Later ids s s'' where
  size_le := Nat.le_trans h.size_le h'.size_le
  kept id hid hn := by
    rw [h'.kept id (Nat.lt_of_lt_of_le hid h.size_le) fun hm => hn (hs hm), h.kept id hid hn]
  retouched id hid :=
    (h.retouched id hid).trans (h'.retouched id (Nat.lt_of_lt_of_le hid h.size_le))

theorem push (h : Later ids s s') (e : Element) : Later ids s (s'.push e) where
  size_le := by rw [size_push]; exact Nat.le_succ_of_le h.size_le
  kept id hid hn := by
    rw [get_push_of_lt e (Nat.lt_of_lt_of_le hid h.size_le), h.kept id hid hn]
  retouched id hid := by
    rw [get_push_of_lt e (Nat.lt_of_lt_of_le hid h.size_le)]
    exact h.retouched id hid

theorem modify (h : Later ids s s') {id : ElementId} {f : Element → Element}
    (hid : id < s.size → id ∈ ids ∧ (s'.get id).Retouched (f (s'.get id))) :
    Later ids s (s'.modify id f) where
  size_le := by rw [size_modify]; exact h.size_le
  kept other hother hn := by
    have hne : id ≠ other := by
      rintro rfl
      exact hn (hid hother).1
    rw [get_modify_of_ne f hne, h.kept other hother hn]
  retouched other hother := by
    by_cases hne : id = other
    · subst hne
      rw [get_modify_self f (Nat.lt_of_lt_of_le hother h.size_le)]
      exact (h.retouched id hother).trans (hid hother).2
    · rw [get_modify_of_ne f hne]
      exact h.retouched other hother

/-- An operator stays one. -/
theorem isOperator (h : Later ids s s') {id : ElementId} (ho : (s.kind id).isOperator = true) :
    (s'.kind id).isOperator = true := by
  rw [kind, (h.retouched id (lt_size_of_isOperator ho)).isOperator_eq]
  exact ho

/-- Names stay. -/
theorem name (h : Later ids s s') {id : ElementId} {name : String} (hk : s.kind id = .name name) :
    s'.kind id = .name name := by
  have hlt : id < s.size := lt_size_of_kind (by simp [hk])
  rw [kind, (h.retouched id hlt).eq_of_not_isOperator (by rw [← kind, hk]; rfl)]
  exact hk

theorem isNode (h : Later ids s s') {targets : ElementId → Prop} {e : Element}
    (he : e.IsNode s targets) : e.IsNode s' targets := by
  obtain ⟨hs, ho, hk⟩ := he
  refine ⟨hs, ho, ?_⟩
  cases hkind : e.kind with
  | access target indexes =>
    rw [hkind] at hk
    obtain ⟨name, hname⟩ := hk
    exact ⟨name, h.name hname⟩
  | _ =>
    rw [hkind] at hk
    exact hk

end Later

/-- The store has grown by nodes whose calls lead to `targets`. -/
structure Grows (targets : ElementId → Prop) (ids : List ElementId) (s s' : Store) : Prop
    extends Later ids s s' where
  node : ∀ id, s.size ≤ id → id < s'.size → (s'.get id).IsNode s' targets

/-- An element of a term, or one added between the two stores. -/
def Among (ids : List ElementId) (s s' : Store) (id : ElementId) : Prop :=
  id ∈ ids ∨ s.size ≤ id ∧ id < s'.size

theorem Among.mono {ids ids' : List ElementId} {s s' s₁ s₂ : Store} {id : ElementId}
    (h : Among ids s₁ s₂ id) (hi : ids ⊆ ids') (hs : s.size ≤ s₁.size) (hs' : s₂.size ≤ s'.size) :
    Among ids' s s' id :=
  h.imp (fun hm => hi hm) fun hid => ⟨Nat.le_trans hs hid.1, Nat.lt_of_lt_of_le hid.2 hs'⟩

namespace Grows

variable {targets : ElementId → Prop} {ids : List ElementId} {s s' : Store}

theorem refl (targets : ElementId → Prop) (ids : List ElementId) (s : Store) :
    Grows targets ids s s where
  toLater := .refl ids s
  node _ h h' := absurd h' (Nat.not_lt.2 h)

theorem push (h : Grows targets ids s s') {e : Element} (he : e.IsNode s' targets) :
    Grows targets ids s (s'.push e) where
  toLater := h.toLater.push e
  node id hid hid' := by
    have hlater : Later [] s' (s'.push e) := (Later.refl [] s').push e
    rw [size_push] at hid'
    rcases Nat.lt_succ_iff_lt_or_eq.1 hid' with hlt | rfl
    · rw [get_push_of_lt e hlt]
      exact hlater.isNode (h.node id hid hlt)
    · rw [get_push_size]
      exact hlater.isNode he

/-- Only elements of the term are operators. -/
theorem mem_of_isOperator (h : Grows targets ids s s') {id : ElementId} (hid : Among ids s s' id)
    (ho : (s'.kind id).isOperator = true) : id ∈ ids := by
  rcases hid with hm | ⟨hge, hlt⟩
  · exact hm
  · have := (h.node id hge hlt).not_isOperator
    rw [kind, this] at ho
    cases ho

theorem modify (h : Grows targets ids s s') {id : ElementId} {f : Element → Element}
    (hid : id ∈ ids) (hf : (s'.get id).Retouched (f (s'.get id))) :
    Grows targets ids s (s'.modify id f) where
  toLater := h.toLater.modify fun _ => ⟨hid, hf⟩
  node other hother hother' := by
    rw [size_modify] at hother'
    have hlater : Later [id] s' (s'.modify id f) :=
      (Later.refl [id] s').modify fun _ => ⟨List.mem_cons_self, hf⟩
    have hn := h.node other hother hother'
    refine hlater.isNode ?_
    by_cases hne : id = other
    · subst hne
      rw [get_modify_self f hother', hf.eq_of_not_isOperator hn.not_isOperator]
      exact hn
    · rw [get_modify_of_ne f hne]
      exact hn

theorem release (h : Grows targets ids s s') {released : List ElementId} (hs : released ⊆ ids) :
    Grows targets ids s (s'.release released) := by
  induction released generalizing s' with
  | nil => exact h
  | cons id rest ih =>
    obtain ⟨hid, hrest⟩ := List.cons_subset.1 hs
    exact ih (h.modify hid (Element.retouched_released _)) hrest

end Grows

end Store

end FormulaSheet
