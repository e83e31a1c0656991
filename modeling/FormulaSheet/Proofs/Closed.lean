/-
  Closed stores: whatever an element refers to is in the store.

  An element refers to its children, to the function that it calls and to its
  owner.

  * `Closed s`: all of these are in the store.
  * The steps of a reduction and the reading of a line keep it (`Steps.closed`,
    `ReadsLine.closed`), so all scripts are closed (`addLine_closed`).
-/
import FormulaSheet.Proofs.Renaming
import FormulaSheet.Proofs.WellFormed

namespace FormulaSheet

/-- Tokens hold no ids. -/
theorem Kind.links_of_isToken {kind : Kind} (h : kind.isToken = true) : kind.links = [] := by
  unfold isToken at h
  split at h <;> first | rfl | cases h

/-- All that an element refers to is before `n`. -/
structure Element.Within (n : Nat) (e : Element) : Prop where
  links : ∀ id ∈ e.kind.links, id < n
  owner : ∀ id, e.owner = some id → id < n

namespace Element.Within

variable {n m : Nat} {e e' : Element}

theorem mono (h : e.Within n) (hnm : n ≤ m) : e.Within m :=
  ⟨fun id hid => Nat.lt_of_lt_of_le (h.links id hid) hnm,
    fun id hid => Nat.lt_of_lt_of_le (h.owner id hid) hnm⟩

theorem of_links_eq_nil (hk : e.kind.links = []) (ho : e.owner = none) (n : Nat) :
    e.Within n := by
  refine ⟨fun id hid => ?_, fun id hid => ?_⟩
  · rw [hk] at hid
    cases hid
  · rw [ho] at hid
    cases hid

/-- A retouched operator refers to its new operands. -/
theorem retouched (h : e.Within n) (hr : e.Retouched e')
    (hc : ∀ id ∈ e'.kind.children, id < n) : e'.Within n := by
  cases hr with
  | same => exact h
  | operator hk hr => exact ⟨hc, h.owner⟩

end Element.Within

namespace Store

/-- Whatever an element refers to is in the store. -/
def Closed (s : Store) : Prop :=
  ∀ id, (s.get id).Within s.size

namespace Closed

variable {s s' : Store}

theorem push (h : s.Closed) {e : Element} (he : e.Within (s.size + 1)) : (s.push e).Closed := by
  intro id
  rw [get_push, size_push]
  split
  · exact he
  · exact (h id).mono (Nat.le_succ _)

theorem modify (h : s.Closed) {id : ElementId} {f : Element → Element}
    (hf : (f (s.get id)).Within s.size) : (s.modify id f).Closed := by
  intro x
  rw [get_modify, size_modify]
  split
  · rename_i hx
    rw [← hx.1]
    exact hf
  · exact h x

/-- An operator is retouched with elements of the store. -/
theorem retouch (h : s.Closed) {id : ElementId} {f : Element → Element}
    (hr : (s.get id).Retouched (f (s.get id)))
    (hc : ∀ x ∈ (f (s.get id)).kind.children, x ∈ (s.kind id).children ∨ x < s.size) :
    (s.modify id f).Closed := by
  refine h.modify ((h id).retouched hr fun x hx => ?_)
  rcases hc x hx with hm | hlt
  · exact (h id).links x (Kind.children_subset_links _ hm)
  · exact hlt

/-- An owner has a child, so it is in the store. -/
theorem setOwners (h : s.Closed) (root : ElementId) : (s.setOwners root).Closed := by
  have hclaimed := claimed_setOwners root s
  intro id
  rw [hclaimed.size_eq]
  rcases hclaimed.get id with he | ⟨-, -, -, parent, -, hchild, he⟩
  · rw [he]
    exact h id
  · rw [he]
    refine ⟨(h id).links, ?_⟩
    rintro _ ⟨⟩
    refine lt_size_of_kind fun hk => ?_
    rw [hk] at hchild
    cases hchild

end Closed

/-- Tokens refer to nothing. -/
theorem Places.closed {s s' : Store} {ids : List ElementId} (h : Places s s' ids)
    (hs : s.Closed) : s'.Closed := by
  intro id
  by_cases hold : id < s.size
  · rw [h.kept id hold]
    exact (hs id).mono h.size_le
  · by_cases hnew : id < s'.size
    · obtain ⟨htoken, -⟩ := h.token id (Nat.not_lt.1 hold) hnew
      exact .of_links_eq_nil (Kind.links_of_isToken htoken.kind) htoken.unowned _
    · rw [get_of_size_le (Nat.not_lt.1 hnew)]
      exact .of_links_eq_nil rfl rfl _

end Store

/-! ## Reductions -/

namespace Term

open Store

variable {c : Context} {ids : List ElementId} {s s' : Store}

/-- What a reduction starts from is in the store. -/
structure Starts (c : Context) (ids : List ElementId) (s : Store) : Prop where
  ids : ∀ id ∈ ids, id < s.size
  function : ∀ f, c.function = some f → f.id < s.size

theorem Starts.mono (h : Starts c ids s) (hs : s.size ≤ s'.size) : Starts c ids s' :=
  ⟨fun id hid => Nat.lt_of_lt_of_le (h.ids id hid) hs,
    fun f hf => Nat.lt_of_lt_of_le (h.function f hf) hs⟩

theorem Starts.lt_of_known (h : Starts c ids s) {id : ElementId} (hk : Known ids s id) :
    id < s.size :=
  hk.elim (h.ids id) fun hlt => hlt

theorem Node.within {kind : Kind} {raw : String} (h : Node c ids s kind raw)
    (hs : Starts c ids s) (line : Nat) :
    Element.Within s.size { kind, raw, line, sealed := true } := by
  refine ⟨fun id hid => ?_, fun id hid => by cases hid⟩
  cases h with
  | array hc =>
    obtain ⟨cell, hcell, rfl⟩ := List.mem_map.1 hid
    exact hs.lt_of_known (hc cell hcell)
  | passThrough => cases hid
  | access hk hc hi =>
    rcases List.mem_cons.1 hid with rfl | hm
    · exact lt_size_of_kind (by simp [hk])
    · exact hs.lt_of_known (hi id hm)
  | call hk hc ha =>
    rcases List.mem_cons.1 hid with rfl | hm
    · exact lt_size_of_callee hs.function hc
    · exact hs.lt_of_known (ha id hm)

theorem Step.closed (h : Step c ids s s') (hs : Starts c ids s) (hc : s.Closed) : s'.Closed := by
  cases h with
  | node h => exact hc.push ((h.within hs c.line).mono (Nat.le_succ _))
  | retouch hid hr hk =>
    exact hc.retouch hr fun x hx => (hk x hx).imp_right fun h => hs.lt_of_known h

theorem Steps.closed (h : Steps c ids s s') (hs : Starts c ids s) (hc : s.Closed) :
    s'.Closed := by
  induction h with
  | refl => exact hc
  | tail h hstep ih => exact hstep.closed (hs.mono (Steps.later h).size_le) ih

theorem Built.closed {root : ElementId} (h : Built c ids s s' root) (hs : Starts c ids s)
    (hc : s.Closed) : s'.Closed ∧ root < s'.size := by
  cases h with
  | term h hr =>
    refine ⟨Steps.closed h hs hc, ?_⟩
    exact (hs.mono (Steps.later h).size_le).lt_of_known (known_of_among hr)
  | @error s₁ e fault h he ho =>
    have hs₁ := hs.mono (Steps.later h).size_le
    refine ⟨(Steps.closed h hs hc).push ⟨fun id hid => ?_, fun id hid => ?_⟩, ?_⟩
    · rw [he] at hid
      exact Nat.lt_succ_of_lt (hs₁.ids id hid)
    · rw [ho] at hid
      cases hid
    · rw [size_push]
      exact Nat.lt_succ_self _

theorem opened_closed (h : s.Closed) (body : List ElementId) : (opened s body).Closed := by
  cases body with
  | nil => exact h
  | cons first rest =>
    refine h.retouch (Element.retouched_openingSign _) fun x hx => Or.inl ?_
    rwa [Element.children_openingSign] at hx

theorem links_withBody {body x : ElementId} {e : Element}
    (h : x ∈ (withBody body e).kind.links) : x = body ∨ x ∈ e.kind.links := by
  unfold withBody at h
  split at h
  · rename_i hk
    rw [hk]
    rcases List.mem_append.1 h with hm | hm
    · exact Or.inr (List.mem_append_left _ hm)
    · exact Or.inl (List.mem_singleton.1 hm)
  · exact Or.inr h

theorem Reads.closed {name : String} {rhs : List ElementId} {content : ElementId} {form : Form}
    (h : Reads c name rhs s s' content form) (hs : Starts c rhs s) (hc : s.Closed) :
    s'.Closed ∧ content < s'.size := by
  cases h with
  | term hf h => exact h.closed hs hc
  | @function s₁ inner body root hi hb h =>
    have hnode : (s.push (functionNode c s inner)).Closed := by
      refine hc.push ⟨fun id hid => ?_, fun id hid => by cases hid⟩
      have hid : id ∈ inner.filter (fun id => (s.kind id).name?.isSome) ++ [] := hid
      rw [List.append_nil] at hid
      exact Nat.lt_succ_of_lt (hs.ids id (hi (List.mem_filter.1 hid).1))
    have hsize : (opened (s.push (functionNode c s inner)) body).size = s.size + 1 := by
      rw [size_opened, size_push]
    have hstarts : Starts { c with function := some ⟨name, s.size,
        inner.filterMap fun id => (s.kind id).name?⟩ } body
        (opened (s.push (functionNode c s inner)) body) := by
      refine ⟨fun id hid => ?_, ?_⟩
      · rw [hsize]
        exact Nat.lt_succ_of_lt (hs.ids id (hb hid))
      · rintro _ ⟨⟩
        rw [hsize]
        exact Nat.lt_succ_self _
    obtain ⟨hclosed, hroot⟩ := h.closed hstarts (opened_closed hnode body)
    have hlt : s.size < s₁.size := by
      refine Nat.lt_of_lt_of_le ?_ h.size_le
      rw [hsize]
      exact Nat.lt_succ_self _
    refine ⟨hclosed.modify ⟨fun x hx => ?_, fun x hx => ?_⟩, by rwa [size_modify]⟩
    · rcases links_withBody hx with rfl | hx
      · exact hroot
      · exact (hclosed _).links x hx
    · rw [owner_withBody] at hx
      exact (hclosed _).owner x hx

end Term

/-! ## Lines -/

open Store

theorem Store.ReadsLine.closed {registry : Registry} {s s' : Store} {r : ElementId × Option String}
    (h : ReadsLine registry s s' r) (hs : s.Closed) : s'.Closed := by
  cases h with
  | plain h he ho =>
    refine (h.closed hs).push (.of_links_eq_nil ?_ ho _)
    rcases he with he | he <;> rw [he] <;> rfl
  | @declaration s₁ s₂ c ids rhs target content form name e h hrhs hb hc hr hv ht he ho =>
    have hstarts : Term.Starts c rhs s₁ :=
      ⟨fun id hid => (hrhs id hid).2, fun f hf => by rw [hc.2] at hf; cases hf⟩
    obtain ⟨hclosed, hcontent⟩ := hr.closed hstarts (h.closed hs)
    have htarget : target < s₂.size := lt_size_of_kind (by simp [ht])
    refine Closed.setOwners (hclosed.push ⟨fun id hid => ?_, fun id hid => ?_⟩) _
    · rw [he] at hid
      rcases List.mem_pair.1 hid with rfl | rfl
      · exact Nat.lt_succ_of_lt htarget
      · exact Nat.lt_succ_of_lt hcontent
    · rw [ho] at hid
      cases hid

/-- Whatever a script refers to is in its store. -/
structure Script.Closed (script : Script) : Prop where
  store : script.store.Closed
  registry : ∀ entry ∈ script.registry.entries, entry.2 < script.store.size

namespace Script

theorem closed_empty : ({} : Script).Closed := by
  refine ⟨fun id => ?_, by simp⟩
  rw [get_of_size_le (Nat.zero_le id)]
  exact .of_links_eq_nil rfl rfl _

/-- **Reading a line keeps scripts closed.** -/
theorem addLine_closed {v : Vocabulary} {state : Script × Log} (hs : state.1.Sound)
    (hc : state.1.Closed) (l : LogicalLine) : (addLine v state l).1.Closed := by
  refine addLine_of_ensures (P := Script.Closed)
    (Q := fun r w => ReadsLine state.1.registry state.1.store w.store r) (fun w hw => ?_) ?_
  · rw [← hw]
    exact read_readsLine (hw ▸ hs.names) v l
  · intro id declared w hread
    have hadds := hread.addsStatement
    obtain ⟨all, hst, hapart⟩ := hadds.statement
    refine ⟨hread.closed hc.store, fun entry hentry => ?_⟩
    have hold : ∀ entry ∈ state.1.registry.entries, entry.2 < w.store.size :=
      fun entry hm => Nat.lt_of_lt_of_le (hc.registry entry hm) hadds.size_le
    rcases state.1.registry.declaring_cases declared id with ⟨he, -⟩ | ⟨name, -, -, he⟩
    · rw [he] at hentry
      exact hold entry hentry
    · rw [he] at hentry
      rcases List.mem_append.1 hentry with hm | hm
      · exact hold entry hm
      · rw [List.mem_singleton.1 hm]
        exact (hapart.mem id hst.mem_self).1

end Script

end FormulaSheet
