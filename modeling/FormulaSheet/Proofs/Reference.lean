/-
  What calls and accesses lead to.

  * `Refers resolve s id`: if the element is a call or an access, it leads to
    what `resolve` says of the name before its parenthesis.
  * `Resolves resolve n s`: all elements from `n` on do.  Every step of a
    reduction keeps that, if `resolve` is what names refer to in its context
    (`Steps.resolves`).
  * `ReadsLine.resolves`: all that a line adds leads to what its names refer to
    before the line, or to the function that the line declares.
-/
import FormulaSheet.Proofs.Statement

namespace FormulaSheet

open Term (Callee callee)

/-- The name before the parenthesis of a call or an access. -/
def Element.calledName (e : Element) : String :=
  String.ofList (e.raw.toList.takeWhile (· != '('))

theorem calledName_callText {s : Store} {name : String} {inner : List ElementId} {e : Element}
    (hr : e.raw = Term.callText s name inner) (hn : '(' ∉ name.toList) : e.calledName = name := by
  have htake : ∀ rest : List Char,
      (name.toList ++ '(' :: rest).takeWhile (· != '(') = name.toList := by
    intro rest
    rw [List.takeWhile_append_of_pos fun c hc => ?_]
    · simp
    · rw [bne_iff_ne]
      rintro rfl
      exact hn hc
  rw [Element.calledName, hr, Term.callText]
  simp only [String.toList_append, List.append_assoc]
  rw [show ("(" : String).toList = ['('] from rfl, List.cons_append, htake, String.ofList_toList]

/-- Calls and accesses. -/
def Kind.isReference : Kind → Bool
  | .access .. | .call .. => true
  | _ => false

namespace Store

variable {resolve : String → Callee} {n : Nat} {s s' : Store}

/-- A call or an access leads to what its name refers to. -/
def Refers (resolve : String → Callee) (s : Store) (id : ElementId) : Prop :=
  match s.kind id with
  | .access target _ =>
    s.kind target = .name (s.get id).calledName ∧ resolve (s.get id).calledName = .indexed
  | .call f _ => f < id ∧ resolve (s.get id).calledName = .function f
  | _ => True

theorem refers_of_not_isReference {id : ElementId} (h : (s.kind id).isReference = false) :
    Refers resolve s id := by
  unfold Refers
  cases hk : s.kind id with
  | access target indexes =>
    rw [hk] at h
    cases h
  | call f arguments =>
    rw [hk] at h
    cases h
  | _ => exact trivial

theorem Refers.congr {id : ElementId} (h : Refers resolve s id) (hk : s'.kind id = s.kind id)
    (hr : (s'.get id).raw = (s.get id).raw)
    (hn : ∀ x name, s.kind x = .name name → s'.kind x = .name name) : Refers resolve s' id := by
  have hname : (s'.get id).calledName = (s.get id).calledName := by
    rw [Element.calledName, hr, Element.calledName]
  unfold Refers at *
  rw [hk, hname]
  cases hkind : s.kind id with
  | access target indexes =>
    rw [hkind] at h
    exact ⟨hn _ _ h.1, h.2⟩
  | _ =>
    rw [hkind] at h
    exact h

/-- From `n` on everything leads to what its name refers to. -/
structure Resolves (resolve : String → Callee) (n : Nat) (s : Store) : Prop where
  plain : ∀ id, (s.kind id).HasPlainName
  refers : ∀ id, n ≤ id → Refers resolve s id

namespace Resolves

/-- Elements that keep their kind and their text lead where they led. -/
theorem congr (h : Resolves resolve n s) (hk : ∀ id, s'.kind id = s.kind id)
    (hr : ∀ id, (s'.get id).raw = (s.get id).raw) : Resolves resolve n s' where
  plain id := by
    rw [hk id]
    exact h.plain id
  refers id hid := (h.refers id hid).congr (hk id) (hr id) fun x name hx => by rw [hk x, hx]

theorem push (h : Resolves resolve n s) {e : Element} (he : e.kind.HasPlainName)
    (hr : Refers resolve (s.push e) s.size) : Resolves resolve n (s.push e) := by
  have hname : ∀ x name, s.kind x = .name name → (s.push e).kind x = .name name := by
    intro x name hk
    rw [kind, get_push_of_lt e (lt_size_of_kind (by simp [hk]))]
    exact hk
  refine ⟨fun id => ?_, fun id hid => ?_⟩
  · rcases Nat.lt_trichotomy id s.size with hlt | rfl | hgt
    · rw [kind, get_push_of_lt e hlt]
      exact h.plain id
    · rw [kind, get_push_size]
      exact he
    · rw [kind, get_of_size_le (by rwa [size_push])]
      intro name hk
      cases hk
  · rcases Nat.lt_trichotomy id s.size with hlt | rfl | hgt
    · have hget := get_push_of_lt e hlt
      exact (h.refers id hid).congr (by rw [kind, hget, kind]) (by rw [hget]) hname
    · exact hr
    · refine refers_of_not_isReference ?_
      rw [kind, get_of_size_le (by rwa [size_push])]
      rfl

/-- An element that is no name, no call and no access becomes another such
    element. -/
theorem modify (h : Resolves resolve n s) {id : ElementId} {f : Element → Element}
    (hid : id < s.size) (hold : ∀ name, s.kind id ≠ .name name)
    (hnew : ∀ name, (f (s.get id)).kind ≠ .name name)
    (hr : (f (s.get id)).kind.isReference = false) : Resolves resolve n (s.modify id f) := by
  have hother : ∀ x, x ≠ id → (s.modify id f).get x = s.get x :=
    fun x hne => get_modify_of_ne f (Ne.symm hne)
  have hself : (s.modify id f).kind id = (f (s.get id)).kind := by
    rw [kind, get_modify_self f hid]
  refine ⟨fun x => ?_, fun x hx => ?_⟩
  · by_cases hne : x = id
    · subst hne
      rw [hself]
      exact fun name hk => absurd hk (hnew name)
    · rw [kind, hother x hne]
      exact h.plain x
  · by_cases hne : x = id
    · subst hne
      exact refers_of_not_isReference (by rw [hself]; exact hr)
    · refine (h.refers x hx).congr ?_ ?_ fun y name hk => ?_
      · rw [kind, hother x hne, kind]
      · rw [hother x hne]
      · rw [kind, hother y fun he => hold name (he ▸ hk)]
        exact hk

theorem retouch (h : Resolves resolve n s) {id : ElementId} {f : Element → Element}
    (hr : (s.get id).Retouched (f (s.get id))) : Resolves resolve n (s.modify id f) := by
  generalize he : f (s.get id) = e at hr
  cases hr with
  | same =>
    have hget := get_modify_of_eq (s := s) fun _ => he
    exact h.congr (fun x => by rw [kind, hget x, kind]) fun x => by rw [hget x]
  | operator hk =>
    refine h.modify (lt_size_of_kind ?_) ?_ ?_ ?_
    · simp [kind, hk]
    · simp [kind, hk]
    · simp [he]
    · rw [he]
      rfl

end Resolves

end Store

open Store

namespace Term

variable {resolve : String → Callee} {n : Nat} {c : Context} {ids : List ElementId} {s s' : Store}

theorem Step.resolves (h : Step c ids s s') (hr : Resolves resolve n s)
    (hc : ∀ name, callee c s name = resolve name)
    (hf : ∀ g, c.function = some g → g.id < s.size) : Resolves resolve n s' := by
  cases h with
  | @node kind raw hnode =>
    refine hr.push ?_ ?_
    · cases hnode <;> exact fun name hk => by cases hk
    · unfold Refers
      rw [Store.kind, get_push_size]
      cases hnode with
      | @access id name indexes inner hk hcallee hi =>
        have hname := calledName_callText (e := ⟨.access id indexes, callText s name inner, c.line,
          true, none⟩) rfl (hr.plain id name hk)
        rw [hname]
        refine ⟨?_, (hc name).symm.trans hcallee⟩
        rw [Store.kind, get_push_of_lt _ (lt_size_of_kind (by simp [hk]))]
        exact hk
      | @call id f name arguments inner hk hcallee ha =>
        have hname := calledName_callText (e := ⟨.call f arguments, callText s name inner, c.line,
          true, none⟩) rfl (hr.plain id name hk)
        rw [hname]
        exact ⟨lt_size_of_callee hf hcallee, (hc name).symm.trans hcallee⟩
      | _ => exact trivial
  | retouch hid hretouched hk => exact hr.retouch hretouched

theorem Steps.resolves (h : Steps c ids s s') (hr : Resolves resolve n s)
    (hc : ∀ name, callee c s name = resolve name)
    (hf : ∀ g, c.function = some g → g.id < s.size) : Resolves resolve n s' := by
  induction h with
  | refl => exact hr
  | @tail s₁ s₂ hsteps hstep ih =>
    refine hstep.resolves ih (fun name => ?_) fun g hg => ?_
    · rw [Steps.callee_eq hsteps]
      exact hc name
    · exact Nat.lt_of_lt_of_le (hf g hg) (Steps.later hsteps).size_le

theorem Built.resolves {root : ElementId} (h : Built c ids s s' root) (hr : Resolves resolve n s)
    (hc : ∀ name, callee c s name = resolve name)
    (hf : ∀ g, c.function = some g → g.id < s.size) : Resolves resolve n s' := by
  cases h with
  | term h _ => exact h.resolves hr hc hf
  | error h he _ =>
    refine (h.resolves hr hc hf).push ?_ (refers_of_not_isReference ?_)
    · intro name hk
      rw [he] at hk
      cases hk
    · rw [Store.kind, get_push_size, he]
      rfl

/-- A term that is built changes operators at most. -/
theorem Built.kind_eq {root x : ElementId} (h : Built c ids s s' root) (hx : x < s.size)
    (ho : (s.kind x).isOperator = false) : s'.kind x = s.kind x := by
  have kept : ∀ {s₁ : Store}, Steps c ids s s₁ → x < s₁.size ∧ s₁.kind x = s.kind x := by
    intro s₁ hs
    refine ⟨Nat.lt_of_lt_of_le hx hs.later.size_le, ?_⟩
    rw [Store.kind, (hs.later.retouched x hx).eq_of_not_isOperator ho, Store.kind]
  cases h with
  | term h _ => exact (kept h).2
  | error h _ _ =>
    rw [Store.kind, get_push_of_lt _ (kept h).1]
    exact (kept h).2

theorem kind_opened {x : ElementId} (ho : (s.kind x).isOperator = false) (body : List ElementId) :
    (opened s body).kind x = s.kind x := by
  by_cases hx : x < s.size
  · rw [Store.kind, ((later_opened s body).retouched x hx).eq_of_not_isOperator ho, Store.kind]
  · rw [Store.kind, Store.kind, get_of_size_le (Nat.not_lt.1 hx),
      get_of_size_le (by rw [size_opened]; exact Nat.not_lt.1 hx)]

theorem resolves_opened (hr : Resolves resolve n s) (body : List ElementId) :
    Resolves resolve n (opened s body) := by
  cases body with
  | nil => exact hr
  | cons first rest => exact hr.retouch (Element.retouched_openingSign _)

/-- The parameters of a function are named as its open function says. -/
theorem map_kind_filter (hn : ∀ x name, s.kind x = .name name → s'.kind x = .name name)
    (inner : List ElementId) :
    (inner.filter fun id => (s.kind id).name?.isSome).map s'.kind =
      (inner.filterMap fun id => (s.kind id).name?).map .name := by
  induction inner with
  | nil => rfl
  | cons x inner ih =>
    cases hk : (s.kind x).name? with
    | none => simpa [hk] using ih
    | some name =>
      have hx : s'.kind x = .name name := by
        refine hn x name ?_
        unfold Kind.name? at hk
        split at hk
        · rename_i hkind
          cases hk
          exact hkind
        · cases hk
      simp [hk, hx, ih]

end Term

/-! ## Lines -/

namespace Store

/-- The name that a statement declares. -/
def declares? (s : Store) (statement : ElementId) : Option String :=
  match s.kind statement with
  | .declaration target _ _ => (s.kind target).name?
  | _ => none

theorem ReadsLine.declares?_eq {registry : Registry} {s s' : Store}
    {r : ElementId × Option String} (h : ReadsLine registry s s' r) : s'.declares? r.1 = r.2 := by
  cases h with
  | @plain s₁ ids e h he ho =>
    unfold declares?
    rw [kind, get_push_size]
    rcases he with he | he <;> rw [he]
  | @declaration s₁ s₂ c ids rhs target content form name e h hrhs hb hc hr hv ht he ho =>
    have hclaimed := claimed_setOwners s₂.size (s₂.push e)
    have hlt : target < s₂.size := lt_size_of_kind (by simp [ht])
    unfold declares?
    rw [hclaimed.kind_eq, kind, get_push_size, he]
    dsimp only
    rw [hclaimed.kind_eq, kind, get_push_of_lt e hlt, ← kind, ht]
    rfl

/-- The statement is the last element that its line adds. -/
theorem ReadsLine.size_eq {registry : Registry} {s s' : Store} {r : ElementId × Option String}
    (h : ReadsLine registry s s' r) : s.size ≤ r.1 ∧ s'.size = r.1 + 1 := by
  cases h with
  | plain h he ho => exact ⟨h.size_le, size_push ..⟩
  | @declaration s₁ s₂ c ids rhs target content form name e h hrhs hb hc hr hv ht he ho =>
    have hclaimed := claimed_setOwners s₂.size (s₂.push e)
    exact ⟨Nat.le_trans h.size_le hb.size_le, hclaimed.size_eq.trans (size_push ..)⟩

/-- Tokens lead nowhere. -/
theorem Places.resolves {s s₁ : Store} {ids : List ElementId} (h : Places s s₁ ids)
    (hplain : ∀ id, (s.kind id).HasPlainName) (resolve : String → Callee) :
    Resolves resolve s.size s₁ := by
  refine ⟨fun id => ?_, fun id hid => refers_of_not_isReference ?_⟩
  · by_cases hlt : id < s.size
    · rw [kind, h.kept id hlt]
      exact hplain id
    · by_cases hlt' : id < s₁.size
      · exact (h.token id (Nat.not_lt.1 hlt) hlt').2
      · rw [kind, get_of_size_le (Nat.not_lt.1 hlt')]
        intro name hk
        cases hk
  · by_cases hlt : id < s₁.size
    · have hk := (h.token id hid hlt).1.kind
      cases hkind : s₁.kind id with
      | access target indexes =>
        rw [← kind, hkind] at hk
        cases hk
      | call f arguments =>
        rw [← kind, hkind] at hk
        cases hk
      | _ => rfl
    · rw [kind, get_of_size_le (Nat.not_lt.1 hlt)]
      rfl

end Store

namespace Term

/-- A value that is read names functions as the context does; inside a function
    also as its open function says. -/
theorem Reads.resolves {registry : Registry} {c : Context} {s s₁ s₂ : Store}
    {rhs ids : List ElementId} {name : String} {content : ElementId} {form : Form}
    (h : Reads c name rhs s₁ s₂ content form) (hplaces : Places s s₁ ids)
    (hc : c.registry = registry ∧ c.function = none) (hreg : registry.Names s)
    (hplain : ∀ id, (s.kind id).HasPlainName) :
    ∃ fn : Option OpenFunction,
      Resolves (callee { registry, function := fn } s) s.size s₂ ∧
      ∀ f, fn = some f → f.name = name ∧ content = f.id ∧ form = .function ∧
        ∃ parameters body, s₂.kind f.id = .function parameters (some body) ∧
          parameters.map s₂.kind = f.parameters.map .name := by
  obtain ⟨rfl, hnone⟩ := hc
  have htokens := fun resolve => hplaces.resolves hplain resolve
  have hbefore : ∀ x < s.size, s₁.kind x = s.kind x := fun x hx => by
    rw [Store.kind, hplaces.kept x hx, Store.kind]
  cases h with
  | term hf hbuilt =>
    refine ⟨none, hbuilt.resolves (htokens _) (fun n => ?_) (by simp [hnone]), by simp⟩
    rw [hreg.callee_eq rfl fun x hx => Or.inl (hbefore x hx)]
    unfold callee
    rw [hnone]
  | @function s' inner body root hi hb hbuilt =>
    generalize hnames : inner.filterMap (fun id => (s₁.kind id).name?) = names at hbuilt
    generalize hnode : functionNode c s₁ inner = node at hbuilt
    generalize hopened : opened (s₁.push node) body = s₃ at hbuilt
    have hsize : s₃.size = s₁.size + 1 := by rw [← hopened, size_opened, size_push]
    -- What is no operator stays until the body is built.
    have hkept : ∀ x < s₁.size + 1, ((s₁.push node).kind x).isOperator = false →
        s'.kind x = (s₁.push node).kind x := by
      intro x hx ho
      have hk : s₃.kind x = (s₁.push node).kind x := by rw [← hopened, kind_opened ho]
      rw [hbuilt.kind_eq (by rwa [hsize]) (by rw [hk, ho]), hk]
    have hfunction : s'.kind s₁.size =
        .function (inner.filter fun id => (s₁.kind id).name?.isSome) none := by
      rw [hkept _ (Nat.lt_succ_self _) (by rw [Store.kind, get_push_size, ← hnode]; rfl),
        Store.kind, get_push_size, ← hnode]
      rfl
    have hlt : s₁.size < s'.size := lt_size_of_kind (by simp [hfunction])
    have hgiven : (withBody root (s'.get s₁.size)).kind =
        .function (inner.filter fun id => (s₁.kind id).name?.isSome) (some root) := by
      rw [Store.kind] at hfunction
      rw [withBody, hfunction]
    have hbody : (s'.modify s₁.size (withBody root)).kind s₁.size =
        .function (inner.filter fun id => (s₁.kind id).name?.isSome) (some root) := by
      rw [Store.kind, get_modify_self _ hlt, hgiven]
    have hname : ∀ x name, s₁.kind x = .name name →
        (s'.modify s₁.size (withBody root)).kind x = .name name := by
      intro x name hk
      have hx : x < s₁.size := lt_size_of_kind (by simp [hk])
      have hpush : (s₁.push node).kind x = .name name := by
        rw [Store.kind, get_push_of_lt _ hx]
        exact hk
      rw [Store.kind, get_modify_of_ne _ (Nat.ne_of_gt hx), ← Store.kind,
        hkept x (Nat.lt_succ_of_lt hx) (by rw [hpush]; rfl), hpush]
    refine ⟨some ⟨name, s₁.size, names⟩, ?_, ?_⟩
    · have hr₃ : Resolves (callee
          { registry := c.registry, function := some ⟨name, s₁.size, names⟩ } s) s.size s₃ := by
        rw [← hopened]
        refine resolves_opened ((htokens _).push ?_ (refers_of_not_isReference ?_)) body
        · rw [← hnode]
          intro name hk
          cases hk
        · rw [Store.kind, get_push_size, ← hnode]
          rfl
      have hr' := hbuilt.resolves hr₃ (fun n => ?_) ?_
      · exact hr'.modify hlt (by simp [hfunction]) (by simp [hgiven]) (by rw [hgiven]; rfl)
      · rw [hreg.callee_eq (c := { c with function := some ⟨name, s₁.size, names⟩ }) rfl
          fun x hx => ?_]
        · rfl
        · have hlt := Nat.lt_of_lt_of_le hx hplaces.size_le
          have hr := (later_opened (s₁.push node) body).retouched x
            (by rw [size_push]; exact Nat.lt_succ_of_lt hlt)
          rw [get_push_of_lt node hlt, hplaces.kept x hx, hopened] at hr
          exact hr.isBinding
      · rintro g ⟨⟩
        rw [hsize]
        exact Nat.lt_succ_self _
    · rintro f ⟨⟩
      refine ⟨rfl, rfl, rfl, _, _, hbody, ?_⟩
      rw [← hnames]
      exact map_kind_filter hname inner

end Term

/-- **The names of a line** refer to what was declared before it, or to the
    function that it declares. -/
theorem Store.ReadsLine.resolves {registry : Registry} {s s' : Store}
    {r : ElementId × Option String} (h : ReadsLine registry s s' r) (hreg : registry.Names s)
    (hplain : ∀ id, (s.kind id).HasPlainName) :
    ∃ fn : Option Term.OpenFunction,
      Resolves (callee { registry, function := fn } s) s.size s' ∧
      ∀ f, fn = some f → r.2 = some f.name ∧ ∃ target parameters body,
        s'.kind r.1 = .declaration target f.id .function ∧
        s'.kind f.id = .function parameters (some body) ∧
        parameters.map s'.kind = f.parameters.map .name := by
  cases h with
  | @plain s₁ ids e h he ho =>
    refine ⟨none, (h.resolves hplain _).push ?_ (refers_of_not_isReference ?_), by simp⟩
    · intro name hk
      rcases he with he | he <;> rw [he] at hk <;> cases hk
    · rw [kind, get_push_size]
      rcases he with he | he <;> rw [he] <;> rfl
  | @declaration s₁ s₂ c ids rhs target content form name e h hrhs hb hc hr hv ht he ho =>
    have hclaimed := claimed_setOwners s₂.size (s₂.push e)
    have hdecl : (s₂.push e).kind s₂.size = .declaration target content form := by
      rw [kind, get_push_size, he]
    have hold : ∀ x, s₂.kind x ≠ .blank →
        ((s₂.push e).setOwners s₂.size).kind x = s₂.kind x := by
      intro x hx
      rw [hclaimed.kind_eq, kind, get_push_of_lt e (lt_size_of_kind hx), kind]
    obtain ⟨fn, hresolves, hfn⟩ := hr.resolves h hc hreg hplain
    refine ⟨fn, (hresolves.push ?_ (refers_of_not_isReference ?_)).congr hclaimed.kind_eq
      hclaimed.raw_eq, fun f hf => ?_⟩
    · intro name hk
      rw [he] at hk
      cases hk
    · rw [hdecl]
      rfl
    · obtain ⟨hname, rfl, rfl, parameters, body, hk, hps⟩ := hfn f hf
      refine ⟨by rw [hname], target, parameters, body, ?_, ?_, ?_⟩
      · rw [hclaimed.kind_eq, hdecl]
      · rw [hold _ (by simp [hk]), hk]
      · rw [← hps]
        refine List.map_congr_left fun p hp => hold p fun hblank => ?_
        have hmem : s₂.kind p ∈ f.parameters.map Kind.name := hps ▸ List.mem_map_of_mem hp
        obtain ⟨name, -, hname⟩ := List.mem_map.1 hmem
        rw [hblank] at hname
        cases hname

end FormulaSheet
