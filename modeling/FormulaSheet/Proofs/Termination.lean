/-
  Renderings that end.

  A scope is good if the arguments it binds end under the scopes they are
  written under.  The bodies of functions are taken in the order of the
  functions: the body of `f` calls functions up to `f`, and `f` itself is being
  replaced there, so it stays a call.  Only inside an access, where the scope is
  empty, a call of `f` would be replaced again.  If there is no such call, every
  rendering ends.
-/
import FormulaSheet.Proofs.Depth
import FormulaSheet.Proofs.WellFormed

namespace FormulaSheet

namespace Render

open Rendering Store

variable {script : Script} {inlining : Bool} {id : ElementId} {scope : Scope}

/-! ## Good scopes -/

/-- The recursion below an element under a scope ends. -/
def Terminates (script : Script) (inlining : Bool) (id : ElementId) (scope : Scope) : Prop :=
  ∃ n, EndsWithin script inlining n id scope

theorem terminates_of_requests
    (h : ∀ r ∈ requests script inlining id scope, Terminates script inlining r.1 r.2) :
    Terminates script inlining id scope := by
  have bound : ∀ rs : List (ElementId × Scope), (∀ r ∈ rs, Terminates script inlining r.1 r.2) →
      ∃ n, ∀ r ∈ rs, EndsWithin script inlining n r.1 r.2 := by
    intro rs
    induction rs with
    | nil => exact fun _ => ⟨0, by simp⟩
    | cons r rs ih =>
      intro hrs
      obtain ⟨⟨n, hn⟩, hrs⟩ := List.forall_mem_cons.1 hrs
      obtain ⟨m, hm⟩ := ih hrs
      refine ⟨max n m, List.forall_mem_cons.2 ⟨hn.mono (Nat.le_max_left n m), fun x hx => ?_⟩⟩
      exact (hm x hx).mono (Nat.le_max_right n m)
  obtain ⟨n, hn⟩ := bound _ h
  exact ⟨n + 1, hn⟩

/-- An element ends if it hands its scope on to its children, and they end. -/
theorem terminates_of_children
    (hreq : requests script inlining id scope = (script.store.kind id).children.map (·, scope))
    (h : ∀ child ∈ (script.store.kind id).children, Terminates script inlining child scope) :
    Terminates script inlining id scope := by
  refine terminates_of_requests fun r hr => ?_
  rw [hreq] at hr
  obtain ⟨child, hchild, rfl⟩ := List.mem_map.1 hr
  exact h child hchild

/-- Every argument that is bound ends under the scope of its call. -/
def Good (script : Script) (inlining : Bool) : Scope → Prop
  | [] => True
  | frame :: outer =>
    (∀ binding ∈ frame.bindings, Terminates script inlining binding.2 outer) ∧
      Good script inlining outer

theorem Good.push (h : Good script inlining scope) {arguments : List ElementId}
    (ha : ∀ a ∈ arguments, Terminates script inlining a scope) (function : ElementId)
    (parameters : List ElementId) :
    Good script inlining (⟨function, bind script.store parameters arguments⟩ :: scope) :=
  ⟨fun binding hb => ha binding.2 (List.of_mem_zip hb).2, h⟩

/-- A name under a good scope ends. -/
theorem terminates_name (h : Good script inlining scope) {name : String}
    (hk : script.store.kind id = .name name) : Terminates script inlining id scope := by
  refine terminates_of_requests fun r hr => ?_
  unfold requests at hr
  rw [hk] at hr
  cases scope with
  | nil => simp [Scope.argument?] at hr
  | cons frame outer =>
    simp only [Scope.argument?, Frame.argument?, Option.mem_toList, Option.map_eq_some_iff] at hr
    obtain ⟨argument, ⟨binding, hb, rfl⟩, rfl⟩ := hr
    exact h.1 binding (List.mem_of_find?_eq_some hb)

theorem terminates_of_leaf (hk : ∀ scope, requests script inlining id scope = []) :
    Terminates script inlining id scope :=
  terminates_of_requests fun r hr => by
    rw [hk scope] at hr
    cases hr

/-! ## Trees -/

/-- `id` lies inside an index of an access in the tree of `root`. -/
def Indexed (s : Store) (root id : ElementId) : Prop :=
  ∃ access target indexes index, Below s root access ∧ s.kind access = .access target indexes ∧
    index ∈ indexes ∧ Below s index id

theorem Indexed.child {s : Store} {root child : ElementId} (hc : child ∈ (s.kind root).children)
    (h : Indexed s child id) : Indexed s root id := by
  obtain ⟨access, target, indexes, index, hb, hk, hm, hid⟩ := h
  exact ⟨access, target, indexes, index, (Below.root.child hc).trans hb, hk, hm, hid⟩

/-- The bodies of the functions before `b` end wherever they replace a call. -/
def BodiesEnd (script : Script) (inlining : Bool) (b : ElementId) : Prop :=
  ∀ g < b, ∀ parameters body arguments scope,
    script.store.kind g = .function parameters (some body) → Good script inlining scope →
    (∀ a ∈ arguments, Terminates script inlining a scope) →
    Terminates script inlining body (⟨g, bind script.store parameters arguments⟩ :: scope)

/-- A call ends if it stays a call or its function is before `b`. -/
theorem terminates_call {b : ElementId} (hb : inlining = true → BodiesEnd script inlining b)
    (hgood : Good script inlining scope) {function : ElementId} {arguments : List ElementId}
    (hk : script.store.kind id = .call function arguments)
    (hf : script.store.IsFunction function)
    (hcall : inlining = true → function < b ∨ scope.holds function = true)
    (ha : ∀ a ∈ arguments, Terminates script inlining a scope) :
    Terminates script inlining id scope := by
  obtain ⟨parameters, body, hf⟩ := hf
  by_cases hstays : (!inlining || scope.holds function) = true
  · refine terminates_of_children ?_ (by rwa [hk])
    simp only [requests, hk, hf, hstays, if_true, Kind.children]
  · simp only [Bool.or_eq_true, Bool.not_eq_true', not_or, Bool.not_eq_false] at hstays
    obtain ⟨hi, hheld⟩ := hstays
    have hlt := (hcall hi).resolve_right hheld
    refine terminates_of_requests fun r hr => ?_
    simp only [requests, hk, hf, hi, hheld, Bool.not_true, Bool.false_or, Option.toList_some,
      List.map_cons, List.map_nil] at hr
    obtain rfl := List.mem_singleton.1 hr
    exact hb hi function hlt parameters body arguments scope hf hgood ha

/-- Trees end if their calls are of functions before `b` or stay calls. -/
theorem terminates_forest {b : ElementId} (hb : inlining = true → BodiesEnd script inlining b)
    {roots all : List ElementId} (h : Forest script.store roots all)
    (hin : ∀ id ∈ all, (script.store.get id).InTerm script.store script.store.IsFunction)
    (hgood : Good script inlining scope)
    (hcall : inlining = true → ∀ c ∈ all, ∀ g arguments,
      script.store.kind c = .call g arguments → g < b ∨ scope.holds g = true)
    (hindex : inlining = true → ∀ root ∈ roots, ∀ c, Indexed script.store root c →
      ∀ g arguments, script.store.kind c = .call g arguments → g < b) :
    ∀ root ∈ roots, Terminates script inlining root scope := by
  induction h generalizing scope with
  | nil => simp
  | @cons id roots below rest hbelow hrest ihbelow ihrest =>
    refine List.forall_mem_cons.2 ⟨?_, ihrest (fun x hx => hin x (by simp [hx])) hgood
      (fun hi x hx => hcall hi x (by simp [hx]))
      (fun hi root hroot => hindex hi root (List.mem_cons_of_mem id hroot))⟩
    have hin' : ∀ x ∈ below, (script.store.get x).InTerm script.store script.store.IsFunction :=
      fun x hx => hin x (by simp [hx])
    have hindex' : inlining = true → ∀ child ∈ (script.store.kind id).children, ∀ c,
        Indexed script.store child c → ∀ g arguments,
        script.store.kind c = .call g arguments → g < b :=
      fun hi child hchild c hc => hindex hi id List.mem_cons_self c (hc.child hchild)
    have hchildren := ihbelow hin' hgood (fun hi x hx => hcall hi x (by simp [hx])) hindex'
    have hid := hin id List.mem_cons_self
    unfold Element.InTerm at hid
    rw [← Store.kind] at hid
    cases hk : script.store.kind id with
    | name name => exact terminates_name hgood hk
    | access target indexes =>
      simp only [hk] at hid
      obtain ⟨name, htarget⟩ := hid
      -- Below an access the scope is empty, and all calls are inside an index.
      have hempty : ∀ child ∈ (script.store.kind id).children,
          Terminates script inlining child [] := by
        refine ihbelow hin' trivial (fun hi c hc g arguments hg => ?_) hindex'
        obtain ⟨child, hchild, hbc⟩ := hbelow.exists_below hc
        rw [hk] at hchild
        rcases List.mem_cons.1 hchild with rfl | hchild
        · rw [hbc.eq_of_leaf (by rw [htarget]; rfl), htarget] at hg
          cases hg
        · exact Or.inl (hindex hi id List.mem_cons_self c
            ⟨id, target, indexes, child, .root, hk, hchild, hbc⟩ g arguments hg)
      refine terminates_of_requests fun r hr => ?_
      unfold requests at hr
      rw [hk] at hr hempty
      obtain ⟨x, hx, rfl⟩ := List.mem_map.1 hr
      exact hempty x hx
    | call function arguments =>
      simp only [hk] at hid
      rw [hk] at hchildren
      exact terminates_call hb hgood hk hid
        (fun hi => hcall hi id List.mem_cons_self function arguments hk) hchildren
    | error fault ids => exact terminates_of_leaf fun scope => by simp [requests, hk]
    | blank => simp [hk] at hid
    | function parameters body => simp [hk] at hid
    | declaration target content form => simp [hk] at hid
    | _ => exact terminates_of_children (by simp [requests, hk]) hchildren

/-- Bodies end if their calls are of functions before `b` or stay calls. -/
theorem terminates_of_body {b : ElementId} (hb : inlining = true → BodiesEnd script inlining b)
    {targets : ElementId → Prop} {root : ElementId} {all : List ElementId}
    (h : Body targets script.store root all)
    (htargets : ∀ g, targets g → script.store.IsFunction g)
    (hgood : Good script inlining scope)
    (hcall : inlining = true → ∀ g, targets g → g < b ∨ scope.holds g = true)
    (hindex : inlining = true → ∀ c, Indexed script.store root c → ∀ g arguments,
      script.store.kind c = .call g arguments → targets g → g < b) :
    Terminates script inlining root scope := by
  rcases h.finished with hall | ⟨fault, ids, hk, -⟩
  · have htarget : ∀ c ∈ all, ∀ g arguments, script.store.kind c = .call g arguments →
        targets g := by
      intro c hc g arguments hk
      have hin := (hall c hc).2
      unfold Element.InTerm at hin
      rwa [← Store.kind, hk] at hin
    refine terminates_forest hb h.forest (fun id hid => (hall id hid).2.mono htargets) hgood
      (fun hi c hc g arguments hk => hcall hi g (htarget c hc g arguments hk)) ?_ root
      List.mem_cons_self
    intro hi root' hroot c hc g arguments hk
    obtain rfl := List.mem_singleton.1 hroot
    refine hindex hi c hc g arguments hk (htarget c ?_ g arguments hk)
    obtain ⟨access, target, indexes, index, hbelow, haccess, hindex, hbc⟩ := hc
    have hchild : index ∈ (script.store.kind access).children := by
      rw [haccess]
      exact List.mem_cons_of_mem target hindex
    exact h.forest.mem_of_below (h.forest.subset List.mem_cons_self)
      ((hbelow.child hchild).trans hbc)
  · exact terminates_of_leaf fun scope => by simp [requests, hk]

/-! ## Scripts -/

/-- No call inside an index of an access lies in the body of the function it
    calls. -/
def NoSelfIndexing (s : Store) : Prop :=
  ∀ f parameters body, s.kind f = .function parameters (some body) →
    ∀ c, Indexed s body c → ∀ arguments, s.kind c ≠ .call f arguments

/-- Every index of an access is a leaf and not a call. -/
def plainIndexes (s : Store) : Bool :=
  (List.range s.size).all fun id =>
    match s.kind id with
    | .access _ indexes => indexes.all fun index =>
      (s.kind index).children.isEmpty && !(s.kind index matches .call ..)
    | _ => true

theorem noSelfIndexing_of_plainIndexes {s : Store} (h : plainIndexes s = true) :
    NoSelfIndexing s := by
  rintro f parameters body - c ⟨access, target, indexes, index, -, hk, hm, hc⟩ arguments hcall
  have hlt : access < s.size := lt_size_of_kind (by simp [hk])
  have hindex := List.all_eq_true.1 h access (List.mem_range.2 hlt)
  rw [hk] at hindex
  have hleaf := List.all_eq_true.1 hindex index hm
  rw [Bool.and_eq_true, List.isEmpty_iff] at hleaf
  rw [hc.eq_of_leaf hleaf.1] at hcall
  simp [hcall] at hleaf

theorem bodiesEnd (h : script.Sound) (hs : NoSelfIndexing script.store) (b : ElementId) :
    BodiesEnd script inlining b := by
  induction b using Nat.strongRecOn with
  | _ b ih =>
    intro g hg parameters body arguments scope hk hgood ha
    obtain ⟨id, target, _, ⟨⟩, hdecl⟩ := h.declares hk
    obtain ⟨all, hbody⟩ := hdecl.body
    refine terminates_of_body (fun _ => ih g hg) hbody (fun f hf => hf.1)
      (hgood.push ha g parameters) (fun _ f hf => ?_) fun _ c hc f args hcall hf => ?_
    · rcases Nat.lt_or_eq_of_le hf.2 with hlt | rfl
      · exact Or.inl hlt
      · exact Or.inr (by simp [Scope.holds])
    · rcases Nat.lt_or_eq_of_le hf.2 with hlt | rfl
      · exact hlt
      · exact absurd hcall (hs f parameters body hk c hc args)

/-- Every statement ends, unless a function is called inside an index in its own
    body. -/
theorem terminates_of_mem_statements (h : script.Sound)
    (hs : inlining = false ∨ NoSelfIndexing script.store) (hid : id ∈ script.statements) :
    Terminates script inlining id [] := by
  have hb : inlining = true → BodiesEnd script inlining script.store.size := by
    intro hi
    refine bodiesEnd h (hs.resolve_left ?_) _
    simp [hi]
  have hbody : ∀ {targets : ElementId → Prop} {root : ElementId} {all : List ElementId},
      Body targets script.store root all → (∀ g, targets g → script.store.IsFunction g) →
      Terminates script inlining root [] := by
    intro targets root all hbody ht
    exact terminates_of_body hb hbody ht trivial
      (fun _ g hg => Or.inl (lt_size_of_isFunction (ht g hg)))
      fun _ _ _ g _ _ hg => lt_size_of_isFunction (ht g hg)
  obtain ⟨all, hst, -⟩ := h.statement id hid
  cases hst with
  | line hk =>
    refine terminates_of_leaf fun scope => ?_
    rcases hk with hk | hk <;> simp [requests, hk, Kind.children]
  | value hk ht hbd hform =>
    refine terminates_of_children (by simp [requests, hk]) ?_
    rw [hk]
    simp only [Kind.children, List.forall_mem_cons]
    exact ⟨terminates_name trivial ht, hbody hbd fun _ h => h, by simp⟩
  | @function target f body name parameters all hk ht hf hp hbd =>
    refine terminates_of_children (by simp [requests, hk]) ?_
    rw [hk]
    simp only [Kind.children, List.forall_mem_cons]
    refine ⟨terminates_name trivial ht, terminates_of_children (by simp [requests, hf]) ?_, by simp⟩
    rw [hf]
    intro child hchild
    rcases List.mem_append.1 hchild with hm | hm
    · obtain ⟨name, hname⟩ := hp child hm
      exact terminates_name trivial hname
    · rw [List.mem_singleton.1 hm]
      exact hbody hbd fun _ h => h.1

theorem ends_renderElement {options : RenderOptions}
    (h : EndsWithin script options.inlining (depthBound script.store) id []) :
    Ends (renderElement script options id) := by
  refine (ends_renderWithin h _).bind fun text => ?_
  split
  · exact ends_pure _
  · exact ends_pure _
  · exact ends_pure _

/-- The lines of statements that end. -/
theorem exists_renderLines {options : RenderOptions} {ids : List ElementId}
    (h : ∀ id ∈ ids, Ends (renderElement script options id)) (log : Log) :
    ∃ r, StateT.run (ids.mapM (renderStatement script options)) log = some r := by
  induction ids generalizing log with
  | nil => exact ⟨_, rfl⟩
  | cons id ids ih =>
    obtain ⟨hid, hids⟩ := List.forall_mem_cons.1 h
    obtain ⟨⟨r, log'⟩, hrun⟩ := hid log
    have hstatement : ∃ text log₂, StateT.run (renderStatement script options id) log =
        some (text, log₂) := by
      rw [renderStatement, StateT.run_bind]
      rw [runFrom] at hrun
      rw [hrun]
      cases r with
      | ok text => exact ⟨text, log', rfl⟩
      | error fault => exact ⟨_, _, rfl⟩
    obtain ⟨text, log₂, hrun⟩ := hstatement
    obtain ⟨⟨texts, log₃⟩, hrest⟩ := ih hids log₂
    rw [List.mapM_cons, StateT.run_bind, hrun]
    show ∃ r, StateT.run (ids.mapM (renderStatement script options) >>= fun texts =>
      pure (text :: texts)) log₂ = some r
    rw [StateT.run_bind, hrest]
    exact ⟨_, rfl⟩

end Render

open Render Rendering

/-- **Rendering ends**, unless a function is called inside an index in its own
    body: from some depth on a rendering has a result that does not depend on
    the depth. -/
theorem render_ends {v : Vocabulary} {lines : List String} {script : Script}
    (h : Script.parse v lines = .ok script) (options : RenderOptions)
    (hs : options.inlining = false ∨ NoSelfIndexing script.store) :
    (∀ id ∈ script.statements,
      (∃ depth, ∀ log, ∃ r, ∀ n, depth ≤ n →
        runFrom (renderWithin script options n id (script.store.get id).owner []) log = some r) ∧
      ∀ log, ∃ r, runFrom (renderElement script options id) log = some r) ∧
    ∃ texts, script.render options = some texts := by
  have hsound := Script.parse_sound h
  have hends : ∀ id ∈ script.statements,
      EndsWithin script options.inlining (depthBound script.store) id [] := by
    intro id hid
    obtain ⟨n, hn⟩ := terminates_of_mem_statements hsound hs hid
    exact endsWithin_depthBound (chain_nil _) hn
  refine ⟨fun id hid => ⟨⟨depthBound script.store, fun log => ?_⟩, ?_⟩, ?_⟩
  · obtain ⟨r, hr⟩ := ends_renderWithin (hends id hid) (script.store.get id).owner log
    exact ⟨r, fun n hn => refines_renderWithin hn id _ [] log r hr⟩
  · exact ends_renderElement (hends id hid)
  · obtain ⟨⟨texts, log⟩, hr⟩ :=
      exists_renderLines (fun id hid => ends_renderElement (hends id hid)) #[]
    exact ⟨texts, by rw [Script.render, Script.renderLog, hr]; rfl⟩

/-- A function that calls itself and has an access in its body. -/
theorem render_ends_recursive :
    ∃ script, Script.parse {} ["a = [1 2]", "f = @(x) a(x) * f(x)", "y = f(a(1))"] = .ok script ∧
      NoSelfIndexing script.store ∧
      (∀ id ∈ script.statements,
        (∃ depth, ∀ log, ∃ r, ∀ n, depth ≤ n →
          runFrom (renderWithin script {} n id (script.store.get id).owner []) log = some r) ∧
        ∀ log, ∃ r, runFrom (renderElement script {} id) log = some r) ∧
      ∃ texts, script.render {} = some texts := by
  have hfacts : ∃ script ∈ (Script.parse {} ["a = [1 2]", "f = @(x) a(x) * f(x)",
      "y = f(a(1))"]).toOption, plainIndexes script.store = true := by decide +kernel
  obtain ⟨script, hscript, hplain⟩ := hfacts
  have hparse := Script.parse_of_mem hscript
  have hs := noSelfIndexing_of_plainIndexes hplain
  exact ⟨script, hparse, hs, render_ends hparse {} (Or.inr hs)⟩

end FormulaSheet
