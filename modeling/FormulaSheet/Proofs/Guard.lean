/-
  The recursion guard: only direct recursion stays a call.

  With inlining, a call is replaced by the body of its function unless that
  function is being replaced already.  In a script that has been read this
  happens only to a call in the body of its own function.

  * `InBody s f id`: the element lies in the body of the function `f`.
  * `Visits script options statement r`: writing the statement comes to the
    request `r`, an element inside a parent and under a scope.
  * `InScope script id scope`: the element lies in the body of the innermost
    function, the arguments of a frame in that of the next one, and the functions
    increase from the innermost to the outermost.  Every step keeps that
    (`InScope.request`), since the body of a function calls only functions up to
    itself (`le_of_inBody`).
  * `guard_of_parse`: what this says of the calls that are written.
-/
import FormulaSheet.Proofs.Inlining
import FormulaSheet.Proofs.Termination

namespace FormulaSheet

open Store Render Rendering

/-! ## Bodies -/

namespace Store

/-- `id` lies in the body of the function `f`. -/
def InBody (s : Store) (f id : ElementId) : Prop :=
  ∃ parameters body, s.kind f = .function parameters (some body) ∧ Below s body id

theorem InBody.child {s : Store} {f id child : ElementId} (h : InBody s f id)
    (hc : child ∈ (s.kind id).children) : InBody s f child := by
  obtain ⟨parameters, body, hf, hb⟩ := h
  exact ⟨parameters, body, hf, hb.child hc⟩

theorem Body.target {targets : ElementId → Prop} {s : Store} {root id g : ElementId}
    {all arguments : List ElementId} (h : Body targets s root all) (hb : Below s root id)
    (hk : s.kind id = .call g arguments) : targets g := by
  have target : (s.get id).InTerm s targets → targets g := by
    intro hin
    unfold Element.InTerm at hin
    rwa [← kind, hk] at hin
  rcases h.finished with hall | ⟨fault, ids, hroot, hleaf⟩
  · exact target (hall id (h.forest.mem_of_below (h.forest.subset List.mem_cons_self) hb)).2
  · -- Below an error there are only leaves.
    have hids : id = root ∨ id ∈ ids := by
      clear hk target
      induction hb with
      | root => exact Or.inl rfl
      | @child id child _ hc ih =>
        rcases ih with rfl | hm
        · rw [hroot] at hc
          exact Or.inr hc
        · rw [(hleaf id hm).1] at hc
          cases hc
    rcases hids with rfl | hm
    · rw [hroot] at hk
      cases hk
    · exact target (hleaf id hm).2

end Store

/-- The body of a function calls no later function. -/
theorem Script.Sound.le_of_inBody {script : Script} (hs : script.Sound) {f id g : ElementId}
    {arguments : List ElementId} (h : InBody script.store f id)
    (hk : script.store.kind id = .call g arguments) : g ≤ f := by
  obtain ⟨parameters, body, hf, hb⟩ := h
  obtain ⟨d, target, b, hbody, hdecl⟩ := hs.declares hf
  cases hbody
  obtain ⟨all, hall⟩ := hdecl.body
  exact (hall.target hb hk).2

/-! ## Steps of a rendering -/

namespace Render

/-- Writing the statement comes to a request: the plan of another one asks for
    it. -/
inductive Visits (script : Script) (options : RenderOptions) (statement : ElementId) :
    Request → Prop
  | start : Visits script options statement ⟨statement, (script.store.get statement).owner, []⟩
  | ask {r r' : Request} {row : List Request} (h : Visits script options statement r)
      (hrow : row ∈ (plan script options r.id r.parent r.scope).rows) (hr : r' ∈ row) :
      Visits script options statement r'

/-- `id` lies in the body of the innermost function that is being replaced. -/
def Scope.Covers (s : Store) (scope : Scope) (id : ElementId) : Prop :=
  ∀ frame ∈ scope.head?, InBody s frame.function id

/-- Every argument lies in the body of the function around its call, and the
    functions increase from the innermost to the outermost. -/
def Scope.Increases (script : Script) : Scope → Prop
  | [] => True
  | frame :: outer =>
    (∀ binding ∈ frame.bindings, script.Reaches binding.2 ∧
      Scope.Covers script.store outer binding.2) ∧
    (∀ other ∈ outer, frame.function < other.function) ∧ Scope.Increases script outer

/-- What holds of every element that is written. -/
structure InScope (script : Script) (id : ElementId) (scope : Scope) : Prop where
  reaches : script.Reaches id
  covers : scope.Covers script.store id
  increases : scope.Increases script

variable {script : Script} {options : RenderOptions} {id : ElementId} {scope : Scope}

theorem Scope.Covers.child {s : Store} {child : ElementId} (h : scope.Covers s id)
    (hc : child ∈ (s.kind id).children) : scope.Covers s child :=
  fun frame hframe => (h frame hframe).child hc

theorem Scope.Increases.pairwise (h : scope.Increases script) :
    (scope.map Frame.function).Pairwise (· < ·) := by
  induction scope with
  | nil => exact .nil
  | cons frame outer ih =>
    obtain ⟨-, hlt, houter⟩ := h
    rw [List.map_cons, List.pairwise_cons, List.forall_mem_map]
    exact ⟨hlt, ih houter⟩

/-- A function that is being replaced is called only in its own body. -/
theorem InScope.inBody (h : InScope script id scope) (hs : script.Sound) {function : ElementId}
    {arguments : List ElementId} (hk : script.store.kind id = .call function arguments)
    (hheld : scope.holds function = true) : InBody script.store function id := by
  cases scope with
  | nil => cases hheld
  | cons frame outer =>
    have hframe := h.covers frame rfl
    have hle := hs.le_of_inBody hframe hk
    rw [Scope.holds, List.any_cons, Bool.or_eq_true] at hheld
    rcases hheld with heq | hheld
    · rwa [beq_iff_eq.1 heq] at hframe
    · obtain ⟨other, hother, heq⟩ := List.any_eq_true.1 hheld
      have hlt := h.increases.2.1 other hother
      rw [beq_iff_eq.1 heq] at hlt
      exact absurd hle (Nat.not_le.2 hlt)

/-- The functions still increase with that of a call that is replaced. -/
theorem InScope.lt_of_not_holds (h : InScope script id scope) (hs : script.Sound)
    {function : ElementId} {arguments : List ElementId}
    (hk : script.store.kind id = .call function arguments)
    (hfree : scope.holds function = false) : ∀ other ∈ scope, function < other.function := by
  cases scope with
  | nil => simp
  | cons frame outer =>
    have hle := hs.le_of_inBody (h.covers frame rfl) hk
    rw [Scope.holds, List.any_cons, Bool.or_eq_false_iff, beq_eq_false_iff_ne] at hfree
    have hlt : function < frame.function := Nat.lt_of_le_of_ne hle (Ne.symm hfree.1)
    refine List.forall_mem_cons.2 ⟨hlt, fun other hother => ?_⟩
    exact Nat.lt_trans hlt (h.increases.2.1 other hother)

/-- The body of the function of a call is in the scope of the call. -/
theorem InScope.body (h : InScope script id scope) (hs : script.Sound) {function body : ElementId}
    {parameters arguments : List ElementId}
    (hk : script.store.kind id = .call function arguments)
    (hf : script.store.kind function = .function parameters (some body))
    (hfree : scope.holds function = false) :
    InScope script body (⟨function, bind script.store parameters arguments⟩ :: scope) where
  reaches := by
    obtain ⟨d, target, b, hb, hdecl⟩ := hs.declares hf
    cases hb
    exact hdecl.reaches_body
  covers := by
    rintro frame ⟨⟩
    exact ⟨parameters, body, hf, .root⟩
  increases := by
    refine ⟨fun binding hm => ?_, h.lt_of_not_holds hs hk hfree, h.increases⟩
    have harg : binding.2 ∈ (script.store.kind id).children := by
      rw [hk]
      exact (List.of_mem_zip hm).2
    exact ⟨h.reaches.child (by rw [hk]; rfl) harg, h.covers.child harg⟩

/-- The argument that a name stands for is in the scope around its call. -/
theorem InScope.argument (h : InScope script id scope) {name : String} {argument : ElementId}
    {outer : Scope} (harg : scope.argument? name = some (argument, outer)) :
    InScope script argument outer := by
  cases scope with
  | nil => cases harg
  | cons frame outer' =>
    obtain ⟨argument', hframe, he⟩ := Option.map_eq_some_iff.1 harg
    cases he
    obtain ⟨binding, hfind, rfl⟩ := Option.map_eq_some_iff.1 hframe
    obtain ⟨hreaches, hcovers⟩ := h.increases.1 binding (List.mem_of_find?_eq_some hfind)
    exact ⟨hreaches, hcovers, h.increases.2.2⟩

/-- **Every step keeps the order of the functions.** -/
theorem InScope.request (h : InScope script id scope) (hs : script.Sound) {r : ElementId × Scope}
    (hr : r ∈ requests script true id scope) : InScope script r.1 r.2 := by
  -- Most elements hand their scope on to their children.
  have child : (script.store.kind id).isCompound = true →
      r ∈ (script.store.kind id).children.map (·, scope) → InScope script r.1 r.2 := by
    intro hc hr
    obtain ⟨x, hx, rfl⟩ := List.mem_map.1 hr
    exact ⟨h.reaches.child hc hx, h.covers.child hx, h.increases⟩
  unfold requests at hr
  cases hk : script.store.kind id with
  | name name =>
    rw [hk] at hr
    exact h.argument (Option.mem_toList.1 hr)
  | access target indexes =>
    rw [hk] at hr
    obtain ⟨x, hx, rfl⟩ := List.mem_map.1 hr
    have hx : x ∈ (script.store.kind id).children := by rwa [hk]
    exact ⟨h.reaches.child (by rw [hk]; rfl) hx, by simp [Scope.Covers], trivial⟩
  | call function arguments =>
    obtain ⟨parameters, body, name, hf, -⟩ := hs.callee h.reaches hk
    simp only [hk, hf, Bool.not_true, Bool.false_or, Option.toList_some] at hr
    split at hr
    · exact child (by rw [hk]; rfl) (by rwa [hk])
    · rename_i hfree
      obtain rfl := List.mem_singleton.1 hr
      exact h.body hs hk hf (by simpa using hfree)
  | operator | array | function | declaration =>
    rw [hk] at hr
    exact child (by rw [hk]; rfl) (by rwa [hk])
  | _ =>
    rw [hk] at hr
    cases hr

theorem Plan.run_congr {p : Plan} {render render' : Renderer}
    (h : ∀ row ∈ p.rows, ∀ r ∈ row,
      render r.id r.parent r.scope = render' r.id r.parent r.scope) :
    p.run render = p.run render' := by
  have hrows : (p.rows.mapM fun row => row.mapM fun r => render r.id r.parent r.scope) =
      p.rows.mapM fun row => row.mapM fun r => render' r.id r.parent r.scope :=
    Term.mapM_congr fun row hrow => Term.mapM_congr fun r hr => h row hrow r hr
  rw [Plan.run, Plan.run, hrows]

/-- An element is written from what the renderer gives for the requests that
    follow it, and from nothing else it gives. -/
theorem renderNode_congr {statement : ElementId} {r : Request}
    (h : Visits script options statement r) {render render' : Renderer}
    (heq : ∀ r', Visits script options statement r' →
      render r'.id r'.parent r'.scope = render' r'.id r'.parent r'.scope) :
    renderNode script options render r.id r.parent r.scope =
      renderNode script options render' r.id r.parent r.scope := by
  rw [renderNode_eq, renderNode_eq]
  exact Plan.run_congr fun row hrow r' hr => heq r' (h.ask hrow hr)

theorem inScope_of_visits (hs : script.Sound) (hon : options.inlining = true)
    {statement : ElementId} (hstatement : statement ∈ script.statements) {r : Request}
    (h : Visits script options statement r) : InScope script r.id r.scope := by
  induction h with
  | start => exact ⟨⟨statement, hstatement, .root⟩, by simp [Scope.Covers], trivial⟩
  | ask _ hrow hr ih =>
    have hmem := mem_requests hrow hr
    rw [hon] at hmem
    exact ih.request hs hmem

/-! ## Calls -/

/-- The call is written as the body of its function. -/
def IsReplaced (script : Script) (options : RenderOptions) (r : Request) (function : ElementId)
    (arguments : List ElementId) : Prop :=
  ∃ parameters body, script.store.kind function = .function parameters (some body) ∧
    ∀ render, renderNode script options render r.id r.parent r.scope = do
      note (.inlined (script.store.get r.id).raw)
      render body r.parent (⟨function, bind script.store parameters arguments⟩ :: r.scope)

/-- The call is written with the name of its function. -/
def StaysCall (script : Script) (options : RenderOptions) (r : Request) (function : ElementId)
    (arguments : List ElementId) : Prop :=
  ∃ name, script.declaredName? function = some name ∧
    ∀ render, renderNode script options render r.id r.parent r.scope = do
      let texts ← arguments.mapM fun argument => render argument (some r.id) r.scope
      return name ++ "(" ++ ", ".intercalate texts ++ ")"

theorem isReplaced_or_staysCall (hs : script.Sound) (hon : options.inlining = true) {r : Request}
    (hr : script.Reaches r.id) {function : ElementId} {arguments : List ElementId}
    (hk : script.store.kind r.id = .call function arguments) :
    if r.scope.holds function then StaysCall script options r function arguments
    else IsReplaced script options r function arguments := by
  obtain ⟨parameters, body, name, hf, hname⟩ := hs.callee hr hk
  rw [Store.kind] at hk
  split
  · rename_i hheld
    refine ⟨name, hname _ (.refl _), fun render => ?_⟩
    have hname : script.declaredName? function = some name := hname _ (.refl _)
    simp only [renderNode, hk, renderCall, hf, hon, hheld, hname, Bool.not_true, Bool.false_or,
      if_true, renderList, bind_assoc, pure_bind]
  · rename_i hfree
    refine ⟨parameters, body, hf, fun render => ?_⟩
    simp only [renderNode, hk, renderCall, hf, hon, hfree, Bool.not_true, Bool.false_or,
      Bool.false_eq_true, if_false]

/-- No function calls itself. -/
def NoSelfCalls (s : Store) : Prop :=
  ∀ f id, InBody s f id → ∀ arguments, s.kind id ≠ .call f arguments

theorem NoSelfCalls.noSelfIndexing {s : Store} (h : NoSelfCalls s) : NoSelfIndexing s := by
  rintro f parameters body hf c ⟨access, target, indexes, index, hb, hk, hm, hc⟩ arguments
  have hindex : index ∈ (s.kind access).children := by
    rw [hk]
    exact List.mem_cons_of_mem target hm
  exact h f c ⟨parameters, body, hf, (hb.child hindex).trans hc⟩ arguments

theorem exists_render (hs : script.Sound) (h : NoSelfIndexing script.store)
    (options : RenderOptions) : ∃ texts, script.render options = some texts := by
  have hends : ∀ id ∈ script.statements, Ends (renderElement script options id) := by
    intro id hid
    obtain ⟨n, hn⟩ := terminates_of_mem_statements hs (Or.inr h) hid
    exact ends_renderElement (endsWithin_depthBound (chain_nil _) hn)
  obtain ⟨⟨texts, log⟩, hr⟩ := exists_renderLines hends #[]
  exact ⟨texts, by rw [Script.render, Script.renderLog, hr]; rfl⟩

end Render

open Render

/-- **Only direct recursion stays a call.**  The requests that a statement comes to are all
    that writing it takes.  Each is for an element in the body of the innermost function that
    is being replaced, and these functions are different ones that increase from the innermost
    to the outermost.  So a call that stays a call lies in the body of the function that it
    calls; and if no function calls itself, the script is written with all calls replaced. -/
theorem guard_of_parse {v : Vocabulary} {lines : List String} {script : Script}
    (h : Script.parse v lines = .ok script) (options : RenderOptions)
    (hon : options.inlining = true) :
    (∀ statement ∈ script.statements, ∀ r, Visits script options statement r →
      (∀ render render' : Renderer, (∀ r', Visits script options statement r' →
          render r'.id r'.parent r'.scope = render' r'.id r'.parent r'.scope) →
        renderNode script options render r.id r.parent r.scope =
          renderNode script options render' r.id r.parent r.scope) ∧
      (∀ frame ∈ r.scope.head?, InBody script.store frame.function r.id) ∧
      (r.scope.map Frame.function).Pairwise (· < ·) ∧
      ∀ function arguments, script.store.kind r.id = .call function arguments →
        if r.scope.holds function then
          StaysCall script options r function arguments ∧ InBody script.store function r.id
        else IsReplaced script options r function arguments) ∧
    (NoSelfCalls script.store → (∃ texts, script.render options = some texts) ∧
      ∀ statement ∈ script.statements, ∀ r, Visits script options statement r →
        ∀ function arguments, script.store.kind r.id = .call function arguments →
          IsReplaced script options r function arguments) := by
  have hs := Script.parse_sound h
  refine ⟨fun statement hst r hr => ?_, fun hself => ⟨exists_render hs hself.noSelfIndexing options,
    fun statement hst r hr function arguments hk => ?_⟩⟩
  · have hscope := inScope_of_visits hs hon hst hr
    refine ⟨fun render render' heq => renderNode_congr hr heq, hscope.covers,
      hscope.increases.pairwise, fun function arguments hk => ?_⟩
    have hcall := isReplaced_or_staysCall hs hon hscope.reaches hk
    split
    · rename_i hheld
      rw [if_pos hheld] at hcall
      exact ⟨hcall, hscope.inBody hs hk hheld⟩
    · rename_i hfree
      rwa [if_neg hfree] at hcall
  · have hscope := inScope_of_visits hs hon hst hr
    have hcall := isReplaced_or_staysCall hs hon hscope.reaches hk
    have hfree : r.scope.holds function = false := by
      rw [← Bool.not_eq_true]
      exact fun hheld => hself function r.id (hscope.inBody hs hk hheld) arguments hk
    rwa [if_neg (by simp [hfree])] at hcall

/-- The recursive call stays inside the two calls that are replaced; without a recursive call
    nothing stays. -/
theorem guard_of_parse_nested :
    (∃ script, Script.parse {} ["f = @(x) x + f(x)", "g = @(x) f(x * 2)", "y = g(f(1))"] =
        .ok script ∧ 41 ∈ script.statements ∧
      let r : Request := ⟨13, some 7, [⟨12, [("x", 24)]⟩, ⟨27, [("x", 39)]⟩]⟩
      Visits script {} 41 r ∧ script.store.kind r.id = .call 12 [10] ∧
      StaysCall script {} r 12 [10] ∧ InBody script.store 12 r.id) ∧
    ∃ script, Script.parse {} ["f = @(x) x + 1", "y = f(f(2))"] = .ok script ∧
      NoSelfCalls script.store ∧ ∃ texts, script.render {} = some texts := by
  constructor
  · have hfacts : ∃ script ∈ (Script.parse {} ["f = @(x) x + f(x)", "g = @(x) f(x * 2)",
          "y = g(f(1))"]).toOption,
        41 ∈ script.statements ∧ (script.store.get 41).owner = none ∧
        (plan script {} 41 none []).rows = [[⟨30, some 41, []⟩], [⟨40, some 41, []⟩]] ∧
        (plan script {} 40 (some 41) []).rows = [[⟨28, some 41, [⟨27, [("x", 39)]⟩]⟩]] ∧
        (plan script {} 28 (some 41) [⟨27, [("x", 39)]⟩]).rows =
          [[⟨7, some 41, [⟨12, [("x", 24)]⟩, ⟨27, [("x", 39)]⟩]⟩]] ∧
        (plan script {} 7 (some 41) [⟨12, [("x", 24)]⟩, ⟨27, [("x", 39)]⟩]).rows =
          [[⟨6, some 7, [⟨12, [("x", 24)]⟩, ⟨27, [("x", 39)]⟩]⟩],
            [⟨13, some 7, [⟨12, [("x", 24)]⟩, ⟨27, [("x", 39)]⟩]⟩]] ∧
        script.store.kind 13 = .call 12 [10] := by
      decide +kernel
    obtain ⟨script, hscript, hst, howner, h41, h40, h28, h7, hk⟩ := hfacts
    have v41 : Visits script {} 41 ⟨41, none, []⟩ := howner ▸ .start
    have v40 := v41.ask (h41 ▸ List.mem_cons_of_mem _ List.mem_cons_self) List.mem_cons_self
    have v28 := v40.ask (h40 ▸ List.mem_cons_self) List.mem_cons_self
    have v7 := v28.ask (h28 ▸ List.mem_cons_self) List.mem_cons_self
    have v13 := v7.ask (h7 ▸ List.mem_cons_of_mem _ List.mem_cons_self) List.mem_cons_self
    have hguard := (guard_of_parse (Script.parse_of_mem hscript) {} rfl).1 41 hst _ v13
    exact ⟨script, Script.parse_of_mem hscript, hst, v13, hk, hguard.2.2.2 12 [10] hk⟩
  · have hfacts : ∃ script ∈ (Script.parse {} ["f = @(x) x + 1", "y = f(f(2))"]).toOption,
        (∀ f < script.store.size, (script.store.kind f).isBinding → f = 9 ∨ f = 10 ∨ f = 22) ∧
        script.store.kind 10 = .declaration 0 9 .function ∧
        script.store.kind 22 = .declaration 11 21 .plain ∧
        script.store.kind 9 = .function [4] (some 7) ∧
        script.store.kind 7 = .operator "+" .binary (some 6) (some 8) ∧
        script.store.kind 6 = .name "x" ∧ script.store.kind 8 = .value "1" := by
      decide +kernel
    obtain ⟨script, hscript, hbinding, h10, h22, h9, h7, h6, h8⟩ := hfacts
    have hself : NoSelfCalls script.store := by
      rintro f id ⟨parameters, body, hf, hb⟩ arguments hk
      have hf' := hbinding f (lt_size_of_kind (by simp [hf])) (by rw [hf]; rfl)
      obtain rfl : f = 9 := by rcases hf' with rfl | rfl | rfl <;> simp_all
      obtain ⟨-, rfl⟩ : [4] = parameters ∧ 7 = body := by simpa [h9] using hf
      have hmem : id = 7 ∨ id = 6 ∨ id = 8 := by
        clear hk
        induction hb with
        | root => exact Or.inl rfl
        | child _ hc ih => rcases ih with rfl | rfl | rfl <;> simp_all [Kind.children]
      rcases hmem with rfl | rfl | rfl <;> simp_all
    exact ⟨script, Script.parse_of_mem hscript, hself,
      ((guard_of_parse (Script.parse_of_mem hscript) {} rfl).2 hself).1⟩

end FormulaSheet
