/-
  How deep a rendering goes.

  What is written below an element depends on the element and on the scope, not
  on the parent and not on the log (`requests`).  There are finitely many
  elements and, since no function is replaced inside itself, finitely many
  scopes.  So a recursion that goes deeper than their number comes back to where
  it has been, and then it does not end.

  * `EndsWithin script inlining n id scope`: the recursion is not deeper than
    `n`.  Then the rendering ends (`ends_renderWithin`).
  * `endsWithin_depthBound`: a recursion that ends at some depth ends within
    `depthBound`.
-/
import FormulaSheet.Proofs.Plan
import FormulaSheet.Proofs.Forest
import Mathlib.Algebra.Group.Nat.Defs
import Mathlib.Data.List.Perm.Subperm

namespace FormulaSheet.Render

open Rendering Store

variable {script : Script} {options : RenderOptions} {inlining : Bool}

/-! ## What is asked for -/

/-- What an element under a scope has written below it, and under which scope. -/
def requests (script : Script) (inlining : Bool) (id : ElementId) (scope : Scope) :
    List (ElementId × Scope) :=
  match script.store.kind id with
  | .name name => (scope.argument? name).toList
  | .access target indexes => (target :: indexes).map (·, [])
  | .call function arguments =>
    match script.store.kind function with
    | .function parameters body =>
      if !inlining || scope.holds function then arguments.map (·, scope)
      else body.toList.map (·, ⟨function, bind script.store parameters arguments⟩ :: scope)
    | _ => []
  | .error _ _ => []
  | kind => kind.children.map (·, scope)

/-- The recursion below an element under a scope is not deeper than `n`. -/
def EndsWithin (script : Script) (inlining : Bool) : (n : Nat) → ElementId → Scope → Prop
  | 0, _, _ => False
  | n + 1, id, scope => ∀ r ∈ requests script inlining id scope,
      EndsWithin script inlining n r.1 r.2

theorem rowCells_eq (cells : List Cell) (row : Nat) :
    rowCells cells row = (cells.filter fun cell => cell.row == row).mergeSort
      fun a b => a.col ≤ b.col := by
  unfold rowCells
  dsimp only
  split
  · rename_i h
    exact (List.mergeSort_of_pairwise (by simpa using h)).symm
  · rfl

theorem mem_rowCells {cells : List Cell} {row : Nat} {cell : Cell} :
    cell ∈ rowCells cells row ↔ cell ∈ cells ∧ cell.row = row := by
  rw [rowCells_eq, List.mem_mergeSort, List.mem_filter, beq_iff_eq]

theorem rowCount_le_iff {cells : List Cell} {n : Nat} :
    rowCount cells ≤ n ↔ ∀ cell ∈ cells, cell.row < n := by
  have hfold : ∀ rows, cells.foldl (fun rows cell => max rows (cell.row + 1)) rows ≤ n ↔
      rows ≤ n ∧ ∀ cell ∈ cells, cell.row < n := by
    induction cells with
    | nil => simp
    | cons cell cells ih =>
      intro rows
      rw [List.foldl_cons, ih, List.forall_mem_cons, Nat.max_le, Nat.succ_le_iff, and_assoc]
  rw [rowCount, hfold]
  simp

theorem mem_requests_of_planCall {id function : ElementId} {arguments : List ElementId}
    {parent : Option ElementId} {scope : Scope} {row : List Request} {r : Request}
    (hk : script.store.kind id = .call function arguments)
    (hrow : row ∈ (planCall script inlining id function arguments parent scope).rows)
    (hr : r ∈ row) : (r.id, r.scope) ∈ requests script inlining id scope := by
  unfold planCall at hrow
  unfold requests
  rw [hk]
  dsimp only at hrow ⊢
  cases hf : script.store.kind function with
  | function parameters body =>
    rw [hf] at hrow
    dsimp only at hrow ⊢
    split at hrow
    · rename_i hcall
      rw [if_pos hcall]
      cases hname : script.declaredName? function with
      | none => simp [hname, Plan.fault] at hrow
      | some name =>
        simp only [hname, List.mem_singleton] at hrow
        subst hrow
        obtain ⟨x, hx, rfl⟩ := List.mem_map.1 hr
        exact List.mem_map.2 ⟨x, hx, rfl⟩
    · rename_i hcall
      rw [if_neg hcall]
      cases body with
      | none => simp [Plan.fault] at hrow
      | some body =>
        simp only [Plan.instead, List.mem_singleton] at hrow
        subst hrow
        obtain rfl := List.mem_singleton.1 hr
        exact List.mem_cons_self
  | _ => simp [hf, Plan.fault] at hrow

/-- A plan asks for nothing else. -/
theorem mem_requests {id : ElementId} {parent : Option ElementId} {scope : Scope}
    {row : List Request} {r : Request} (hrow : row ∈ (plan script options id parent scope).rows)
    (hr : r ∈ row) : (r.id, r.scope) ∈ requests script options.inlining id scope := by
  have child : ∀ {ids : List ElementId} {scope : Scope}, r ∈ below id scope ids →
      (r.id, r.scope) ∈ ids.map (·, scope) := by
    intro ids scope hr
    obtain ⟨x, hx, rfl⟩ := List.mem_map.1 hr
    exact List.mem_map.2 ⟨x, hx, rfl⟩
  -- Most elements have two rows of children.
  have two : ∀ {first second : List ElementId} {scope : Scope},
      row ∈ [below id scope first, below id scope second] →
      (r.id, r.scope) ∈ (first ++ second).map (·, scope) := by
    intro first second scope hrow
    rw [List.map_append, List.mem_append]
    rcases List.mem_cons.1 hrow with rfl | hrow
    · exact Or.inl (child hr)
    · obtain rfl := List.mem_singleton.1 hrow
      exact Or.inr (child hr)
  unfold plan at hrow
  dsimp only at hrow
  unfold requests
  rw [kind]
  cases hk : (script.store.get id).kind with
  | call function arguments =>
    rw [hk] at hrow
    have := mem_requests_of_planCall hk hrow hr
    unfold requests at this
    rwa [kind, hk] at this
  | name name =>
    rw [hk] at hrow
    cases harg : scope.argument? name with
    | none => simp [harg, Plan.text] at hrow
    | some bound =>
      simp only [harg, Plan.instead, List.mem_singleton] at hrow
      subst hrow
      obtain rfl := List.mem_singleton.1 hr
      simp [harg]
  | operator symbol role first second =>
    rw [hk] at hrow
    exact two hrow
  | array cells =>
    rw [hk] at hrow
    obtain ⟨row', -, rfl⟩ := List.mem_map.1 hrow
    obtain ⟨x, hx, he⟩ := List.mem_map.1 (child hr)
    obtain ⟨cell, hcell, rfl⟩ := List.mem_map.1 hx
    rw [← he]
    exact List.mem_map.2 ⟨_, List.mem_map.2 ⟨cell, (mem_rowCells.1 hcell).1, rfl⟩, rfl⟩
  | access target indexes =>
    rw [hk] at hrow
    exact two hrow
  | function parameters body =>
    rw [hk] at hrow
    cases body with
    | none => simp [Plan.fault] at hrow
    | some body => exact two hrow
  | declaration target content form =>
    rw [hk] at hrow
    exact two hrow
  | _ => simp [hk, Plan.text] at hrow

/-- A recursion of bounded depth ends. -/
theorem ends_renderWithin {n : Nat} {id : ElementId} {scope : Scope}
    (h : EndsWithin script options.inlining n id scope) (parent : Option ElementId) :
    Ends (renderWithin script options n id parent scope) := by
  induction n generalizing id scope parent with
  | zero => exact h.elim
  | succ n ih =>
    rw [renderWithin, renderNode_eq]
    exact Plan.ends_run fun row hrow r hr => ih (h _ (mem_requests hrow hr)) r.parent

theorem EndsWithin.mono {n m : Nat} {id : ElementId} {scope : Scope}
    (h : EndsWithin script inlining n id scope) (hnm : n ≤ m) :
    EndsWithin script inlining m id scope := by
  induction n generalizing m id scope with
  | zero => exact h.elim
  | succ n ih =>
    obtain ⟨m, rfl⟩ : ∃ k, m = k + 1 := ⟨m - 1, by omega⟩
    intro r hr
    exact ih (h r hr) (Nat.le_of_succ_le_succ hnm)

/-! ## Scopes that arise -/

/-- The frame of a call. -/
def callFrame? (s : Store) (id : ElementId) : Option Frame :=
  match s.kind id with
  | .call function arguments =>
    match s.kind function with
    | .function parameters _ => some ⟨function, bind s parameters arguments⟩
    | _ => none
  | _ => none

/-- The frames of all calls. -/
def frames (s : Store) : List Frame :=
  (List.range s.size).filterMap (callFrame? s)

/-- A scope of calls of different functions. -/
structure Chain (s : Store) (scope : Scope) : Prop where
  frame : ∀ frame ∈ scope, frame ∈ frames s
  nodup : (scope.map Frame.function).Nodup

theorem chain_nil (s : Store) : Chain s [] :=
  ⟨by simp, .nil⟩

theorem Chain.tail {s : Store} {frame : Frame} {scope : Scope} (h : Chain s (frame :: scope)) :
    Chain s scope :=
  ⟨fun f hf => h.frame f (List.mem_cons_of_mem frame hf), h.nodup.of_cons⟩

theorem Chain.push {s : Store} {scope : Scope} (h : Chain s scope) {id function : ElementId}
    {arguments parameters : List ElementId} {body : Option ElementId}
    (hk : s.kind id = .call function arguments) (hf : s.kind function = .function parameters body)
    (hn : scope.holds function = false) :
    Chain s (⟨function, bind s parameters arguments⟩ :: scope) where
  frame := by
    refine List.forall_mem_cons.2 ⟨?_, h.frame⟩
    have hlt : id < s.size := lt_size_of_kind (by simp [hk])
    exact List.mem_filterMap.2 ⟨id, List.mem_range.2 hlt, by simp [callFrame?, hk, hf]⟩
  nodup := by
    refine List.nodup_cons.2 ⟨fun hm => ?_, h.nodup⟩
    obtain ⟨frame, hframe, he⟩ := List.mem_map.1 hm
    have : scope.holds function = true :=
      List.any_eq_true.2 ⟨frame, hframe, by simpa using he⟩
    rw [hn] at this
    cases this

theorem chain_of_mem_requests {id : ElementId} {scope : Scope} (h : Chain script.store scope)
    {r : ElementId × Scope} (hr : r ∈ requests script inlining id scope) :
    Chain script.store r.2 := by
  have same : ∀ {ids : List ElementId} {scope' : Scope}, Chain script.store scope' →
      r ∈ ids.map (·, scope') → Chain script.store r.2 := by
    intro ids scope' hc hr
    obtain ⟨x, -, rfl⟩ := List.mem_map.1 hr
    exact hc
  unfold requests at hr
  cases hk : script.store.kind id with
  | name name =>
    rw [hk] at hr
    cases scope with
    | nil => simp [Scope.argument?] at hr
    | cons frame outer =>
      simp only [Scope.argument?, Option.mem_toList, Option.map_eq_some_iff] at hr
      obtain ⟨argument, -, rfl⟩ := hr
      exact h.tail
  | access target indexes =>
    rw [hk] at hr
    exact same (chain_nil _) hr
  | call function arguments =>
    rw [hk] at hr
    cases hf : script.store.kind function with
    | function parameters body =>
      simp only [hf] at hr
      split at hr
      · exact same h hr
      · rename_i hn
        refine same (h.push hk hf ?_) hr
        simp only [Bool.or_eq_true, not_or] at hn
        simpa using hn.2
    | _ => simp [hf] at hr
  | error fault ids => simp [hk] at hr
  | _ =>
    rw [hk] at hr
    exact same h hr

/-! ## How many there are -/

/-- The scopes of at most `n` of the given frames. -/
def chains (frames : List Frame) : (n : Nat) → List Scope
  | 0 => [[]]
  | n + 1 => [] :: frames.flatMap fun frame => (chains frames n).map (frame :: ·)

theorem mem_chains {frames : List Frame} {scope : Scope} {n : Nat}
    (h : ∀ frame ∈ scope, frame ∈ frames) (hn : scope.length ≤ n) : scope ∈ chains frames n := by
  induction n generalizing scope with
  | zero =>
    rw [List.length_eq_zero_iff.1 (Nat.le_zero.1 hn)]
    exact List.mem_cons_self
  | succ n ih =>
    cases scope with
    | nil => exact List.mem_cons_self
    | cons frame scope =>
      obtain ⟨hframe, hscope⟩ := List.forall_mem_cons.1 h
      refine List.mem_cons_of_mem _ (List.mem_flatMap.2 ⟨frame, hframe, ?_⟩)
      exact List.mem_map.2 ⟨scope, ih hscope (Nat.le_of_succ_le_succ hn), rfl⟩

theorem length_chains (frames : List Frame) (n : Nat) :
    (chains frames n).length ≤ (frames.length + 1) ^ n := by
  induction n with
  | zero => exact Nat.le_refl _
  | succ n ih =>
    have hpos : 1 ≤ (frames.length + 1) ^ n := Nat.one_le_pow _ _ (Nat.succ_pos _)
    calc (chains frames (n + 1)).length
        = frames.length * (chains frames n).length + 1 := by simp [chains, List.length_flatMap]
      _ ≤ frames.length * (frames.length + 1) ^ n + (frames.length + 1) ^ n :=
        Nat.add_le_add (Nat.mul_le_mul_left _ ih) hpos
      _ = (frames.length + 1) ^ (n + 1) := by rw [Nat.pow_succ, Nat.mul_succ, Nat.mul_comm]

/-- The number of calls in a store. -/
def calls (s : Store) : Nat :=
  s.elements.countP fun e => e.kind matches .call ..

/-- The number of functions in a store. -/
def functions (s : Store) : Nat :=
  s.elements.countP fun e => e.kind matches .function ..

theorem countP_range (s : Store) (p : Element → Bool) :
    (List.range s.size).countP (fun id => p (s.get id)) = s.elements.countP p := by
  have hget : (List.range s.size).map s.get = s.elements.toList := by
    refine List.ext_getElem (by simp [size]) fun i h₁ h₂ => ?_
    have hi : i < s.elements.size := by simpa using h₂
    simp [Store.get, Array.getD_eq_getD_getElem?, hi]
  rw [← Array.countP_toList, ← hget, List.countP_map]
  rfl

theorem length_frames (s : Store) : (frames s).length ≤ calls s := by
  rw [frames, List.length_filterMap_eq_countP, calls, ← countP_range]
  refine List.countP_mono_left fun id _ h => ?_
  unfold callFrame? at h
  cases hk : s.kind id with
  | call function arguments =>
    rw [kind] at hk
    simp [hk]
  | _ => simp [hk] at h

theorem Chain.length_le {s : Store} {scope : Scope} (h : Chain s scope) :
    scope.length ≤ functions s := by
  have hsub : scope.map Frame.function ⊆
      (List.range s.size).filter fun id => (s.get id).kind matches .function .. := by
    intro f hf
    obtain ⟨frame, hframe, rfl⟩ := List.mem_map.1 hf
    obtain ⟨id, -, hid⟩ := List.mem_filterMap.1 (h.frame frame hframe)
    unfold callFrame? at hid
    split at hid
    · split at hid
      · rename_i hk
        cases hid
        refine List.mem_filter.2 ⟨List.mem_range.2 (lt_size_of_kind (by simp [hk])), ?_⟩
        rw [kind] at hk
        simp [hk]
      · cases hid
    · cases hid
  have hlen := (List.subperm_of_subset h.nodup hsub).length_le
  rw [List.length_map, ← List.countP_eq_length_filter] at hlen
  rw [functions, ← countP_range]
  exact hlen

/-- All elements under all scopes that can arise. -/
def states (s : Store) : List (ElementId × Scope) :=
  (List.range s.size).flatMap fun id => (chains (frames s) (functions s)).map (id, ·)

theorem length_states (s : Store) : (states s).length + 1 ≤ depthBound s := by
  have hchains : (chains (frames s) (functions s)).length ≤ (calls s + 1) ^ functions s :=
    Nat.le_trans (length_chains _ _)
      (Nat.pow_le_pow_left (Nat.succ_le_succ (length_frames s)) _)
  have hlen : (states s).length = s.size * (chains (frames s) (functions s)).length := by
    simp [states, List.length_flatMap]
  rw [hlen]
  exact Nat.succ_le_succ (Nat.mul_le_mul_left _ hchains)

theorem mem_states {s : Store} {id : ElementId} {scope : Scope} (hid : id < s.size)
    (h : Chain s scope) : (id, scope) ∈ states s :=
  List.mem_flatMap.2 ⟨id, List.mem_range.2 hid,
    List.mem_map.2 ⟨scope, mem_chains h.frame h.length_le, rfl⟩⟩

/-! ## The bound -/

theorem lt_size_of_mem_requests {id : ElementId} {scope : Scope} {r : ElementId × Scope}
    (h : r ∈ requests script inlining id scope) : id < script.store.size := by
  refine Nat.lt_of_not_le fun hle => ?_
  unfold requests at h
  rw [kind, get_of_size_le hle] at h
  cases h

/-- A recursion that is exactly `n + 1` deep passes `n` different states. -/
theorem exists_path {n : Nat} {id : ElementId} {scope : Scope} (hc : Chain script.store scope)
    (h : EndsWithin script inlining (n + 1) id scope)
    (hn : ¬ EndsWithin script inlining n id scope) :
    ∃ path : List (ElementId × Scope), path.Nodup ∧ path ⊆ states script.store ∧
      path.length = n ∧ ∀ x ∈ path, EndsWithin script inlining (n + 1) x.1 x.2 := by
  induction n generalizing id scope with
  | zero => exact ⟨[], .nil, by simp, rfl, by simp⟩
  | succ n ih =>
    -- Some request is exactly as deep as is left, and all states on its path end earlier than
    -- this one does.
    have hdeep : ∃ r ∈ requests script inlining id scope,
        ¬ EndsWithin script inlining n r.1 r.2 := by
      simpa only [EndsWithin, not_forall, exists_prop] using hn
    obtain ⟨r, hr, hdeep⟩ := hdeep
    obtain ⟨path, hnodup, hsub, hlen, hends⟩ := ih (chain_of_mem_requests hc hr) (h r hr) hdeep
    refine ⟨(id, scope) :: path, List.nodup_cons.2 ⟨fun hm => hn (hends _ hm), hnodup⟩, ?_, ?_, ?_⟩
    · exact List.cons_subset.2 ⟨mem_states (lt_size_of_mem_requests hr) hc, hsub⟩
    · rw [List.length_cons, hlen]
    · refine List.forall_mem_cons.2 ⟨h, fun x hx => (hends x hx).mono (Nat.le_succ _)⟩

/-- **A recursion that ends, ends within the bound.** -/
theorem endsWithin_depthBound {n : Nat} {id : ElementId} {scope : Scope}
    (hc : Chain script.store scope) (h : EndsWithin script inlining n id scope) :
    EndsWithin script inlining (depthBound script.store) id scope := by
  induction n with
  | zero => exact h.elim
  | succ n ih =>
    by_cases hn : EndsWithin script inlining n id scope
    · exact ih hn
    · obtain ⟨path, hnodup, hsub, hlen, -⟩ := exists_path hc h hn
      have hle := (List.subperm_of_subset hnodup hsub).length_le
      have hbound := length_states script.store
      exact h.mono (by omega)

end FormulaSheet.Render
