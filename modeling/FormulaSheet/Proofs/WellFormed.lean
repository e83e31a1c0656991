/-
  Scripts that have been read are well formed.

  * `Script.addLines_of_addLine`: what every line keeps, lines keep;
    `Script.addLine_of_ensures`: a line does what reading it does.
  * `Script.Sound` is what reading keeps: every statement is finished, every
    function is declared by a statement, and registered names are names of
    statements (`parse_sound`).
  * `WellFormed s id` is what can be asked of an element of a finished tree; all
    that is visible in a statement satisfies it (`IsStatement.wellFormed`).
-/
import FormulaSheet.Proofs.Statement

namespace FormulaSheet

open Store

/-! ## Scripts line by line -/

/-- The registry after a line: what it declares is registered, unless the name
    is declared already. -/
def Registry.declaring (registry : Registry) (declared : Option String) (id : ElementId) :
    Registry :=
  match declared with
  | none => registry
  | some name => (registry.insert? name id).getD registry

/-- A declaration adds its own name, if that is new, and nothing else. -/
theorem Registry.declaring_cases (registry : Registry) (declared : Option String)
    (id : ElementId) : registry.declaring declared id = registry ∧
      (∀ name, declared = some name → (registry.get? name).isSome) ∨
    ∃ name, declared = some name ∧ registry.get? name = none ∧
      registry.declaring declared id = ⟨registry.entries ++ [(name, id)]⟩ := by
  unfold declaring insert?
  cases declared with
  | none => exact Or.inl ⟨rfl, by simp⟩
  | some name =>
    dsimp only
    cases hget : registry.get? name with
    | none => exact Or.inr ⟨name, rfl, hget, rfl⟩
    | some first => exact Or.inl ⟨rfl, by rintro _ ⟨⟩; rw [hget]; rfl⟩

/-- The first declaration of a name stays. -/
theorem Registry.get?_declaring (registry : Registry) (declared : Option String) (id : ElementId)
    (name : String) : (registry.declaring declared id).get? name =
      (registry.get? name).or (if declared = some name then some id else none) := by
  rcases registry.declaring_cases declared id with ⟨he, hsome⟩ | ⟨new, rfl, hnone, he⟩
  · rw [he]
    cases hget : registry.get? name with
    | some first => rfl
    | none =>
      rw [if_neg fun hd => ?_]
      · rfl
      · have := hsome name hd
        rw [hget] at this
        cases this
  · rw [he]
    unfold get?
    rw [List.find?_append]
    cases hfind : registry.entries.find? (fun entry => entry.1 == name) with
    | some entry => rfl
    | none =>
      by_cases hname : new = name
      · simp [hname]
      · simp [hname]

/-- A line changes a script as it is read. -/
theorem Script.addLine_of_ensures {P : Script → Prop} {v : Vocabulary} {state : Script × Log}
    {l : LogicalLine} {Q : ElementId × Option String → Workspace → Prop}
    (hread : ∀ w : Workspace, w.store = state.1.store →
      (Statement.read v state.1.registry l).Ensures w Q)
    (h : ∀ id declared w, Q (id, declared) w → P ⟨w.store, state.1.statements ++ [id],
      state.1.registry.declaring declared id⟩) : P (addLine v state l).1 := by
  obtain ⟨script, log⟩ := state
  have hread := hread ⟨script.store, log.push (.readLine l.line l.text)⟩ rfl
  unfold Building.Ensures at hread
  simp only [addLine]
  revert hread
  generalize StateT.run (Statement.read v script.registry l)
    ⟨script.store, log.push (.readLine l.line l.text)⟩ = r
  obtain ⟨⟨id, declared⟩, w⟩ := r
  intro hread
  have hP := h id declared w hread
  cases declared with
  | none => exact hP
  | some name =>
    simp only [declare]
    unfold Registry.declaring at hP
    dsimp only at hP
    cases hi : script.registry.insert? name id with
    | none =>
      rw [hi] at hP
      exact hP
    | some registry =>
      rw [hi] at hP
      exact hP

/-- What is kept by every line is kept by lines. -/
theorem Script.addLines_of_addLine {P : Script → Prop} {v : Vocabulary}
    (hstep : ∀ (state : Script × Log) (l : LogicalLine), P state.1 → P (addLine v state l).1)
    (lines : List LogicalLine) {state : Script × Log} (h : P state.1) :
    P (lines.foldl (addLine v) state).1 := by
  induction lines generalizing state with
  | nil => exact h
  | cons l lines ih => exact ih (hstep state l h)

/-- What holds of the empty script and is kept by every line holds of what is
    read. -/
theorem Script.parse_of_addLine {P : Script → Prop} {v : Vocabulary} {lines : List String}
    {script : Script} (hempty : P {})
    (hstep : ∀ (state : Script × Log) (l : LogicalLine), P state.1 → P (addLine v state l).1)
    (h : parse v lines = .ok script) : P script := by
  unfold parse read at h
  split at h
  · cases h
  · rename_i joined _
    cases h
    exact addLines_of_addLine hstep joined hempty

/-! ## Sound scripts -/

/-- What reading a script keeps. -/
structure Script.Sound (script : Script) : Prop where
  statement : ∀ id ∈ script.statements,
    ∃ all, IsStatement script.store id all ∧ ∀ x ∈ all, x < script.store.size
  unowned : ∀ id ∈ script.statements, (script.store.get id).owner = none
  /-- A function belongs to the statement that declares it. -/
  functions : ∀ f parameters body, script.store.kind f = .function parameters body →
    ∃ id ∈ script.statements, ∃ target, script.store.kind id = .declaration target f .function ∧
      (script.store.get f).owner = some id
  errors : ∀ id fault ids, script.store.kind id = .error fault ids →
    ∀ child ∈ ids, child < script.store.size ∧ (script.store.kind child).children = []
  declared : ∀ name id, script.registry.get? name = some id → id ∈ script.statements

namespace Script

theorem Sound.lt_size {script : Script} (h : script.Sound) {id : ElementId}
    (hid : id ∈ script.statements) : id < script.store.size := by
  obtain ⟨all, hst, hlt⟩ := h.statement id hid
  exact hlt id hst.mem_self

theorem Sound.names {script : Script} (h : script.Sound) : script.registry.Names script.store := by
  intro name id hget
  have hid := h.declared name id hget
  obtain ⟨all, hst, -⟩ := h.statement id hid
  exact ⟨h.lt_size hid, all, hst⟩

/-- A function of a sound script, with the statement that declares it. -/
structure Declares (script : Script) (id target f : ElementId) (parameters : List ElementId)
    (body : ElementId) : Prop where
  mem : id ∈ script.statements
  kind : script.store.kind id = .declaration target f .function
  owner : (script.store.get f).owner = some id
  target : ∃ name, script.store.kind target = .name name
  function : script.store.kind f = .function parameters (some body)
  parameters : ∀ p ∈ parameters, ∃ name, script.store.kind p = .name name
  body : ∃ all, Body (fun g => script.store.IsFunction g ∧ g ≤ f) script.store body all

theorem Sound.declares {script : Script} (h : script.Sound) {f : ElementId}
    {parameters : List ElementId} {body : Option ElementId}
    (hk : script.store.kind f = .function parameters body) :
    ∃ id target b, body = some b ∧ Declares script id target f parameters b := by
  obtain ⟨id, hid, target, hdecl, howner⟩ := h.functions f parameters body hk
  obtain ⟨all, hst, -⟩ := h.statement id hid
  cases hst with
  | line hline =>
    rw [hdecl] at hline
    rcases hline with hline | hline <;> cases hline
  | value hk' ht hb hform =>
    rw [hdecl] at hk'
    cases hk'
    rcases hform with hform | ⟨hform, -⟩ <;> cases hform
  | function hk' ht hf hp hb =>
    rw [hdecl] at hk'
    cases hk'
    rw [hk] at hf
    cases hf
    exact ⟨id, target, _, rfl, hid, hdecl, howner, ⟨_, ht⟩, hk, hp, _, hb⟩

theorem sound_empty : ({} : Script).Sound where
  statement := by simp
  unowned := by simp
  functions f parameters body hk := by
    rw [kind, get_of_size_le (Nat.zero_le f)] at hk
    cases hk
  errors id fault ids hk := by
    rw [kind, get_of_size_le (Nat.zero_le id)] at hk
    cases hk
  declared name id hget := by cases hget

/-- A sound script stays sound with one more statement. -/
theorem Sound.add {script : Script} (h : script.Sound) {s : Store} {id : ElementId}
    {registry : Registry} (ha : AddsStatement script.store s id)
    (hr : ∀ name x, registry.get? name = some x → script.registry.get? name = some x ∨ x = id) :
    Sound ⟨s, script.statements ++ [id], registry⟩ := by
  have hkind : ∀ x < script.store.size, s.kind x = script.store.kind x :=
    fun x hx => by rw [kind, ha.kept x hx, kind]
  refine ⟨fun x hx => ?_, fun x hx => ?_, fun f parameters body hk => ?_,
    fun x fault ids hk child hc => ?_, fun name x hget => ?_⟩
  · rcases List.mem_append.1 hx with hx | hx
    · obtain ⟨all, hst, hlt⟩ := h.statement x hx
      refine ⟨all, hst.congr (fun y hy => ⟨hkind y (hlt y hy), by rw [ha.kept y (hlt y hy)]⟩) ?_,
        fun y hy => Nat.lt_of_lt_of_le (hlt y hy) ha.size_le⟩
      intro f hf
      have hlt := lt_size_of_isFunction hf
      obtain ⟨parameters, body, hk⟩ := hf
      exact ⟨parameters, body, (hkind f hlt).trans hk⟩
    · rw [List.mem_singleton.1 hx]
      obtain ⟨all, hst, hap⟩ := ha.statement
      exact ⟨all, hst, fun y hy => (hap.mem y hy).1⟩
  · rcases List.mem_append.1 hx with hx | hx
    · rw [ha.kept x (h.lt_size hx)]
      exact h.unowned x hx
    · rw [List.mem_singleton.1 hx]
      exact ha.unowned
  · by_cases hf : f < script.store.size
    · rw [hkind f hf] at hk
      obtain ⟨x, hx, target, hdecl, howner⟩ := h.functions f parameters body hk
      refine ⟨x, List.mem_append_left _ hx, target, ?_, ?_⟩
      · rw [hkind x (h.lt_size hx), hdecl]
      · rw [ha.kept f hf, howner]
    · obtain ⟨target, hdecl, howner⟩ := ha.functions f parameters body (Nat.not_lt.1 hf) hk
      exact ⟨id, by simp, target, hdecl, howner⟩
  · by_cases hx : x < script.store.size
    · rw [hkind x hx] at hk
      obtain ⟨hlt, hleaf⟩ := h.errors x fault ids hk child hc
      exact ⟨Nat.lt_of_lt_of_le hlt ha.size_le, by rw [hkind child hlt, hleaf]⟩
    · exact ha.errors x fault ids (Nat.not_lt.1 hx) hk child hc
  · rcases hr name x hget with hget | rfl
    · exact List.mem_append_left _ (h.declared name x hget)
    · simp

theorem addLine_sound {v : Vocabulary} {state : Script × Log} (h : state.1.Sound)
    (l : LogicalLine) : (addLine v state l).1.Sound := by
  refine addLine_of_ensures (Q := fun r w => AddsStatement state.1.store w.store r.1) ?_ ?_
  · intro w hw
    rw [← hw]
    exact read_addsStatement (hw ▸ h.names) v l
  · intro id declared w hread
    refine h.add hread fun name x hx => ?_
    rw [Registry.get?_declaring] at hx
    rcases Option.or_eq_some_iff.1 hx with hx | ⟨-, hx⟩
    · exact Or.inl hx
    · split at hx
      · exact Or.inr (Option.some.inj hx).symm
      · cases hx

/-- **Reading keeps scripts sound.** -/
theorem parse_sound {v : Vocabulary} {lines : List String} {script : Script}
    (h : parse v lines = .ok script) : script.Sound :=
  parse_of_addLine sound_empty (fun _ l h => addLine_sound h l) h

end Script

/-! ## Finished trees -/

/-- What an element of a finished tree is like. -/
structure WellFormed (s : Store) (id : ElementId) : Prop where
  notStructural : (s.kind id).isStructural = false
  operands : ∀ symbol role first second, s.kind id = .operator symbol role first second →
    (s.get id).sealed = true ∧ first.isSome ∧ (second.isSome ↔ role = .binary)
  body : ∀ parameters body, s.kind id = .function parameters body → body.isSome
  /-- A function stands only where a declaration of a function has its
      value. -/
  function : ∀ child ∈ (s.kind id).children, ∀ parameters body,
    s.kind child = .function parameters body →
      ∃ target, target ≠ child ∧ s.kind id = .declaration target child .function
  array : ∀ target content, s.kind id = .declaration target content .array →
    ∃ cells, s.kind content = .array cells
  callee : ∀ function arguments, s.kind id = .call function arguments →
    ∃ parameters body, s.kind function = .function parameters body
  error : ∀ fault ids, s.kind id = .error fault ids →
    ∀ child ∈ ids, (s.kind child).children = []

namespace Store

theorem wellFormed_name {s : Store} {id : ElementId} {name : String} (h : s.kind id = .name name) :
    WellFormed s id := by
  constructor <;> simp [h, Kind.isStructural, Kind.children]

theorem Visible.eq_of_name {s : Store} {root id : ElementId} {name : String}
    (h : s.kind root = .name name) (hv : Visible s root id) : id = root := by
  rcases hv.of_root with rfl | ⟨-, child, hc, -⟩
  · rfl
  · rw [h] at hc
    cases hc

/-- What is visible in a body is well formed. -/
theorem Body.wellFormed {targets : ElementId → Prop} {s : Store} {root id : ElementId}
    {all : List ElementId} (h : Body targets s root all)
    (ht : ∀ f, targets f → s.IsFunction f) (hv : Visible s root id) : WellFormed s id := by
  have hroot := h.forest.subset List.mem_cons_self
  rcases h.finished with hall | ⟨fault, ids, hr, hleaf⟩
  · have hid := h.forest.mem_of_below hroot (below_of_visible hv)
    obtain ⟨hcomplete, hin⟩ := hall id hid
    refine ⟨hcomplete.notStructural, hcomplete.operands, fun parameters body hk => ?_,
      fun child hc parameters body hk => ?_, fun target content hk => ?_,
      fun function arguments hk => ?_, fun fault ids hk child hc => ?_⟩
    · exact absurd hk (not_function_of_inTerm hin _ _)
    · have hchild := h.forest.mem_of_below hid (Below.root.child hc)
      exact absurd hk (not_function_of_inTerm (hall child hchild).2 _ _)
    · unfold Element.InTerm at hin
      rw [← kind, hk] at hin
      exact hin.elim
    · unfold Element.InTerm at hin
      rw [← kind, hk] at hin
      obtain ⟨parameters, body, hf⟩ := ht function hin
      exact ⟨parameters, some body, hf⟩
    · rw [eq_nil_of_inTerm hin hk] at hc
      cases hc
  · rcases hv.of_root with rfl | ⟨hne, -⟩
    · refine ⟨?_, ?_, ?_, ?_, ?_, ?_, fun fault' ids' hk child hc => ?_⟩
      · rw [hr]; rfl
      · simp [hr]
      · simp [hr]
      · intro child hc parameters body hk
        rw [hr] at hc
        exact absurd hk (not_function_of_inTerm (hleaf child hc).2 _ _)
      · simp [hr]
      · simp [hr]
      · rw [hr] at hk
        cases hk
        exact (hleaf child hc).1
    · exact absurd hr (hne fault ids)

theorem IsStatement.not_function {s : Store} {statement : ElementId} {all : List ElementId}
    (h : IsStatement s statement all) (parameters : List ElementId) (body : Option ElementId) :
    s.kind statement ≠ .function parameters body := by
  cases h with
  | line hk => rcases hk with hk | hk <;> simp [hk]
  | value hk => simp [hk]
  | function hk => simp [hk]

/-- What is visible in a statement is well formed. -/
theorem IsStatement.wellFormed {s : Store} {statement id : ElementId} {all : List ElementId}
    (h : IsStatement s statement all) (hv : Visible s statement id) : WellFormed s id := by
  cases h with
  | line hk =>
    rcases hv.of_root with rfl | ⟨-, child, hc, -⟩
    · rcases hk with hk | hk
      all_goals constructor <;> simp [hk, Kind.isStructural, Kind.children]
    · rcases hk with hk | hk <;> rw [hk] at hc <;> cases hc
  | @value target content form name all hk ht hb hform =>
    rcases hv.of_root with rfl | ⟨-, child, hc, hchild⟩
    · refine ⟨by rw [hk]; rfl, by simp [hk], by simp [hk], fun child hc parameters body hf => ?_,
        fun target' content' hk' => ?_, by simp [hk], by simp [hk]⟩
      · rw [hk] at hc
        rcases List.mem_pair.1 hc with rfl | rfl
        · rw [ht] at hf
          cases hf
        · exact absurd hf (hb.not_function _ _)
      · rw [hk] at hk'
        cases hk'
        exact (hform.resolve_left (by simp)).2
    · rw [hk] at hc
      rcases List.mem_pair.1 hc with rfl | rfl
      · rw [hchild.eq_of_name ht]
        exact wellFormed_name ht
      · exact hb.wellFormed (fun _ h => h) hchild
  | @function target f body name parameters all hk ht hf hp hb =>
    rcases hv.of_root with rfl | ⟨-, child, hc, hchild⟩
    · refine ⟨by rw [hk]; rfl, by simp [hk], by simp [hk], fun child hc ps b hfun => ?_,
        by simp [hk], by simp [hk], by simp [hk]⟩
      rw [hk] at hc
      rcases List.mem_pair.1 hc with rfl | rfl
      · rw [ht] at hfun
        cases hfun
      · refine ⟨target, ?_, hk⟩
        rintro rfl
        rw [ht] at hfun
        cases hfun
    · rw [hk] at hc
      rcases List.mem_pair.1 hc with rfl | rfl
      · rw [hchild.eq_of_name ht]
        exact wellFormed_name ht
      · rcases hchild.of_root with rfl | ⟨-, part, hpart, hid⟩
        · refine ⟨by rw [hf]; rfl, by simp [hf], fun ps b hk' => ?_, fun part hpart ps b hfun => ?_,
            by simp [hf], by simp [hf], by simp [hf]⟩
          · rw [hf] at hk'
            cases hk'
            rfl
          · rw [hf] at hpart
            rcases List.mem_append.1 hpart with hm | hm
            · obtain ⟨name, hname⟩ := hp part hm
              rw [hname] at hfun
              cases hfun
            · rw [List.mem_singleton.1 hm] at hfun
              exact absurd hfun (hb.not_function _ _)
        · rw [hf] at hpart
          rcases List.mem_append.1 hpart with hm | hm
          · obtain ⟨name, hname⟩ := hp part hm
            rw [hid.eq_of_name hname]
            exact wellFormed_name hname
          · rw [List.mem_singleton.1 hm] at hid
            exact hb.wellFormed (fun _ h => h.1) hid

end Store

/-- **Finished trees are well formed.** -/
theorem wellFormed_of_parse {v : Vocabulary} {lines : List String} {script : Script}
    (h : Script.parse v lines = .ok script) :
    (∀ statement ∈ script.statements,
      (∀ parameters body, script.store.kind statement ≠ .function parameters body) ∧
      ∀ id, Visible script.store statement id → WellFormed script.store id) ∧
    ∀ id fault ids, script.store.kind id = .error fault ids →
      ∀ child ∈ ids, (script.store.kind child).children = [] := by
  have hsound := Script.parse_sound h
  refine ⟨fun statement hs => ?_, fun id fault ids hk child hc =>
    (hsound.errors id fault ids hk child hc).2⟩
  obtain ⟨all, hst, -⟩ := hsound.statement statement hs
  exact ⟨hst.not_function, fun id hv => hst.wellFormed hv⟩

/-- A function, an array, a call of the function and a term that does not
    reduce. -/
theorem wellFormed_of_parse_lines :
    ∃ script,
      Script.parse {} ["f = @(x) -x + f(1)", "a = [1 -2; x]", "y = f(a(1)) * 2", "z = 1 +"] =
        .ok script ∧ script.statements.length = 4 ∧
      (∀ statement ∈ script.statements,
        (∀ parameters body, script.store.kind statement ≠ .function parameters body) ∧
        ∀ id, Visible script.store statement id → WellFormed script.store id) ∧
      ∀ id fault ids, script.store.kind id = .error fault ids →
        ∀ child ∈ ids, (script.store.kind child).children = [] := by
  have hfacts : ∃ script ∈ (Script.parse {} ["f = @(x) -x + f(1)", "a = [1 -2; x]",
      "y = f(a(1)) * 2", "z = 1 +"]).toOption, script.statements.length = 4 := by decide +kernel
  obtain ⟨script, hscript, hlength⟩ := hfacts
  have hparse := Script.parse_of_mem hscript
  exact ⟨script, hparse, hlength, wellFormed_of_parse hparse⟩

end FormulaSheet
