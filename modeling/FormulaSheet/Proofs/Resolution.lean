/-
  Names refer backwards, and the first declaration of a name wins.

  * `Script.Makes script k id`: the element was added by the line of the `k`-th
    statement, told by the positions of the statements.  These are the elements
    that reading this line adds (`makes_extend_iff`).
  * `Script.LooksBack script k statement id`: what a call or an access of that
    line leads to, told by the statements before it.
  * `Script.Registered` is what reading keeps: the registry holds the first
    declarations, and all that a line adds looks back (`parse_registered`).
  * `Script.Calls script f g`: the line of the function `f` calls `g`.  No call
    leads forwards, so only direct recursion is a cycle (`Registered.acyclic`).
-/
import FormulaSheet.Proofs.Lines
import FormulaSheet.Proofs.Reference
import Mathlib.Data.List.Find
import Mathlib.Data.List.Nodup

namespace FormulaSheet

open Store
open Term (callee)

/-! ## Looking back -/

namespace Script

/-- The elements that the line of the `k`-th statement has added: the statement
    is the last of them, and the first comes after the statement before. -/
def Makes (script : Script) (k : Nat) (id : ElementId) : Prop :=
  ∃ statement, script.statements[k]? = some statement ∧ id ≤ statement ∧
    ∀ earlier ∈ script.statements.take k, earlier < id

/-- The first statement before the `k`-th that declares a name. -/
def declaredBefore? (script : Script) (k : Nat) (name : String) : Option ElementId :=
  (script.statements.take k).find? fun id => script.store.declares? id == some name

/-- A statement `name = @(names) …` with the function `f`. -/
def DeclaresFunction (script : Script) (statement f : ElementId) (name : String)
    (names : List String) : Prop :=
  ∃ target parameters body, script.store.kind statement = .declaration target f .function ∧
    script.store.kind target = .name name ∧
    script.store.kind f = .function parameters (some body) ∧
    parameters.map script.store.kind = names.map .name

/-- The declaration of an array. -/
def DeclaresArray (script : Script) (statement : ElementId) : Prop :=
  ∃ target content, script.store.kind statement = .declaration target content .array

/-- What a call or an access `name(…)` that the line of `statement`, the `k`-th
    one, has added leads to. -/
structure LooksBack (script : Script) (k : Nat) (statement id : ElementId) (name : String) :
    Prop where
  /-- A declared name calls the function that is its first declaration.  Any
      other name is that of the function being read, if no parameter has it. -/
  call : ∀ f arguments, script.store.kind id = .call f arguments → f < id ∧
    ((∃ declaration names, script.declaredBefore? k name = some declaration ∧
        script.DeclaresFunction declaration f name names) ∨
      (script.declaredBefore? k name = none ∧
        ∃ names, script.DeclaresFunction statement f name names ∧ name ∉ names))
  /-- A declared name is accessed if its first declaration is an array.  Any
      other name is a parameter of the function being read. -/
  access : ∀ target indexes, script.store.kind id = .access target indexes →
    script.store.kind target = .name name ∧
    ((∃ declaration, script.declaredBefore? k name = some declaration ∧
        script.DeclaresArray declaration) ∨
      (script.declaredBefore? k name = none ∧
        ∃ f g names, script.DeclaresFunction statement f g names ∧ name ∈ names))

/-- What reading keeps about names. -/
structure Registered (script : Script) : Prop where
  plain : ∀ id, (script.store.kind id).HasPlainName
  covered : ∀ id < script.store.size, ∃ statement ∈ script.statements, id ≤ statement
  /-- The registry lists every name once, in the order of the statements, with
      its first declaration. -/
  names : (script.registry.entries.map Prod.fst).Nodup
  order : (script.registry.entries.map Prod.snd).Sublist script.statements
  first : ∀ name, script.registry.get? name =
    script.statements.find? fun id => script.store.declares? id == some name
  below : ∀ k statement, script.statements[k]? = some statement →
    ∀ id, Below script.store statement id → script.Makes k id
  looksBack : ∀ k statement, script.statements[k]? = some statement →
    ∀ id, script.Makes k id →
      script.LooksBack k statement id (script.store.get id).calledName

/-! ## One more line -/

theorem Sound.declares?_eq {script : Script} (h : script.Sound) {s : Store}
    (hk : ∀ x < script.store.size, s.get x = script.store.get x) {statement : ElementId}
    (hs : statement ∈ script.statements) :
    s.declares? statement = script.store.declares? statement := by
  have kept : ∀ {x : ElementId}, x < script.store.size → s.kind x = script.store.kind x :=
    fun hx => by rw [kind, hk _ hx, kind]
  obtain ⟨all, hst, -⟩ := h.statement statement hs
  unfold declares?
  rw [kept (h.lt_size hs)]
  cases hst with
  | line hline => rcases hline with he | he <;> rw [he]
  | value hdecl ht hb hform =>
    rw [hdecl]
    dsimp only
    rw [kept (lt_size_of_kind (by simp [ht]))]
  | function hdecl ht hf hp hb =>
    rw [hdecl]
    dsimp only
    rw [kept (lt_size_of_kind (by simp [ht]))]

section Line

variable {script : Script} {s : Store} {registry : Registry} {new : ElementId}

theorem makes_of_prefix_statements {a b : Script} (h : a.statements <+: b.statements) {k : Nat}
    (hk : k < a.statements.length) {id : ElementId} : b.Makes k id ↔ a.Makes k id := by
  obtain ⟨more, hmore⟩ := h
  unfold Makes
  rw [← hmore, List.take_append_of_le_length (Nat.le_of_lt hk), List.getElem?_append_left hk]

theorem makes_append {k : Nat} (hk : k < script.statements.length) {id : ElementId} :
    Makes ⟨s, script.statements ++ [new], registry⟩ k id ↔ script.Makes k id :=
  makes_of_prefix_statements (List.prefix_append _ _) hk

theorem Sound.declaredBefore?_eq (h : script.Sound)
    (hk : ∀ x < script.store.size, s.get x = script.store.get x) {k : Nat}
    (hlt : k ≤ script.statements.length) (name : String) :
    declaredBefore? ⟨s, script.statements ++ [new], registry⟩ k name =
      script.declaredBefore? k name := by
  unfold declaredBefore?
  dsimp only
  rw [List.take_append_of_le_length hlt]
  exact List.find?_congr fun id hid => by rw [h.declares?_eq hk (List.mem_of_mem_take hid)]

theorem map_kind_eq {s s' : Store} {parameters : List ElementId} {names : List String}
    (h : parameters.map s.kind = names.map .name)
    (hn : ∀ x name, s.kind x = .name name → s'.kind x = .name name) :
    parameters.map s'.kind = names.map .name := by
  rw [← h]
  refine List.map_congr_left fun p hp => ?_
  have hmem : s.kind p ∈ names.map Kind.name := h ▸ List.mem_map_of_mem hp
  obtain ⟨name, -, hname⟩ := List.mem_map.1 hmem
  rw [hn p name hname.symm, hname]

theorem DeclaresFunction.append {statement f : ElementId} {name : String} {names : List String}
    (h : script.DeclaresFunction statement f name names)
    (kept : ∀ x, script.store.kind x ≠ .blank → s.kind x = script.store.kind x) :
    DeclaresFunction ⟨s, script.statements ++ [new], registry⟩ statement f name names := by
  obtain ⟨target, parameters, body, hk, ht, hf, hps⟩ := h
  refine ⟨target, parameters, body, ?_, ?_, ?_, map_kind_eq hps fun x name hx => ?_⟩
  · rw [kept _ (by simp [hk]), hk]
  · rw [kept _ (by simp [ht]), ht]
  · rw [kept _ (by simp [hf]), hf]
  · rw [kept x (by simp [hx]), hx]

/-- What looks back still does with one more statement. -/
theorem LooksBack.append {k : Nat} {statement id : ElementId} {name : String}
    (h : script.LooksBack k statement id name) (hs : script.Sound)
    (hk : ∀ x < script.store.size, s.get x = script.store.get x)
    (hlt : k < script.statements.length) (hid : id < script.store.size) :
    LooksBack ⟨s, script.statements ++ [new], registry⟩ k statement id name := by
  have hbefore : declaredBefore? ⟨s, script.statements ++ [new], registry⟩ k name =
      script.declaredBefore? k name := hs.declaredBefore?_eq hk (Nat.le_of_lt hlt) name
  have kept : ∀ x, script.store.kind x ≠ .blank → s.kind x = script.store.kind x := fun x hx => by
    rw [kind, hk x (lt_size_of_kind hx), kind]
  have hkind : s.kind id = script.store.kind id := by rw [kind, hk id hid, kind]
  refine ⟨fun f arguments hcall => ?_, fun target indexes haccess => ?_⟩
  · obtain ⟨hf, hcase⟩ := h.call f arguments (hkind ▸ hcall)
    refine ⟨hf, ?_⟩
    rw [hbefore]
    rcases hcase with ⟨d, names, hd, hdecl⟩ | ⟨hnone, names, hdecl, hnot⟩
    · exact Or.inl ⟨d, names, hd, hdecl.append kept⟩
    · exact Or.inr ⟨hnone, names, hdecl.append kept, hnot⟩
  · obtain ⟨hname, hcase⟩ := h.access target indexes (hkind ▸ haccess)
    refine ⟨(kept target (by simp [hname])).trans hname, ?_⟩
    rw [hbefore]
    rcases hcase with ⟨d, hd, t, content, hdecl⟩ | ⟨hnone, f, g, names, hdecl, hmem⟩
    · exact Or.inl ⟨d, hd, t, content, (kept d (by simp [hdecl])).trans hdecl⟩
    · exact Or.inr ⟨hnone, f, g, names, hdecl.append kept, hmem⟩

theorem exists_names {s : Store} {parameters : List ElementId}
    (h : ∀ p ∈ parameters, ∃ name, s.kind p = .name name) :
    ∃ names : List String, parameters.map s.kind = names.map .name := by
  induction parameters with
  | nil => exact ⟨[], rfl⟩
  | cons p parameters ih =>
    obtain ⟨hp, hrest⟩ := List.forall_mem_cons.1 h
    obtain ⟨name, hname⟩ := hp
    obtain ⟨names, hnames⟩ := ih hrest
    exact ⟨name :: names, by rw [List.map_cons, List.map_cons, hname, hnames]⟩

/-- A statement that declares a name is a declaration of it. -/
theorem exists_declaration {s : Store} {id : ElementId} {name : String}
    (h : s.declares? id = some name) :
    ∃ target content form, s.kind id = .declaration target content form ∧
      s.kind target = .name name := by
  unfold declares? at h
  split at h
  · rename_i target content form hk
    refine ⟨target, content, form, hk, ?_⟩
    unfold Kind.name? at h
    split at h
    · rename_i ht
      cases h
      exact ht
    · cases h
  · cases h

variable {r : ElementId × Option String}

/-- While a line is read, the registry knows the first declarations. -/
theorem Registered.declaredBefore?_eq (h : script.Registered) (hs : script.Sound)
    (hk : ∀ x < script.store.size, s.get x = script.store.get x) (name : String) :
    declaredBefore? ⟨s, script.statements ++ [new], registry⟩ script.statements.length name =
      script.registry.get? name := by
  rw [hs.declaredBefore?_eq hk (Nat.le_refl _), declaredBefore?, List.take_length, h.first]

/-- What a new line adds looks back. -/
theorem Registered.looksBack_new (h : script.Registered) (hs : script.Sound)
    (hl : ReadsLine script.registry script.store s r) {id : ElementId}
    (hid : script.store.size ≤ id) :
    LooksBack ⟨s, script.statements ++ [r.1], registry⟩ script.statements.length r.1 id
      (s.get id).calledName := by
  have hadds := hl.addsStatement
  have kept : ∀ x, script.store.kind x ≠ .blank → s.kind x = script.store.kind x := fun x hx => by
    rw [kind, hadds.kept x (lt_size_of_kind hx), kind]
  obtain ⟨fn, hresolves, hfn⟩ := hl.resolves hs.names h.plain
  have hrefers := hresolves.refers id hid
  -- A name of the registry is declared; any other name is known inside the function only.
  have hdeclared : ∀ name d, script.registry.get? name = some d →
      script.store.declares? d = some name := by
    intro name d hget
    rw [h.first] at hget
    simpa using List.find?_some hget
  have hnone : ∀ name, (∀ d, script.registry.get? name = some d → ∀ target content form,
      script.store.kind d ≠ .declaration target content form) →
      script.registry.get? name = none := by
    intro name hnot
    cases hget : script.registry.get? name with
    | none => rfl
    | some d =>
      obtain ⟨target, content, form, hk, -⟩ := exists_declaration (hdeclared name d hget)
      exact absurd hk (hnot d hget target content form)
  have hown : ∀ f, fn = some f →
      DeclaresFunction ⟨s, script.statements ++ [r.1], registry⟩ r.1 f.id f.name f.parameters := by
    intro f hf
    obtain ⟨hname, target, parameters, body, hk, hfk, hps⟩ := hfn f hf
    obtain ⟨target', content, form, hk', ht⟩ := exists_declaration (hl.declares?_eq.trans hname)
    rw [hk] at hk'
    cases hk'
    exact ⟨target, parameters, body, hk, ht, hfk, hps⟩
  refine ⟨fun f arguments hcall => ?_, fun target indexes haccess => ?_⟩
  · dsimp only at hcall
    unfold Refers at hrefers
    rw [hcall] at hrefers
    obtain ⟨hlt, hcallee⟩ := hrefers
    refine ⟨hlt, ?_⟩
    rw [h.declaredBefore?_eq hs hadds.kept]
    rcases Term.callee_eq_function hcallee with ⟨d, target, ps, body, hget, hdk, hfk⟩ | ⟨hnot, hin⟩
    · obtain ⟨target', content, form, hk', ht⟩ := exists_declaration (hdeclared _ d hget)
      rw [hdk] at hk'
      cases hk'
      obtain ⟨_, _, b, rfl, hdeclares⟩ := hs.declares hfk
      obtain ⟨names, hnames⟩ := exists_names hdeclares.parameters
      have hd : script.DeclaresFunction d f _ names := ⟨target, ps, b, hdk, ht, hfk, hnames⟩
      exact Or.inl ⟨d, names, hget, hd.append kept⟩
    · obtain ⟨g, hg, hname, hmem, rfl⟩ := Term.calleeInside_eq_function hin
      exact Or.inr ⟨hnone _ hnot, g.parameters, hname ▸ hown g hg, hmem⟩
  · dsimp only at haccess
    unfold Refers at hrefers
    rw [haccess] at hrefers
    obtain ⟨hname, hcallee⟩ := hrefers
    refine ⟨hname, ?_⟩
    rw [h.declaredBefore?_eq hs hadds.kept]
    rcases Term.callee_eq_indexed hcallee with ⟨d, t, content, hget, hdk⟩ | ⟨hnot, hin⟩
    · exact Or.inl ⟨d, hget, t, content, (kept d (by simp [hdk])).trans hdk⟩
    · obtain ⟨g, hg, hmem⟩ := Term.calleeInside_eq_indexed hin
      exact Or.inr ⟨hnone _ hnot, g.id, g.name, g.parameters, hown g hg, hmem⟩

/-- The tree of a statement is the same in the longer script. -/
theorem Sound.below_of_below (hs : script.Sound)
    (hk : ∀ x < script.store.size, s.get x = script.store.get x) {statement id : ElementId}
    (hm : statement ∈ script.statements) (hb : Below s statement id) :
    Below script.store statement id := by
  obtain ⟨all, hst, hlt⟩ := hs.statement statement hm
  have hforest : Forest s [statement] all := hst.forest.congr fun x hx => by
    rw [kind, hk x (hlt x hx), kind]
  have hid : id ∈ all := hforest.mem_of_below hst.mem_self hb
  obtain ⟨root, hroot, hbelow⟩ := hst.forest.exists_below hid
  rwa [List.mem_singleton.1 hroot] at hbelow

theorem Registered.makes_new (h : script.Registered) (hs : script.Sound) {id : ElementId} :
    Makes ⟨s, script.statements ++ [new], registry⟩ script.statements.length id ↔
      script.store.size ≤ id ∧ id ≤ new := by
  unfold Makes
  dsimp only
  rw [List.take_append_of_le_length (Nat.le_refl _), List.take_length, List.getElem?_concat_length]
  constructor
  · rintro ⟨_, ⟨⟩, hle, hearlier⟩
    refine ⟨Nat.not_lt.1 fun hlt => ?_, hle⟩
    obtain ⟨statement, hm, hge⟩ := h.covered id hlt
    exact Nat.not_lt.2 hge (hearlier statement hm)
  · rintro ⟨hge, hle⟩
    exact ⟨new, rfl, hle, fun earlier hm => Nat.lt_of_lt_of_le (hs.lt_size hm) hge⟩

/-- One more line. -/
theorem Registered.add (h : script.Registered) (hs : script.Sound)
    (hl : ReadsLine script.registry script.store s r) :
    Registered ⟨s, script.statements ++ [r.1], script.registry.declaring r.2 r.1⟩ := by
  have hadds := hl.addsStatement
  obtain ⟨hnew, hsize⟩ := hl.size_eq
  -- The statements are those of the script, and the new one.
  have hcases : ∀ {k statement : Nat}, (script.statements ++ [r.1])[k]? = some statement →
      (k < script.statements.length ∧ script.statements[k]? = some statement) ∨
      k = script.statements.length ∧ statement = r.1 := by
    intro k statement hk
    by_cases hlt : k < script.statements.length
    · rw [List.getElem?_append_left hlt] at hk
      exact Or.inl ⟨hlt, hk⟩
    · rw [List.getElem?_append_right (Nat.not_lt.1 hlt)] at hk
      obtain ⟨hzero, he⟩ := List.getElem?_eq_some_iff.1 hk
      rw [List.length_singleton] at hzero
      refine Or.inr ⟨by omega, ?_⟩
      rw [List.getElem_singleton] at he
      exact he.symm
  refine ⟨?_, fun id hid => ?_, ?_, ?_, fun name => ?_, fun k statement hk id hb => ?_,
    fun k statement hk id hm => ?_⟩
  · obtain ⟨fn, hresolves, -⟩ := hl.resolves hs.names h.plain
    exact hresolves.plain
  · dsimp only at hid ⊢
    refine ⟨r.1, by simp, ?_⟩
    omega
  · rcases script.registry.declaring_cases r.2 r.1 with ⟨he, -⟩ | ⟨name, -, hnone, he⟩
    · rw [he]
      exact h.names
    · rw [he, List.map_append]
      refine List.nodup_append.2 ⟨h.names, by simp, ?_⟩
      rintro _ hm _ hm' rfl
      obtain ⟨entry, hentry, rfl⟩ := List.mem_map.1 hm
      rw [Registry.get?, Option.map_eq_none_iff, List.find?_eq_none] at hnone
      exact hnone entry hentry (by simpa using hm')
  · rcases script.registry.declaring_cases r.2 r.1 with ⟨he, -⟩ | ⟨name, -, -, he⟩
    · rw [he]
      exact h.order.trans (List.sublist_append_left _ _)
    · rw [he, List.map_append]
      exact h.order.append (List.Sublist.refl _)
  · dsimp only
    have hold : script.statements.find? (fun id => s.declares? id == some name) =
        script.statements.find? fun id => script.store.declares? id == some name :=
      List.find?_congr fun id hid => by rw [hs.declares?_eq hadds.kept hid]
    rw [Registry.get?_declaring, h.first, List.find?_append, hold]
    congr 1
    rw [List.find?_singleton, hl.declares?_eq]
    by_cases hname : r.2 = some name
    · simp [hname]
    · simp [hname]
  · rcases hcases hk with ⟨hlt, hk⟩ | ⟨rfl, rfl⟩
    · rw [makes_append hlt]
      exact h.below k statement hk id
        (hs.below_of_below hadds.kept (List.mem_of_getElem? hk) hb)
    · rw [h.makes_new hs]
      obtain ⟨all, hst, hap⟩ := hadds.statement
      obtain ⟨hlt, hge⟩ := hap.mem id (hst.forest.mem_of_below hst.mem_self hb)
      rw [hsize] at hlt
      exact ⟨hge, Nat.le_of_lt_succ hlt⟩
  · rcases hcases hk with ⟨hlt, hk⟩ | ⟨rfl, rfl⟩
    · rw [makes_append hlt] at hm
      have hid : id < script.store.size := by
        obtain ⟨statement', hk', hle, -⟩ := hm
        exact Nat.lt_of_le_of_lt hle (hs.lt_size (List.mem_of_getElem? hk'))
      dsimp only
      rw [hadds.kept id hid]
      exact (h.looksBack k statement hk id hm).append hs hadds.kept hlt hid
    · rw [h.makes_new hs] at hm
      exact h.looksBack_new hs hl hm.1

end Line

theorem registered_empty : ({} : Script).Registered where
  plain id name hk := by
    rw [kind, get_of_size_le (Nat.zero_le id)] at hk
    cases hk
  covered id hid := absurd hid (Nat.not_lt_zero id)
  names := .nil
  order := .refl _
  first name := rfl
  below k statement hk := by cases hk
  looksBack k statement hk := by cases hk

theorem addLine_registered {v : Vocabulary} {state : Script × Log} (hs : state.1.Sound)
    (h : state.1.Registered) (l : LogicalLine) : (addLine v state l).1.Registered := by
  refine addLine_of_ensures (Q := fun r w => ReadsLine state.1.registry state.1.store w.store r)
    ?_ ?_
  · intro w hw
    rw [← hw]
    exact read_readsLine (hw ▸ hs.names) v l
  · intro id declared w hread
    exact h.add hs hread

/-- **Reading registers the first declarations.** -/
theorem parse_registered {v : Vocabulary} {lines : List String} {script : Script}
    (h : parse v lines = .ok script) : script.Registered := by
  refine (parse_of_addLine (P := fun script => script.Sound ∧ script.Registered)
    ⟨sound_empty, registered_empty⟩ ?_ h).2
  rintro state l ⟨hs, hr⟩
  exact ⟨addLine_sound hs l, addLine_registered hs hr l⟩

/-! ## The line of an element -/

theorem extend_registered {v : Vocabulary} {script : Script} (hs : script.Sound)
    (hr : script.Registered) (lines : List LogicalLine) :
    (script.extend v lines).Registered :=
  (addLines_of_addLine (P := fun script => script.Sound ∧ script.Registered)
    (fun _ l h => ⟨addLine_sound h.1 l, addLine_registered h.1 h.2 l⟩) lines ⟨hs, hr⟩).2

theorem Registered.makes_extend_one {v : Vocabulary} {script : Script} (h : script.Registered)
    (hs : script.Sound) (l : LogicalLine) (id : ElementId) :
    (script.extend v [l]).Makes script.statements.length id ↔
      script.store.size ≤ id ∧ id < (script.extend v [l]).store.size := by
  show (addLine v (script, #[]) l).1.Makes script.statements.length id ↔
    script.store.size ≤ id ∧ id < (addLine v (script, #[]) l).1.store.size
  refine addLine_of_ensures (P := fun b => b.Makes script.statements.length id ↔
      script.store.size ≤ id ∧ id < b.store.size)
    (Q := fun r w => ReadsLine script.registry script.store w.store r) (fun w hw => ?_) ?_
  · rw [← hw]
    exact read_readsLine (hw ▸ hs.names) v l
  · intro statement declared w hread
    rw [h.makes_new hs, hread.size_eq.2, Nat.lt_succ_iff]

/-- The elements that the line of the `k`-th statement has added are those
    between what the lines before it leave and what it leaves itself. -/
theorem makes_extend_iff {v : Vocabulary} {joined : List LogicalLine} {k : Nat} {id : ElementId} :
    (extend v {} joined).Makes k id ↔ k < joined.length ∧
      (extend v {} (joined.take k)).store.size ≤ id ∧
      id < (extend v {} (joined.take (k + 1))).store.size := by
  have hlen : ∀ lines : List LogicalLine, (extend v {} lines).statements.length = lines.length :=
    fun lines => (length_statements_extend {} lines).trans (Nat.zero_add _)
  by_cases hk : k < joined.length
  · have hsound : ∀ lines, (extend v {} lines).Sound := extend_sound sound_empty
    have hregistered := extend_registered (v := v) sound_empty registered_empty (joined.take k)
    have hnext : extend v {} (joined.take (k + 1)) =
        (extend v {} (joined.take k)).extend v [joined[k]] := by
      rw [← extend_append, List.take_succ_eq_append_getElem hk]
    have hall : extend v {} joined =
        (extend v {} (joined.take (k + 1))).extend v (joined.drop (k + 1)) := by
      rw [← extend_append, List.take_append_drop]
    have hcount : k = (extend v {} (joined.take k)).statements.length := by
      rw [hlen, List.length_take_of_le (Nat.le_of_lt hk)]
    have hlt : k < (extend v {} (joined.take (k + 1))).statements.length := by
      rw [hlen, List.length_take_of_le hk]
      exact Nat.lt_succ_self k
    have hone := hregistered.makes_extend_one (v := v) (hsound _) joined[k] id
    -- The lines behind the `k`-th one change nothing of what it has added.
    rw [and_iff_right hk, hall,
      makes_of_prefix_statements (begins_extend (hsound _) _).statements hlt, hnext]
    rwa [← hcount] at hone
  · refine iff_of_false ?_ fun h => hk h.1
    rintro ⟨statement, hstatement, -⟩
    have hlt := (List.getElem?_eq_some_iff.1 hstatement).1
    rw [hlen] at hlt
    exact hk hlt

/-! ## The call graph -/

/-- The line of the function `f` has added a call of `g`. -/
def Calls (script : Script) (f g : ElementId) : Prop :=
  ∃ k statement target id arguments, script.statements[k]? = some statement ∧
    script.store.kind statement = .declaration target f .function ∧ script.Makes k id ∧
    script.store.kind id = .call g arguments

/-- Functions call themselves or earlier functions. -/
theorem Registered.le_of_calls {script : Script} (h : script.Registered) {f g : ElementId}
    (hc : script.Calls f g) : g ≤ f := by
  obtain ⟨k, statement, target, id, arguments, hk, hdecl, hmade, hcall⟩ := hc
  -- The function is a part of its statement, so it comes after all earlier ones.
  have hf : script.Makes k f := by
    refine h.below k statement hk f (Below.root.child ?_)
    rw [hdecl]
    simp [Kind.children]
  obtain ⟨-, hcase⟩ := (h.looksBack k statement hk id hmade).call g arguments hcall
  rcases hcase with ⟨d, names, hd, target', parameters, body, hdk, -⟩ |
    ⟨-, names, ⟨target', parameters, body, hdk, -⟩, -⟩
  · have hmem := List.mem_of_find?_eq_some hd
    obtain ⟨j, hj⟩ := List.getElem?_of_mem (List.mem_of_mem_take hmem)
    obtain ⟨d', hd', hle, -⟩ := h.below j d hj g (Below.root.child (by
      rw [hdk]
      simp [Kind.children]))
    rw [hj] at hd'
    cases hd'
    obtain ⟨-, -, -, hearlier⟩ := hf
    exact Nat.le_of_lt (Nat.lt_of_le_of_lt hle (hearlier d hmem))
  · rw [hdecl] at hdk
    cases hdk
    exact Nat.le_refl _

/-- Functions that call each other are one. -/
theorem Registered.acyclic {script : Script} (h : script.Registered) {f g : ElementId}
    (hfg : Relation.TransGen script.Calls f g) (hgf : Relation.TransGen script.Calls g f) :
    f = g := by
  have hle : ∀ {f g : ElementId}, Relation.TransGen script.Calls f g → g ≤ f := by
    intro f g hc
    induction hc with
    | single hc => exact h.le_of_calls hc
    | tail _ hc ih => exact Nat.le_trans (h.le_of_calls hc) ih
  exact Nat.le_antisymm (hle hgf) (hle hfg)

/-- With distinct names an entry is the one that is found. -/
theorem Registered.mem_entries {script : Script} (h : script.Registered) {name : String}
    {id : ElementId} : (name, id) ∈ script.registry.entries ↔
      script.statements.find? (fun id => script.store.declares? id == some name) = some id := by
  rw [← h.first, Registry.get?, Option.map_eq_some_iff]
  constructor
  · intro hmem
    cases hfind : script.registry.entries.find? fun entry => entry.1 == name with
    | none => exact absurd (List.find?_eq_none.1 hfind _ hmem) (by simp)
    | some entry =>
      have hname : entry.1 = name := by simpa using List.find?_some hfind
      have he := List.inj_on_of_nodup_map h.names (List.mem_of_find?_eq_some hfind) hmem hname
      exact ⟨entry, rfl, by rw [he]⟩
  · rintro ⟨⟨name', id'⟩, hfind, rfl⟩
    have hname : name' = name := by simpa using List.find?_some hfind
    rw [← hname]
    exact List.mem_of_find?_eq_some hfind

/-- The line that has added an element is that of the first statement from
    there on. -/
theorem Registered.existsUnique_makes {script : Script} (h : script.Registered) {id : ElementId}
    (hid : id < script.store.size) : ∃! k, script.Makes k id := by
  have hunique : ∀ {k k' : Nat}, script.Makes k id → script.Makes k' id → k' ≤ k := by
    rintro k k' ⟨statement, hk, hle, -⟩ ⟨-, -, -, hearlier⟩
    refine Nat.not_lt.1 fun hlt => Nat.not_lt.2 hle (hearlier statement ?_)
    exact List.mem_of_getElem? (i := k) (by rw [List.getElem?_take, if_pos hlt, hk])
  obtain ⟨last, hlast, hge⟩ := h.covered id hid
  cases hfind : script.statements.find? fun statement => decide (id ≤ statement) with
  | none => exact absurd (List.find?_eq_none.1 hfind last hlast) (by simpa using hge)
  | some statement =>
    obtain ⟨hle, before, after, he, hbefore⟩ := List.find?_eq_some_iff_append.1 hfind
    have hmakes : script.Makes before.length id := by
      refine ⟨statement, by simp [he], by simpa using hle, fun earlier hm => ?_⟩
      rw [he, List.take_left] at hm
      simpa using hbefore earlier hm
    exact ⟨before.length, hmakes, fun k hk => Nat.le_antisymm (hunique hmakes hk)
      (hunique hk hmakes)⟩

/-! ## Names after reading -/

/-- The first declaration of a name wins, and names refer to statements before
    their own. -/
structure ResolvesBackwards (script : Script) : Prop where
  /-- Every declared name is registered once, in the order of the
      declarations. -/
  names : (script.registry.entries.map Prod.fst).Nodup
  order : (script.registry.entries.map Prod.snd).Sublist script.statements
  entries : ∀ name id, (name, id) ∈ script.registry.entries ↔
    script.statements.find? (fun id => script.store.declares? id == some name) = some id
  /-- Every element was added by the line of one statement, the elements of a
      statement by its own. -/
  made : ∀ id < script.store.size, ∃! k, script.Makes k id
  below : ∀ k statement, script.statements[k]? = some statement →
    ∀ id, Below script.store statement id → script.Makes k id
  looksBack : ∀ k statement, script.statements[k]? = some statement → ∀ id, script.Makes k id →
    script.LooksBack k statement id (script.store.get id).calledName
  acyclic : ∀ f g, Relation.TransGen script.Calls f g → Relation.TransGen script.Calls g f → f = g

end Script

/-- **Names refer backwards**, and the first declaration wins. -/
theorem resolvesBackwards_of_parse {v : Vocabulary} {lines : List String} {script : Script}
    (h : Script.parse v lines = .ok script) : script.ResolvesBackwards ∧
      ∃ joined, LogicalLine.ofLines lines = .ok joined ∧ ∀ k id, script.Makes k id ↔
        k < joined.length ∧ (Script.extend v {} (joined.take k)).store.size ≤ id ∧
        id < (Script.extend v {} (joined.take (k + 1))).store.size := by
  have hr := Script.parse_registered h
  obtain ⟨joined, hjoined, rfl⟩ := Script.parse_eq_ok_iff.1 h
  refine ⟨?_, joined, hjoined, fun k id => Script.makes_extend_iff⟩
  exact ⟨hr.names, hr.order, fun _ _ => hr.mem_entries, fun _ => hr.existsUnique_makes, hr.below,
    hr.looksBack, fun _ _ => hr.acyclic⟩

/-- A function that calls itself and accesses its parameter, an array, a second
    declaration of the function, a call of it, and a call in a body that does
    not reduce. -/
theorem resolvesBackwards_of_parse_lines :
    ∃ script, Script.parse {} ["f = @(x) x(1) + f(2)", "a = [1 2]", "f = @(y) 3", "y = f(a(1))",
      "g = @(u) f(u) +"] = .ok script ∧
      script.registry.entries.map Prod.fst = ["f", "a", "y", "g"] ∧ script.ResolvesBackwards ∧
      ∃ joined, LogicalLine.ofLines ["f = @(x) x(1) + f(2)", "a = [1 2]", "f = @(y) 3",
        "y = f(a(1))", "g = @(u) f(u) +"] = .ok joined ∧ ∀ k id, script.Makes k id ↔
        k < joined.length ∧ (Script.extend {} {} (joined.take k)).store.size ≤ id ∧
        id < (Script.extend {} {} (joined.take (k + 1))).store.size := by
  have hfacts : ∃ script ∈ (Script.parse {} ["f = @(x) x(1) + f(2)", "a = [1 2]", "f = @(y) 3",
      "y = f(a(1))", "g = @(u) f(u) +"]).toOption,
      script.registry.entries.map Prod.fst = ["f", "a", "y", "g"] := by decide +kernel
  obtain ⟨script, hscript, hnames⟩ := hfacts
  have hparse := Script.parse_of_mem hscript
  exact ⟨script, hparse, hnames, resolvesBackwards_of_parse hparse⟩

end FormulaSheet
