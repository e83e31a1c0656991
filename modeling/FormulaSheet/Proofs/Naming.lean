/-
  Names in formulas.

  A declaration and an access write the name they hold as a variable.  A call
  without inlining writes the name of its function as it was declared, so a
  reader sees the same text at the declaration and at the call only for plain
  names.

  * `formatVariable_eq_self_iff`: the names that are written as they stand.
  * `exists_writesFor_rows`: what a statement writes for an element is put
    together from what it writes for the children.
  * `Script.NamesIn script options statement`: how the names of a statement are
    written; `namesIn_of_parse`: every statement of a script is written so.
-/
import FormulaSheet.Proofs.InPlace
import Mathlib.Data.List.TakeWhile

namespace FormulaSheet

open Store Render Rendering

/-! ## Plain names -/

namespace Render

variable {symbols : List (List Char)} {cs : List Char}

theorem writeSymbols_eq_self (h : ∀ symbol ∈ symbols, symbol <:+: cs → symbol = []) :
    writeSymbols symbols cs = cs := by
  induction cs with
  | nil => rw [writeSymbols]
  | cons c cs ih =>
    have hnone : longestSymbol symbols (c :: cs) = [] :=
      longestSymbol_eq_nil_iff.2 fun symbol hm hp => h symbol hm hp.isInfix
    rw [writeSymbols, hnone]
    simp only
    rw [ih fun symbol hm hi => h symbol hm (List.infix_cons_iff.2 (Or.inr hi))]

/-- Every command makes the name longer. -/
theorem length_writeSymbols (symbols : List (List Char)) (cs : List Char) :
    cs.length ≤ (writeSymbols symbols cs).length ∧
      ((writeSymbols symbols cs).length = cs.length →
        ∀ symbol ∈ symbols, symbol <:+: cs → symbol = []) := by
  fun_induction writeSymbols symbols cs with
  | case1 => simp
  | case2 c rest hnone ih =>
    obtain ⟨hle, hsame⟩ := ih
    refine ⟨Nat.succ_le_succ hle, fun hlength symbol hm hi => ?_⟩
    rcases List.infix_cons_iff.1 hi with hp | hi
    · exact longestSymbol_eq_nil_iff.1 hnone symbol hm hp
    · exact hsame (Nat.succ.inj hlength) symbol hm hi
  | case3 c rest s symbol hsome ih =>
    have hthere := longestSymbol_prefix symbols (c :: rest)
    rw [hsome] at hthere
    have hshort := hthere.length_le
    have hrest := ih.1
    simp only [List.length_cons, List.length_drop, List.length_append] at hshort hrest ⊢
    refine ⟨by omega, fun hlength => ?_⟩
    omega

theorem writeSubscript_eq_self (h : '_' ∉ cs) : writeSubscript cs = cs := by
  have hnone : cs.dropWhile (· != '_') = [] := by
    rw [List.dropWhile_eq_nil_iff]
    intro c hc
    have : c ≠ '_' := by
      rintro rfl
      exact h hc
    simpa using this
  rw [writeSubscript, hnone]

theorem length_writeSubscript (h : '_' ∈ cs) : (writeSubscript cs).length = cs.length + 2 := by
  have hsplit := congrArg List.length (List.takeWhile_append_dropWhile (p := (· != '_')) (l := cs))
  rw [writeSubscript]
  split
  · rename_i hnone
    have := List.dropWhile_eq_nil_iff.1 hnone '_' h
    simp at this
  · rename_i parts hdrop
    rw [hdrop] at hsplit
    simp only [List.length_append, List.length_cons, List.length_map, List.length_nil] at hsplit ⊢
    omega

/-- A name without subscript and without special symbol. -/
def IsPlainName (style : Style) (name : String) : Prop :=
  '_' ∉ name.toList ∧
    ∀ symbol ∈ style.specialSymbols, symbol ≠ "" → ¬ symbol.toList <:+: name.toList

/-- **Plain names are the names that are written as they stand.** -/
theorem formatVariable_eq_self_iff {style : Style} {name : String} :
    formatVariable style name = name ↔ IsPlainName style name := by
  have hsymbols : (∀ symbol ∈ style.specialSymbols, symbol ≠ "" →
      ¬ symbol.toList <:+: name.toList) ↔
      ∀ symbol ∈ style.specialSymbols.map String.toList, symbol <:+: name.toList → symbol = [] := by
    constructor
    · intro h _ hm hi
      obtain ⟨symbol, hsymbol, rfl⟩ := List.mem_map.1 hm
      by_contra hne
      exact h symbol hsymbol (fun he => hne (String.toList_eq_nil_iff.2 he)) hi
    · intro h symbol hm hne hi
      exact hne (String.toList_eq_nil_iff.1 (h _ (List.mem_map_of_mem hm) hi))
  rw [IsPlainName, hsymbols, formatVariable, ← String.toList_inj, String.toList_ofList]
  generalize style.specialSymbols.map String.toList = symbols
  constructor
  · intro h
    have hlength := congrArg List.length h
    obtain ⟨hle, hsame⟩ := length_writeSymbols symbols name.toList
    by_cases hmem : '_' ∈ writeSymbols symbols name.toList
    · rw [length_writeSubscript hmem] at hlength
      omega
    · rw [writeSubscript_eq_self hmem] at h hlength
      rw [h] at hmem
      exact ⟨hmem, hsame hlength⟩
  · rintro ⟨hmem, hnone⟩
    rw [writeSymbols_eq_self hnone, writeSubscript_eq_self hmem]

end Render

/-! ## Elements with names -/

/-- What is visible in a statement is the statement, a name, a function, an error
    or part of a finished term. -/
theorem Store.IsStatement.cases_of_visible {s : Store} {statement id : ElementId}
    {all : List ElementId} (h : IsStatement s statement all) (hv : Visible s statement id) :
    id = statement ∨ (∃ name, s.kind id = .name name) ∨
      (∃ parameters body, s.kind id = .function parameters body) ∨
      (∃ fault ids, s.kind id = .error fault ids) ∨ (s.get id).InTerm s s.IsFunction := by
  have body : ∀ {targets : ElementId → Prop} {root : ElementId} {all : List ElementId},
      Body targets s root all → (∀ f, targets f → s.IsFunction f) → Visible s root id →
      (∃ fault ids, s.kind id = .error fault ids) ∨ (s.get id).InTerm s s.IsFunction := by
    intro targets root all hb ht hroot
    rcases hb.finished with hall | ⟨fault, ids, hk, -⟩
    · have hid := hb.forest.mem_of_below (hb.forest.subset List.mem_cons_self)
        (below_of_visible hroot)
      exact Or.inr ((hall id hid).2.mono ht)
    · rcases hroot.of_root with rfl | ⟨hne, -⟩
      · exact Or.inl ⟨fault, ids, hk⟩
      · exact absurd hk (hne fault ids)
  rcases hv.of_root with rfl | ⟨-, child, hc, hchild⟩
  · exact Or.inl rfl
  refine Or.inr ?_
  cases h with
  | line hk => rcases hk with hk | hk <;> rw [hk] at hc <;> cases hc
  | value hk ht hb =>
    rw [hk] at hc
    rcases List.mem_pair.1 hc with rfl | rfl
    · rw [hchild.eq_of_name ht]
      exact Or.inl ⟨_, ht⟩
    · exact Or.inr (Or.inr (body hb (fun _ h => h) hchild))
  | function hk ht hf hp hb =>
    rw [hk] at hc
    rcases List.mem_pair.1 hc with rfl | rfl
    · rw [hchild.eq_of_name ht]
      exact Or.inl ⟨_, ht⟩
    · rcases hchild.of_root with rfl | ⟨-, part, hpart, hid⟩
      · exact Or.inr (Or.inl ⟨_, _, hf⟩)
      · rw [hf] at hpart
        rcases List.mem_append.1 hpart with hm | hm
        · obtain ⟨name, hname⟩ := hp part hm
          rw [hid.eq_of_name hname]
          exact Or.inl ⟨name, hname⟩
        · rw [List.mem_singleton.1 hm] at hid
          exact Or.inr (Or.inr (body hb (fun _ h => h.1) hid))

variable {script : Script} {options : RenderOptions} {all : List ElementId}
  {statement id target : ElementId}

theorem Script.Sound.name_of_access (hs : script.Sound) (hid : statement ∈ script.statements)
    (hv : Visible script.store statement id) {indexes : List ElementId}
    (hk : script.store.kind id = .access target indexes) :
    ∃ name, script.store.kind target = .name name := by
  obtain ⟨all, hst, -⟩ := hs.statement statement hid
  rcases hst.cases_of_visible hv with rfl | ⟨_, h⟩ | ⟨_, _, h⟩ | ⟨_, _, h⟩ | hin
  · cases hst with
    | line h => simp [hk] at h
    | value h => simp [hk] at h
    | function h => simp [hk] at h
  · simp [hk] at h
  · simp [hk] at h
  · simp [hk] at h
  · unfold Element.InTerm at hin
    rwa [← Store.kind, hk] at hin

theorem Script.Sound.name_of_declaration (hs : script.Sound)
    (hid : statement ∈ script.statements) (hv : Visible script.store statement id)
    {content : ElementId} {form : Form}
    (hk : script.store.kind id = .declaration target content form) :
    id = statement ∧ ∃ name, script.store.kind target = .name name := by
  obtain ⟨all, hst, -⟩ := hs.statement statement hid
  rcases hst.cases_of_visible hv with rfl | ⟨_, h⟩ | ⟨_, _, h⟩ | ⟨_, _, h⟩ | hin
  · refine ⟨rfl, ?_⟩
    cases hst with
    | line h => simp [hk] at h
    | value h ht =>
      rw [hk] at h
      cases h
      exact ⟨_, ht⟩
    | function h ht =>
      rw [hk] at h
      cases h
      exact ⟨_, ht⟩
  · simp [hk] at h
  · simp [hk] at h
  · simp [hk] at h
  · unfold Element.InTerm at hin
    rw [← Store.kind, hk] at hin
    exact hin.elim

/-! ## Names in statements -/

/-- What a statement writes for an element is put together from what it writes
    for its children. -/
theorem exists_writesFor_rows (hs : script.Sound) (hl : script.Linked all)
    (hoff : options.inlining = false) (hid : statement ∈ script.statements)
    (hblank : script.store.kind statement ≠ .blank) (hv : Visible script.store statement id) :
    ∃ rows text,
      List.Forall₂ (List.Forall₂ fun r t => WritesFor script options statement r.id t)
        (plan script options id (script.store.get id).owner []).rows rows ∧
      (plan script options id (script.store.get id).owner []).finish rows = .ok text ∧
      WritesFor script options statement id text := by
  obtain ⟨text, htext, hfor⟩ := exists_writesFor hs hl hoff hid hblank hv
  obtain ⟨n, hn⟩ : ∃ n, depthBound script.store = n + 1 := ⟨_, rfl⟩
  rw [hn, renderWithin, renderNode_eq] at htext
  obtain ⟨rows, hrows, hfinish⟩ := Plan.gives_run ⟨#[], htext #[]⟩
  refine ⟨rows, text, ?_, hfinish, hfor⟩
  refine (forall₂_mem_rows hrows).imp fun row texts hrow => hrow.imp ?_
  rintro r t ⟨⟨row', hrow', hr⟩, ht⟩
  obtain ⟨hcomp, child, hchild, rfl⟩ := eq_of_mem_plan hoff hrow' hr
  have hsee : Visible script.store statement child :=
    hv.child (ne_error_of_isCompound hcomp) hchild
  have howner := hl.links id (hl.mem_of_below hid (below_of_visible hv)) child hchild
  obtain ⟨text', htext', hfor'⟩ := exists_writesFor hs hl hoff hid hblank hsee
  have hdeep := (always_of_gives ht).refines (refines_renderWithin (Nat.le_succ n) _ _ _)
  rw [hn, howner] at htext'
  rwa [hdeep.eq htext']

/-- How the names of a statement are written. -/
structure Script.NamesIn (script : Script) (options : RenderOptions) (statement : ElementId) :
    Prop where
  /-- A declared name is written as a variable, and the line starts with it. -/
  declaration : ∀ id, Visible script.store statement id → ∀ target content form,
    script.store.kind id = .declaration target content form →
    ∃ name text, script.store.kind target = .name name ∧
      WritesFor script options statement target (formatVariable options.style name) ∧
      WritesFor script options statement content text ∧
      Always (renderElement script options statement)
        (options.style.topLevel (formatVariable options.style name ++ " = " ++ text))
  /-- The name of an access is written as a variable. -/
  access : ∀ id, Visible script.store statement id → ∀ target indexes,
    script.store.kind id = .access target indexes →
    ∃ name texts, script.store.kind target = .name name ∧
      List.Forall₂ (WritesFor script options statement) indexes texts ∧
      WritesFor script options statement id
        (listText (formatVariable options.style name) "," texts)
  /-- The name of a call is written as it stands, which is what the declaration of
      the function writes if the name is plain, and only then. -/
  call : ∀ id, Visible script.store statement id → ∀ function arguments,
    script.store.kind id = .call function arguments →
    ∃ declaration target name texts, declaration ∈ script.statements ∧
      script.store.kind declaration = .declaration target function .function ∧
      script.store.kind target = .name name ∧
      WritesFor script options declaration target (formatVariable options.style name) ∧
      List.Forall₂ (WritesFor script options statement) arguments texts ∧
      WritesFor script options statement id (listText name ", " texts) ∧
      (WritesFor script options statement id
          (listText (formatVariable options.style name) ", " texts) ↔
        IsPlainName options.style name)

theorem listText_inj {head head' separator : String} {texts : List String} :
    listText head separator texts = listText head' separator texts ↔ head = head' := by
  simp [listText, String.append_assoc]

theorem forall₂_of_below {P : ElementId → String → Prop} {ids : List ElementId}
    {texts : List String} (h : List.Forall₂ (fun r t => P r.id t) (below id [] ids) texts) :
    List.Forall₂ P ids texts := by
  rw [below, List.forall₂_map_left_iff] at h
  exact h

/-- A statement as a whole is its line. -/
theorem always_of_writesFor_self {text : String}
    (h : WritesFor script options statement statement text) :
    Always (renderElement script options statement) (options.style.topLevel text) := by
  obtain ⟨before, after, hput, hline⟩ := h
  obtain ⟨n, hn⟩ : ∃ n, depthBound script.store = n + 1 := ⟨_, rfl⟩
  have hempty := hput ""
  rw [hn, renderPutting_target, String.append_empty] at hempty
  have hnone : before ++ after = "" := hempty.eq (always_pure "")
  obtain ⟨rfl, rfl⟩ := String.append_eq_empty_iff.1 hnone
  rwa [String.empty_append, String.append_empty] at hline

section

variable (hs : script.Sound) (hl : script.Linked all) (hoff : options.inlining = false)
  (hid : statement ∈ script.statements) (hv : Visible script.store statement id)
include hs hl hoff hid hv

theorem writesFor_name (hblank : script.store.kind statement ≠ .blank) {name : String}
    (hk : script.store.kind id = .name name) :
    WritesFor script options statement id (formatVariable options.style name) := by
  obtain ⟨rows, text, -, hfinish, hfor⟩ := exists_writesFor_rows hs hl hoff hid hblank hv
  have hplan : plan script options id (script.store.get id).owner [] =
      .text (formatVariable options.style name) := by
    unfold plan
    dsimp only
    rw [← Store.kind, hk]
    rfl
  rw [hplan] at hfinish
  rwa [Except.ok.inj hfinish]

theorem writesFor_declaration {content : ElementId} {form : Form}
    (hk : script.store.kind id = .declaration target content form) :
    ∃ name text, script.store.kind target = .name name ∧
      WritesFor script options statement target (formatVariable options.style name) ∧
      WritesFor script options statement content text ∧
      Always (renderElement script options statement)
        (options.style.topLevel (formatVariable options.style name ++ " = " ++ text)) := by
  obtain ⟨rfl, name, hname⟩ := hs.name_of_declaration hid hv hk
  have hblank : script.store.kind id ≠ .blank := by simp [hk]
  obtain ⟨rows, whole, hrows, hfinish, hfor⟩ := exists_writesFor_rows hs hl hoff hid hblank hv
  unfold plan at hrows hfinish
  dsimp only at hrows hfinish
  rw [← Store.kind, hk] at hrows hfinish
  obtain _ | ⟨_ | ⟨hfirst, _ | _⟩, _ | ⟨_ | ⟨hlast, _ | _⟩, _ | _⟩⟩ := hrows
  have hsee : Visible script.store id target :=
    hv.child (by simp [hk]) (by simp [hk, Kind.children])
  obtain rfl := hfirst.eq (writesFor_name hs hl hoff hid hsee hblank hname)
  refine ⟨name, _, hname, hfirst, hlast, ?_⟩
  have hwhole := always_of_writesFor_self hfor
  rw [← Except.ok.inj hfinish] at hwhole
  simpa using hwhole

theorem writesFor_access {indexes : List ElementId}
    (hk : script.store.kind id = .access target indexes) :
    ∃ name texts, script.store.kind target = .name name ∧
      List.Forall₂ (WritesFor script options statement) indexes texts ∧
      WritesFor script options statement id
        (listText (formatVariable options.style name) "," texts) := by
  obtain ⟨name, hname⟩ := hs.name_of_access hid hv hk
  have hblank := hv.root_ne_blank fun hb => absurd hb (by simp [hk])
  obtain ⟨rows, whole, hrows, hfinish, hfor⟩ := exists_writesFor_rows hs hl hoff hid hblank hv
  unfold plan at hrows hfinish
  dsimp only at hrows hfinish
  rw [← Store.kind, hk] at hrows hfinish
  obtain _ | ⟨_ | ⟨hfirst, _ | _⟩, _ | ⟨hindexes, _ | _⟩⟩ := hrows
  have hsee : Visible script.store statement target :=
    hv.child (by simp [hk]) (by simp [hk, Kind.children])
  obtain rfl := hfirst.eq (writesFor_name hs hl hoff hid hsee hblank hname)
  refine ⟨name, _, hname, forall₂_of_below hindexes, ?_⟩
  rw [← Except.ok.inj hfinish] at hfor
  simpa using hfor

theorem writesFor_call {function : ElementId} {arguments : List ElementId}
    (hk : script.store.kind id = .call function arguments) :
    ∃ declaration target name texts, declaration ∈ script.statements ∧
      script.store.kind declaration = .declaration target function .function ∧
      script.store.kind target = .name name ∧
      WritesFor script options declaration target (formatVariable options.style name) ∧
      List.Forall₂ (WritesFor script options statement) arguments texts ∧
      WritesFor script options statement id (listText name ", " texts) := by
  obtain ⟨parameters, body, hf⟩ := (hs.wellFormed ⟨statement, hid, hv⟩).callee function arguments hk
  obtain ⟨declaration, target, b, rfl, hdecl⟩ := hs.declares hf
  obtain ⟨name, hname⟩ := hdecl.target
  have hdeclared : script.declaredName? function = some name := by
    rw [Script.declaredName?, hdecl.owner]
    simp only [hdecl.kind, hname, Kind.name?]
  have hblank := hv.root_ne_blank fun hb => absurd hb (by simp [hk])
  obtain ⟨rows, whole, hrows, hfinish, hfor⟩ := exists_writesFor_rows hs hl hoff hid hblank hv
  unfold plan at hrows hfinish
  dsimp only at hrows hfinish
  rw [← Store.kind, hk] at hrows hfinish
  simp only [planCall, hf, hdeclared, hoff, Bool.not_false, Bool.true_or, if_true] at hrows hfinish
  obtain _ | ⟨harguments, _ | _⟩ := hrows
  have hsee : Visible script.store declaration target :=
    Visible.root.child (by simp [hdecl.kind]) (by simp [hdecl.kind, Kind.children])
  have htarget : WritesFor script options declaration target (formatVariable options.style name) :=
    writesFor_name hs hl hoff hdecl.mem hsee (by simp [hdecl.kind]) hname
  refine ⟨declaration, target, name, _, hdecl.mem, hdecl.kind, hname, htarget,
    forall₂_of_below harguments, ?_⟩
  rw [← Except.ok.inj hfinish] at hfor
  simpa using hfor

end

/-- **How names are written.**  Without inlining every statement of a script
    writes the names of declarations and accesses as variables, and the names of
    calls as they stand. -/
theorem namesIn_of_parse {v : Vocabulary} {lines : List String} {script : Script}
    (h : Script.parse v lines = .ok script) (options : RenderOptions)
    (hoff : options.inlining = false) :
    ∀ statement ∈ script.statements, script.NamesIn options statement := by
  intro statement hid
  have hs := Script.parse_sound h
  obtain ⟨all, hl⟩ := Script.parse_linked h
  refine ⟨fun id hv target content form hk => writesFor_declaration hs hl hoff hid hv hk,
    fun id hv target indexes hk => writesFor_access hs hl hoff hid hv hk,
    fun id hv function arguments hk => ?_⟩
  obtain ⟨declaration, target, name, texts, hmem, hdecl, hname, htarget, harguments, hfor⟩ :=
    writesFor_call hs hl hoff hid hv hk
  refine ⟨declaration, target, name, texts, hmem, hdecl, hname, htarget, harguments, hfor, ?_⟩
  rw [← formatVariable_eq_self_iff]
  constructor
  · intro hformatted
    exact listText_inj.1 (hformatted.eq hfor)
  · intro hplain
    rwa [hplain]

/-- Two calls of functions, one of them with a plain name, and an access. -/
theorem namesIn_of_parse_lines :
    ∃ script, Script.parse {} ["alpha_1 = @(x) x", "f = @(x) x", "a_2 = [1 2]",
        "y_max_0 = alpha_1(a_2(1)) + f(3)"] = .ok script ∧
      script.render { inlining := false } = some ["$\\alpha _\x7b1\x7d = @(x) x$ \\par",
        "$f = @(x) x$ \\par", "$a_\x7b2\x7d = \\begin\x7bbmatrix\x7d1&2\\end\x7bbmatrix\x7d$ \\par",
        "$y_\x7bmax,0\x7d = alpha_1(a_\x7b2\x7d(1)) + f(3)$ \\par"] ∧
      ∀ statement ∈ script.statements, script.NamesIn { inlining := false } statement := by
  have hfacts : ∃ script ∈ (Script.parse {} ["alpha_1 = @(x) x", "f = @(x) x", "a_2 = [1 2]",
        "y_max_0 = alpha_1(a_2(1)) + f(3)"]).toOption,
      script.render { inlining := false } = some ["$\\alpha _\x7b1\x7d = @(x) x$ \\par",
        "$f = @(x) x$ \\par", "$a_\x7b2\x7d = \\begin\x7bbmatrix\x7d1&2\\end\x7bbmatrix\x7d$ \\par",
        "$y_\x7bmax,0\x7d = alpha_1(a_\x7b2\x7d(1)) + f(3)$ \\par"] := by
    decide +kernel
  obtain ⟨script, hscript, hrender⟩ := hfacts
  have hparse := Script.parse_of_mem hscript
  exact ⟨script, hparse, hrender, namesIn_of_parse hparse { inlining := false } rfl⟩

/-- The declaration writes `alpha_1` as a variable, the call does not. -/
theorem call_ne_formatVariable :
    ∃ script ∈ (Script.parse {} ["alpha_1 = @(x) x", "y = alpha_1(2)"]).toOption,
      script.render { inlining := false } =
        some ["$" ++ formatVariable {} "alpha_1" ++ " = @(x) x$ \\par",
          "$y = alpha_1(2)$ \\par"] ∧
      script.render { inlining := false } ≠
        some ["$" ++ formatVariable {} "alpha_1" ++ " = @(x) x$ \\par",
          "$y = " ++ formatVariable {} "alpha_1" ++ "(2)$ \\par"] := by
  decide +kernel

end FormulaSheet
