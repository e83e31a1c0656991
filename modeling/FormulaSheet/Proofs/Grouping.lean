/-
  Which formulas keep their grouping when they are written and read again.

  * `PlainTokens style tokens`: values, variables and operators that are written as they
    are, and parentheses that open no call.
  * `DeclaresTerm s id name elements content`: `id` declares `name`, and its value `content`
    has been read from the given elements.  Every line `name = …` of plain tokens is read
    so (`read_declaresTerm`), wherever it stands (`HasLine.exists_declaresTerm`).
  * `isAt_rendered_iff`: the value of such a line is a formula, and the line that is rendered
    has the same formula as its value exactly if no binary operator has a sign as its
    first operand.
-/
import FormulaSheet.Proofs.Independence
import FormulaSheet.Proofs.Writing

namespace FormulaSheet

open Store Token Render Rendering

variable {style : Style}

/-! ## Plain tokens -/

/-- Tokens that are written as they are, and among which no parenthesis opens a call. -/
structure PlainTokens (style : Style) (tokens : List String) : Prop where
  plain : ∀ token ∈ tokens, (Kind.ofToken {} none token).isPlain style = true
  noCall : tokens.IsChain fun previous token =>
    Kind.ofToken {} none token = .delimiter .parenthesis .opening →
      (Kind.ofToken {} none previous).mayBeCalled = false

/-- Their elements. -/
structure PlainElements (style : Style) (elements : List Element) : Prop where
  plain : ∀ e ∈ elements, e.kind.isPlain style = true
  noCall : elements.IsChain fun previous e =>
    e.kind = .delimiter .parenthesis .opening → previous.kind.mayBeCalled = false

/-- Only the role of an operator depends on what stands before it. -/
theorem Kind.ofToken_none (style : Style) (previous : Option Kind) (token : String) :
    (ofToken {} previous token).isPlain style = (ofToken {} none token).isPlain style ∧
      (ofToken {} previous token).mayBeCalled = (ofToken {} none token).mayBeCalled ∧
      (ofToken {} previous token = .delimiter .parenthesis .opening →
        ofToken {} none token = .delimiter .parenthesis .opening) := by
  cases ho : ({} : Vocabulary).isOperator token with
  | true =>
    rw [ofToken_of_isOperator ho, ofToken_of_isOperator ho]
    exact ⟨rfl, rfl, by simp⟩
  | false =>
    rw [ofToken_congr ho previous none]
    exact ⟨rfl, rfl, id⟩

theorem PlainTokens.plainElements {tokens : List String} (h : PlainTokens style tokens)
    (line : Nat) (previous : Option Kind) :
    PlainElements style (classify {} line previous tokens) := by
  induction tokens generalizing previous with
  | nil => exact ⟨by simp [classify], .nil⟩
  | cons token tokens ih =>
    obtain ⟨hplain, htokens⟩ := List.forall_mem_cons.1 h.plain
    obtain ⟨hhead, hchain⟩ := List.isChain_cons.1 h.noCall
    obtain ⟨hp, hn⟩ := ih ⟨htokens, hchain⟩ (some (Kind.ofToken {} previous token))
    refine ⟨List.forall_mem_cons.2 ⟨?_, hp⟩, List.isChain_cons.2 ⟨?_, hn⟩⟩
    · rw [(Kind.ofToken_none style previous token).1, hplain]
    · intro e he hk
      rw [(Kind.ofToken_none style previous token).2.1]
      cases tokens with
      | nil => cases he
      | cons next tokens =>
        obtain rfl := Option.some.inj he
        exact hhead next rfl ((Kind.ofToken_none style _ next).2.2 hk)

namespace Formula

theorem plainElements_enclose {line : Nat} {elements : List Element}
    (h : PlainElements style elements) : PlainElements style (enclose line elements) := by
  refine ⟨fun e he => ?_, ?_⟩
  · simp only [enclose, List.mem_cons, List.mem_append, List.not_mem_nil, or_false] at he
    rcases he with rfl | he | rfl
    · rfl
    · exact h.plain e he
    · rfl
  · rw [enclose, List.isChain_cons, List.isChain_append]
    refine ⟨fun _ _ _ => rfl, h.noCall, .singleton _, fun _ _ e he hk => ?_⟩
    obtain rfl := Option.some.inj he
    cases hk

/-- An operator stands before no call and is none. -/
theorem plainElements_cons {symbol : String} {role : Role} {line : Nat} {elements : List Element}
    (hs : symbol ≠ "/") (h : PlainElements style elements) :
    PlainElements style
      ({ kind := .operator symbol role none none, raw := symbol, line } :: elements) := by
  refine ⟨List.forall_mem_cons.2 ⟨bne_iff_ne.2 hs, h.plain⟩, ?_⟩
  rw [List.isChain_cons]
  exact ⟨fun _ _ _ => rfl, h.noCall⟩

theorem plainElements_elements {f : Formula} (h : f.Writable style) (line : Nat) (nested : Bool) :
    PlainElements style (f.elements line nested) := by
  induction f generalizing nested with
  | value text => exact ⟨by simp [elements, Kind.isPlain], .singleton _⟩
  | name text => exact ⟨by simp [elements, Kind.isPlain, h.2.2], .singleton _⟩
  | sign symbol operand ih =>
    exact plainElements_cons (ne_slash_of_mem_plainSymbols h.1) (ih h.2 true)
  | function symbol operand ih =>
    refine plainElements_cons ?_ (plainElements_enclose (ih h.2.2 true))
    rintro rfl
    exact absurd h.2.1 (by decide)
  | binary symbol left right ihl ihr =>
    have hright : PlainElements style
        ({ kind := .operator symbol .binary none none, raw := symbol, line } ::
          right.elements line true) :=
      plainElements_cons (ne_slash_of_mem_plainSymbols h.1) (ihr h.2.2 true)
    have hall : PlainElements style ((binary symbol left right).elements line false) := by
      refine ⟨fun e he => ?_, List.isChain_append.2 ⟨(ihl h.2.1 true).noCall, hright.noCall, ?_⟩⟩
      · exact (List.mem_append.1 he).elim ((ihl h.2.1 true).plain e) (hright.plain e)
      · intro _ _ e he hk
        obtain rfl := Option.some.inj he
        cases hk
    cases nested with
    | false => exact hall
    | true => exact plainElements_enclose hall

end Formula

/-! ## Reading a line -/

theorem place_get {elements : List Element}
    (h : ∀ e ∈ elements, e.IsToken ∧ e.kind.HasPlainName) (w : Workspace) :
    (place elements).Ensures w fun ids w' => ids.map w'.store.get = elements := by
  induction elements generalizing w with
  | nil => rfl
  | cons e elements ih =>
    obtain ⟨-, helements⟩ := List.forall_mem_cons.1 h
    refine ensures_place_cons fun log => ?_
    refine ((place_places helements _).and (ih helements _)).imp ?_
    rintro ids w' ⟨hplaces, hids⟩
    have hlt : w.store.size < (w.store.push e).size := by
      rw [size_push]
      exact Nat.lt_succ_self _
    rw [List.map_cons, hids, hplaces.kept _ hlt, get_push_size]

namespace Term

variable {c : Context} {name : String} {rhs : List ElementId} {w : Workspace}

theorem readValue_plain (h : Plain w.store rhs)
    (hrhs : ∀ id ∈ rhs, (w.store.kind id).isPlain style = true) :
    (readValue c name rhs).Ensures w fun r w' => match r with
      | .ok value => value.2 = .plain ∧ (∃ t, Derives w.store .term rhs t) ∧
          ∀ t, Derives w.store .term rhs t → value.1 = t.root ∧ t.Holds w.store w'.store
      | .error _ => ∀ t, ¬ Derives w.store .term rhs t := by
  rw [readValue, Reducing.ensures_store_bind]
  cases rhs with
  | nil =>
    intro t ht
    exact List.not_mem_nil (ht.ids_sublist.subset t.root_mem_ids)
  | cons first rest =>
    have hfirst := hrhs first List.mem_cons_self
    have hmarker : w.store.kind first ≠ .functionMarker := by
      intro hk
      rw [hk] at hfirst
      cases hfirst
    have hbracket := (h.noBracket first List.mem_cons_self).1
    have hwhole : wholeArray? w.store (first :: rest) = none := by
      rw [wholeArray?, if_neg hbracket]
    dsimp only
    rw [if_neg hmarker, hwhole]
    have hcomplete : (reduce c (first :: rest)).Ensures w fun r w' =>
        ∀ t, Derives w.store .term (first :: rest) t →
          r = .ok t.root ∧ t.Holds w.store w'.store :=
      fun t ht => reduce_complete c (first :: rest) w h t ht
    refine Reducing.ensures_bind (hcomplete.and (reduce_sound c (first :: rest) w h)) ?_ ?_
    · rintro root w' ⟨hall, hsome⟩
      obtain ⟨t, ht, -⟩ := hsome root rfl
      refine ⟨rfl, ⟨t, ht⟩, fun u hu => ?_⟩
      obtain ⟨hroot, hholds⟩ := hall u hu
      exact ⟨Except.ok.inj hroot, hholds⟩
    · rintro fault w' ⟨hall, -⟩ t ht
      cases (hall t ht).1

/-- **The value of plain elements** is the tree of their derivation, or an error if there
    is none. -/
theorem declarationValue_plain (h : Plain w.store rhs)
    (hrhs : ∀ id ∈ rhs, (w.store.kind id).isPlain style = true) :
    (declarationValue c name rhs).Ensures w fun r w' => r.2 = .plain ∧
      (∀ t, Derives w.store .term rhs t → r.1 = t.root ∧ t.Holds w.store w'.store) ∧
      ((∃ t, Derives w.store .term rhs t) ∨ ∃ fault ids, w'.store.kind r.1 = .error fault ids) := by
  rw [declarationValue, Building.ensures_bind, Building.ensures_run]
  refine (readValue_plain h hrhs).imp fun r w' hr => ?_
  cases r with
  | ok value => exact ⟨hr.1, hr.2.2, Or.inl hr.2.1⟩
  | error fault =>
    dsimp only
    rw [Building.ensures_bind, Building.Ensures, run_release, Building.ensures_bind,
      Building.Ensures, run_buildError]
    refine ⟨rfl, fun t ht => absurd ht (hr t), Or.inr ⟨fault, rhs, ?_⟩⟩
    exact congrArg Element.kind (get_push_size _ _)

theorem declarationValue_name (name : String) (rhs : List ElementId) (w : Workspace) :
    (declarationValue c name rhs).Ensures w fun r w' => r.2 = .plain →
      ∀ id text, w.store.kind id = .name text → w'.store.kind id = .name text := by
  refine (declarationValue_reads name rhs w).imp ?_
  rintro ⟨content, form⟩ w' hreads rfl id text hk
  generalize w'.store = s' at hreads
  cases hreads with
  | term _ hb =>
    cases hb with
    | term h hr => exact (Steps.later h).name hk
    | error h he ho => exact ((Steps.later h).push _).name hk

end Term

/-- The element declares the name, and its value has been read from the given elements. -/
structure DeclaresTerm (s : Store) (id : ElementId) (name : String) (elements : List Element)
    (content : ElementId) : Prop where
  declaration : ∃ target, s.kind id = .declaration target content .plain ∧
    s.kind target = .name name
  value : ∃ (s₀ : Store) (rhs : List ElementId), rhs.map s₀.get = elements ∧
    (∀ f, DerivesFormula s₀ .term rhs f → f.IsAt s content) ∧
    ((∃ t, Derives s₀ .term rhs t) ∨ ∃ fault ids, s.kind content = .error fault ids)

theorem plain_of_places {s s₁ : Store} {ids rhs : List ElementId} (h : Places s s₁ ids)
    (hsub : rhs.Sublist ids) (hplain : PlainElements style (rhs.map s₁.get)) : Plain s₁ rhs where
  nodup := hsub.nodup h.apart.nodup
  token id hid := by
    obtain ⟨hlt, hle⟩ := h.apart.mem id (hsub.subset hid)
    exact (h.token id hle hlt).1
  noBracket id hid := by
    have hk : (s₁.kind id).isPlain style = true := hplain.plain _ (List.mem_map.2 ⟨id, hid, rfl⟩)
    constructor
    · intro he
      rw [he] at hk
      cases hk
    · intro he
      rw [he] at hk
      cases hk
  noCall := (List.isChain_map s₁.get).1 hplain.noCall

theorem dropTerminator_eq_self {s : Store} {ids : List ElementId}
    (h : ∀ id ∈ ids, s.kind id ≠ .semicolon) : Statement.dropTerminator s ids = ids := by
  unfold Statement.dropTerminator
  cases hl : ids.getLast? with
  | none => rfl
  | some last =>
    dsimp only
    rw [if_neg (h last (List.mem_of_getLast? hl))]

theorem kind_setOwners_push {s : Store} {x : ElementId} (hx : s.kind x ≠ .blank) (e : Element)
    (root : ElementId) : ((s.push e).setOwners root).kind x = s.kind x := by
  rw [(claimed_setOwners _ _).kind_eq, kind, get_push_of_lt e (lt_size_of_kind hx), kind]

theorem buildDeclaration_declaresTerm {w : Workspace} {registry : Registry} {l : LogicalLine}
    {target : ElementId} {name : String} {rhs : List ElementId}
    (ht : w.store.kind target = .name name) (h : Plain w.store rhs)
    (hrhs : ∀ id ∈ rhs, (w.store.kind id).isPlain style = true) :
    (Statement.buildDeclaration {} registry l target name rhs).Ensures w fun id w' =>
      ∃ content, DeclaresTerm w'.store id name (rhs.map w.store.get) content := by
  rw [Statement.buildDeclaration, Building.ensures_bind]
  refine ((Term.declarationValue_plain h hrhs).and (Term.declarationValue_name name rhs w)).imp ?_
  rintro ⟨content, form⟩ w₁ ⟨⟨rfl, hholds, hsome⟩, hname⟩
  refine ⟨content, ⟨target, ?_, ?_⟩, w.store, rhs, rfl, ?_, ?_⟩
  · exact ((claimed_setOwners _ _).kind_eq _).trans (congrArg Element.kind (get_push_size _ _))
  · have hk := hname rfl target name ht
    exact (kind_setOwners_push (by simp [hk]) _ _).trans hk
  · rintro f ⟨t, hd, hs⟩
    obtain ⟨rfl, ht⟩ := hholds t hd
    exact (hs.isAt ht).congr fun x hx => kind_setOwners_push hx _ _
  · refine hsome.imp id ?_
    rintro ⟨fault, ids, hk⟩
    exact ⟨fault, ids, (kind_setOwners_push (by simp [hk]) _ _).trans hk⟩

/-- **Reading a line `name = …` of plain elements.** -/
theorem read_declaresTerm {registry : Registry} {l : LogicalLine} {name : String}
    {tokens : List String} (htokens : tokenize {} l.text = name :: "=" :: tokens)
    (hname : Kind.ofToken {} none name = .name name)
    (hplain : PlainElements style (classify {} l.line (some .assignment) tokens))
    (w : Workspace) :
    (Statement.read {} registry l).Ensures w fun r w' => ∃ content,
      DeclaresTerm w'.store r.1 name (classify {} l.line (some .assignment) tokens) content := by
  have hassign : Kind.ofToken {} (some (.name name)) "=" = .assignment :=
    (Kind.ofToken_congr (by decide) _ none).trans (by decide)
  have hclassify : classify {} l.line none (tokenize {} l.text) =
      { kind := .name name, raw := name, line := l.line } ::
        { kind := .assignment, raw := "=", line := l.line } ::
        classify {} l.line (some .assignment) tokens := by
    rw [htokens, classify, classify, hname, hassign]
  have htoken : ∀ e ∈ classify {} l.line none (tokenize {} l.text),
      e.IsToken ∧ e.kind.HasPlainName :=
    fun e he => ⟨isToken_of_mem_classify he, hasPlainName_of_mem_classify he⟩
  rw [Statement.read, Building.ensures_bind]
  refine ((place_places htoken w).and (place_get htoken w)).imp ?_
  rintro ids w₁ ⟨hplaces, hids⟩
  rw [hclassify] at hids
  obtain ⟨target, _, rfl, htarget, hids⟩ := List.map_eq_cons_iff.1 hids
  obtain ⟨second, rhs, rfl, hsecond, hrhs⟩ := List.map_eq_cons_iff.1 hids
  have hkt : w₁.store.kind target = .name name := congrArg Element.kind htarget
  have hks : w₁.store.kind second = .assignment := congrArg Element.kind hsecond
  rw [← hrhs] at hplain ⊢
  have hkr : ∀ id ∈ rhs, (w₁.store.kind id).isPlain style = true :=
    fun id hid => hplain.plain _ (List.mem_map.2 ⟨id, hid, rfl⟩)
  have hend : ∀ id ∈ target :: second :: rhs, w₁.store.kind id ≠ .semicolon := by
    simp only [List.mem_cons]
    rintro id (rfl | rfl | hid) hk
    · cases hkt.symm.trans hk
    · cases hks.symm.trans hk
    · have := hkr id hid
      rw [hk] at this
      cases this
  rw [Building.ensures_bind, Building.Ensures, Building.run_store]
  dsimp only
  rw [dropTerminator_eq_self hend]
  dsimp only
  rw [hkt, hks]
  dsimp only
  rw [Building.ensures_bind]
  have hsub : rhs.Sublist (target :: second :: rhs) :=
    (List.sublist_cons_self second rhs).trans (List.sublist_cons_self target _)
  exact buildDeclaration_declaresTerm hkt (plain_of_places hplaces hsub hplain) hkr

/-! ## Lines of a script -/

theorem DeclaresTerm.congr {s s' : Store} {id content : ElementId} {name : String}
    {elements : List Element} (h : DeclaresTerm s id name elements content)
    (hs : ∀ x, s.kind x ≠ .blank → s'.kind x = s.kind x) :
    DeclaresTerm s' id name elements content := by
  obtain ⟨⟨target, hid, ht⟩, s₀, rhs, hrhs, hformula, hsome⟩ := h
  refine ⟨⟨target, (hs id (by simp [hid])).trans hid, (hs target (by simp [ht])).trans ht⟩, s₀, rhs,
    hrhs, fun f hf => (hformula f hf).congr hs, hsome.imp_right ?_⟩
  rintro ⟨fault, ids, hk⟩
  exact ⟨fault, ids, (hs content (by simp [hk])).trans hk⟩

/-- The script has been read from lines of which one has the given text, and `id` is the
    statement of that line. -/
def Script.HasLine (v : Vocabulary) (script : Script) (text : String) (id : ElementId) : Prop :=
  ∃ (lines : List String) (before after : List LogicalLine) (l : LogicalLine),
    LogicalLine.ofLines lines = .ok (before ++ l :: after) ∧ parse v lines = .ok script ∧
      l.text = text ∧ script.statements[before.length]? = some id

namespace Script

theorem Begins.kind_eq {a b : Script} (h : a.Begins b) {x : ElementId}
    (hx : a.store.kind x ≠ .blank) : b.store.kind x = a.store.kind x :=
  congrArg Element.kind (Extends.get h.store (lt_size_of_kind hx))

/-- **A line is read in the same way wherever it stands.** -/
theorem HasLine.exists_declaresTerm {script : Script} {text name : String} {id : ElementId}
    {tokens : List String} (h : script.HasLine {} text id)
    (htokens : tokenize {} text = name :: "=" :: tokens)
    (hname : Kind.ofToken {} none name = .name name)
    (hplain : ∀ line, PlainElements style (classify {} line (some .assignment) tokens)) :
    ∃ line content, DeclaresTerm script.store id name
      (classify {} line (some .assignment) tokens) content := by
  obtain ⟨lines, before, after, l, hjoined, hparse, rfl, hid⟩ := h
  obtain ⟨joined, hjoined', rfl⟩ := parse_eq_ok_iff.1 hparse
  obtain rfl := Except.ok.inj (hjoined.symm.trans hjoined')
  have hsplit : extend {} {} (before ++ l :: after) =
      ((extend {} {} before).extend {} [l]).extend {} after :=
    (extend_append {} before (l :: after)).trans (extend_append _ [l] after)
  rw [hsplit] at hid ⊢
  have hlength : before.length = (extend {} {} before).statements.length := by
    rw [length_statements_extend]
    exact (Nat.zero_add _).symm
  have hsound := (extend_empty {} before).1
  rw [hlength] at hid
  generalize extend {} {} before = a at hid hsound ⊢
  have hline : ∃ x content, (a.extend {} [l]).statements = a.statements ++ [x] ∧
      DeclaresTerm (a.extend {} [l]).store x name (classify {} l.line (some .assignment) tokens)
        content := by
    show ∃ x content, (addLine {} (a, #[]) l).1.statements = a.statements ++ [x] ∧
      DeclaresTerm (addLine {} (a, #[]) l).1.store x name
        (classify {} l.line (some .assignment) tokens) content
    refine addLine_of_ensures (P := fun b => ∃ x content, b.statements = a.statements ++ [x] ∧
        DeclaresTerm b.store x name (classify {} l.line (some .assignment) tokens) content)
      (fun w _ => read_declaresTerm htokens hname (hplain l.line) w) ?_
    rintro x declared w ⟨content, h⟩
    exact ⟨x, content, rfl, h⟩
  obtain ⟨x, content, hstatements, hx⟩ := hline
  have hget := (getElem?_statements_insert hsound hstatements after).1
  obtain rfl := Option.some.inj (hget.symm.trans hid)
  refine ⟨l.line, content, hx.congr fun y hy => ?_⟩
  exact (begins_extend (extend_sound hsound [l]) after).kind_eq hy

theorem HasLine.sound {v : Vocabulary} {script : Script} {text : String} {id : ElementId}
    (h : script.HasLine v text id) : script.Sound ∧ id ∈ script.statements := by
  obtain ⟨lines, before, after, l, -, hparse, -, hid⟩ := h
  exact ⟨parse_sound hparse, List.mem_of_getElem? hid⟩

theorem exists_hasLine (v : Vocabulary) {text : String} (h : LogicalLine.isBalanced text = true) :
    ∃ script id, HasLine v script text id := by
  have hjoined : LogicalLine.ofLines [text] = .ok [⟨text, 1, 1⟩] := by
    simp [LogicalLine.ofLines, LogicalLine.joinLines, h]
  have hone := length_statements_extend (v := v) {} [⟨text, 1, 1⟩]
  obtain ⟨id, hid⟩ := List.length_eq_one_iff.1 hone
  exact ⟨_, id, [text], [], [], ⟨text, 1, 1⟩, hjoined, parse_eq_ok_iff.2 ⟨_, hjoined, rfl⟩, rfl,
    by rw [hid]; rfl⟩

end Script

/-! ## Lines without brackets -/

namespace Token

/-- A text without brackets among its tokens is a line of its own. -/
theorem isBalanced_of_tokenize {v : Vocabulary} {text : String}
    (h : "[" ∉ tokenize v text ∧ "]" ∉ tokenize v text) :
    LogicalLine.isBalanced text = true := by
  have hcount : ∀ {c : Char}, c = '[' ∨ c = ']' → String.ofList [c] ∉ tokenize v text →
      (LogicalLine.codePart text).count c = 0 := by
    intro c hc hm
    refine List.count_eq_zero.2 fun hcode => hm ?_
    exact List.mem_map.2 ⟨[c], mem_scan_of_mem_code hc hcode, rfl⟩
  rw [LogicalLine.isBalanced, hcount (Or.inl rfl) h.1, hcount (Or.inr rfl) h.2]
  rfl

end Token

/-! ## Writing a line and reading it again -/

theorem not_mem_of_plain {tokens : List String} {line : Nat} {previous : Option Kind}
    (h : ∀ e ∈ classify {} line previous tokens, e.kind.isPlain style = true) :
    "[" ∉ tokens ∧ "]" ∉ tokens := by
  have hbracket : ∀ previous, (Kind.ofToken {} previous "[").isPlain style = false ∧
      (Kind.ofToken {} previous "]").isPlain style = false := by
    intro previous
    rw [(Kind.ofToken_none style previous "[").1, (Kind.ofToken_none style previous "]").1]
    exact ⟨rfl, rfl⟩
  induction tokens generalizing previous with
  | nil => simp
  | cons token tokens ih =>
    obtain ⟨htoken, htokens⟩ := List.forall_mem_cons.1 h
    obtain ⟨hopening, hclosing⟩ := ih htokens
    constructor
    · rw [List.mem_cons, not_or]
      refine ⟨?_, hopening⟩
      rintro rfl
      cases htoken.symm.trans (hbracket previous).1
    · rw [List.mem_cons, not_or]
      refine ⟨?_, hclosing⟩
      rintro rfl
      cases htoken.symm.trans (hbracket previous).2

namespace Formula

variable {f : Formula} {name : String}

theorem map_raw_elements (f : Formula) (line line' : Nat) (nested : Bool) :
    (f.elements line nested).map Element.raw = (f.elements line' nested).map Element.raw := by
  induction f generalizing nested with
  | value text => rfl
  | name text => rfl
  | sign symbol operand ih => simp [elements, ih true]
  | function symbol operand ih => simp [elements, enclose, ih true]
  | binary symbol left right ihl ihr =>
    cases nested <;> simp [elements, enclose, ihl true, ihr true]

theorem tokenize_declaration (h : f.Writable style) (hname : IsLexeme {} name.toList)
    (line : Nat) :
    tokenize {} (name ++ " = " ++ f.written false) =
      name :: "=" :: (f.elements line false).map Element.raw := by
  have hwritten : scan {} ((f.written false).toList ++ []) =
      (f.elements line false).map (·.raw.toList) ++ scan {} [] := scan_written h line false rfl
  have hequals : " = ".toList = [' ', '=', ' '] ∧ Text.isBlank ' ' = true ∧
      isWordChar ' ' = false := by decide
  have hsymbol : ∀ rest, scan {} ('=' :: rest) = ['='] :: scan {} rest :=
    scan_symbol (by decide) (by decide) (by decide) (by decide)
  rw [List.append_nil] at hwritten
  rw [tokenize_eq_iff, String.toList_append, String.toList_append, List.append_assoc, hequals.1,
    scan_append hname (not_runTogether (by simp [hequals]))]
  simp only [List.cons_append, List.nil_append]
  rw [scan_blank hequals.2.1, hsymbol, scan_blank hequals.2.1, hwritten]
  simp [scan]

end Formula

/-- **A declaration whose value is a writable formula** is rendered as the name and the
    formula. -/
theorem line?_declaration {script : Script} {options : RenderOptions}
    {id target content : ElementId} {name : String} {f : Formula} (hs : script.Sound)
    (hid : id ∈ script.statements)
    (hk : script.store.kind id = .declaration target content .plain)
    (ht : script.store.kind target = .name name) (hm : options.style.multiplication = "*")
    (hf : f.Writable options.style) (hat : f.IsAt script.store content) :
    script.line? options id = some (options.style.topLevel
      (formatVariable options.style name ++ " = " ++ f.written false)) := by
  have hnested : isNested script.store (some id) = false := by
    simp [isNested, hk, Kind.isOperator]
  obtain ⟨n, hn⟩ := Formula.always_written hm hf hat (some id)
  rw [hnested] at hn
  have htarget : Always (renderWithin script options (n + 1) target (some id) [])
      (formatVariable options.style name) := by
    rw [renderWithin, renderNode_eq, plan]
    dsimp only
    rw [← Store.kind, ht]
    exact Plan.always_run .nil rfl
  have hcontent := hn.refines (refines_renderWithin (Nat.le_succ n) content (some id) [])
  have hrows : List.Forall₂ (List.Forall₂ fun r t =>
      Always (renderWithin script options (n + 1) r.id r.parent r.scope) t)
      [below id [] [target], below id [] [content]]
      [[formatVariable options.style name], [f.written false]] :=
    .cons (.cons htarget .nil) (.cons (.cons hcontent .nil) .nil)
  have hbody : Always (renderWithin script options (n + 1 + 1) id none [])
      (formatVariable options.style name ++ " = " ++ f.written false) := by
    rw [renderWithin, renderNode_eq, plan]
    dsimp only
    rw [← Store.kind, hk]
    refine Plan.always_run hrows ?_
    simp
  rw [Script.line?_of_always hs hid hbody, if_neg (by simp [hk])]

/-- The value of plain tokens that is no error is a writable formula. -/
theorem DeclaresTerm.exists_formula {s : Store} {id content : ElementId} {text name : String}
    {line : Nat} {tokens : List String}
    (h : DeclaresTerm s id name (classify {} line (some .assignment) tokens) content)
    (htokens : tokens ⊆ tokenize {} text)
    (hplain : PlainElements style (classify {} line (some .assignment) tokens))
    (hok : ∀ fault ids, s.kind content ≠ .error fault ids) :
    ∃ f : Formula, f.IsAt s content ∧ f.Writable style := by
  obtain ⟨-, s₀, rhs, hrhs, hformula, hsome⟩ := h
  have hmem : ∀ x ∈ rhs, s₀.get x ∈ classify {} line (some .assignment) tokens := by
    intro x hx
    rw [← hrhs]
    exact List.mem_map.2 ⟨x, hx, rfl⟩
  have hread : ∀ x ∈ rhs, (s₀.get x).IsRead {} ∧ (s₀.kind x).isPlain style = true :=
    fun x hx => ⟨isRead_of_mem_classify htokens (hmem x hx), hplain.plain _ (hmem x hx)⟩
  rcases hsome with ⟨t, ht⟩ | ⟨fault, ids, hk⟩
  · obtain ⟨f, hspells, hf⟩ := ht.exists_writable hread
    exact ⟨f, hformula f ⟨t, ht, hspells⟩, hf⟩
  · exact absurd hk (hok fault ids)

section Written

variable {f : Formula} {name : String}

theorem Formula.classify_tokens (h : f.Writable style) (line line' : Nat) :
    classify {} line (some .assignment) ((f.elements line' false).map Element.raw) =
      f.elements line false := by
  obtain ⟨last, -, hall⟩ := classify_elements h line false (some .assignment) rfl
  have hnil := hall []
  rw [List.append_nil] at hnil
  rw [map_raw_elements f line' line, hnil, classify, List.append_nil]

theorem Formula.exists_hasLine (h : f.Writable style) (hl : IsLexeme {} name.toList)
    (hname : Kind.ofToken {} none name = .name name) :
    ∃ script id, Script.HasLine {} script (name ++ " = " ++ f.written false) id := by
  have hne : ∀ bracket, Kind.ofToken {} none bracket ≠ .name bracket → bracket ≠ name := by
    rintro _ hk rfl
    exact hk hname
  have hplain := (plainElements_elements h 0 false).plain
  rw [← classify_tokens h 0 0] at hplain
  have hnot := not_mem_of_plain hplain
  refine Script.exists_hasLine {} (isBalanced_of_tokenize (v := {}) ?_)
  rw [tokenize_declaration h hl 0]
  simp only [List.mem_cons, not_or]
  exact ⟨⟨hne "[" (by decide), by decide, hnot.1⟩, hne "]" (by decide), by decide, hnot.2⟩

/-- **The line of a formula is read as `reread` says**, wherever it stands. -/
theorem Formula.isAt_of_hasLine (h : f.Writable style) (hl : IsLexeme {} name.toList)
    (hname : Kind.ofToken {} none name = .name name) {script : Script} {x : ElementId}
    (hline : script.HasLine {} (name ++ " = " ++ f.written false) x) :
    ∃ target content, script.store.kind x = .declaration target content .plain ∧
      (f.reread id).IsAt script.store content := by
  have hplain : ∀ line, PlainElements style
      (classify {} line (some .assignment) ((f.elements 0 false).map Element.raw)) := by
    intro line
    rw [classify_tokens h]
    exact plainElements_elements h line false
  obtain ⟨line, content, hdecl⟩ :=
    hline.exists_declaresTerm (tokenize_declaration h hl 0) hname hplain
  obtain ⟨⟨target, hk, -⟩, s₀, rhs, hrhs, hformula, -⟩ := hdecl
  rw [classify_tokens h] at hrhs
  exact ⟨target, content, hk, hformula _ (derives_elements f hrhs)⟩

end Written

/-- **Which lines keep their grouping.**  The value of a line `name = …` of plain tokens that
    is no error is a formula `f`, and the line is rendered as `name = R`, with the name as
    variables are written.  The line `name = R` can be read, its value is a formula wherever
    it stands, and that is `f` exactly if no binary operator of `f` has a sign as its first
    operand. -/
theorem isAt_rendered_iff {options : RenderOptions} (hm : options.style.multiplication = "*")
    {line name : String} {tokens : List String}
    (htokens : tokenize {} line = name :: "=" :: tokens)
    (hname : Kind.ofToken {} none name = .name name) (hplain : PlainTokens options.style tokens)
    {script : Script} {id : ElementId} (hline : script.HasLine {} line id)
    {target content : ElementId} {form : Form}
    (hid : script.store.kind id = .declaration target content form)
    (hok : ∀ fault ids, script.store.kind content ≠ .error fault ids) :
    ∃ (f : Formula) (R : String), f.IsAt script.store content ∧
      script.line? options id =
        some (options.style.topLevel (formatVariable options.style name ++ " = " ++ R)) ∧
      (∃ script' id', Script.HasLine {} script' (name ++ " = " ++ R) id') ∧
      ∀ script' id', Script.HasLine {} script' (name ++ " = " ++ R) id' →
        ∃ target' content' form', script'.store.kind id' = .declaration target' content' form' ∧
          (∃ g, Formula.IsAt script'.store g content') ∧
          (f.IsAt script'.store content' ↔ f.leftUnsigned = true) := by
  have hplain' := hplain.plainElements
  obtain ⟨n, content', hdecl⟩ := hline.exists_declaresTerm htokens hname fun n => hplain' n _
  obtain ⟨target', hk, ht⟩ := hdecl.declaration
  cases hid.symm.trans hk
  have hsub : tokens ⊆ tokenize {} line := by
    rw [htokens]
    exact fun token hm => List.mem_cons_of_mem _ (List.mem_cons_of_mem _ hm)
  obtain ⟨f, hat, hf⟩ := hdecl.exists_formula hsub (hplain' n _) hok
  have hl : IsLexeme {} name.toList := isLexeme_of_mem_tokenize (htokens ▸ List.mem_cons_self)
  obtain ⟨hs, hmem⟩ := hline.sound
  refine ⟨f, f.written false, hat, line?_declaration hs hmem hk ht hm hf hat,
    Formula.exists_hasLine hf hl hname, fun script' id' hline' => ?_⟩
  obtain ⟨target', content', hk', hreread⟩ := Formula.isAt_of_hasLine hf hl hname hline'
  refine ⟨target', content', .plain, hk', ⟨_, hreread⟩, ?_⟩
  rw [← f.reread_eq_self_iff]
  constructor
  · intro hat'
    exact hreread.unique hat'
  · intro he
    rwa [he] at hreread

/-- The line `y = (-a) ^ 2 + sqrt(b * 3)` after the declaration of a function: it is rendered as
    `y = -a ^ (2 + sqrt((b * 3)))`, where the sign takes the power. -/
theorem isAt_rendered_iff_signed_base :
    let options : RenderOptions := { style := { multiplication := "*" } }
    let line := "y = (-a) ^ 2 + sqrt(b * 3) % note"
    let tokens := ["(", "-", "a", ")", "^", "2", "+", "sqrt", "(", "b", "*", "3", ")"]
    tokenize {} line = "y" :: "=" :: tokens ∧ Kind.ofToken {} none "y" = .name "y" ∧
      PlainTokens options.style tokens ∧ ∃ script : Script,
        Script.parse {} ["f = @(x) x + 1", line] = .ok script ∧ script.HasLine {} line 26 ∧
        script.store.kind 26 = .declaration 11 17 .plain ∧
        (∀ fault ids, script.store.kind 17 ≠ .error fault ids) ∧
        ∃ (f : Formula) (R : String), f.IsAt script.store 17 ∧
          script.line? options 26 =
            some (options.style.topLevel (formatVariable options.style "y" ++ " = " ++ R)) ∧
          (∃ script' id', Script.HasLine {} script' ("y" ++ " = " ++ R) id') ∧
          ∀ script' id', Script.HasLine {} script' ("y" ++ " = " ++ R) id' →
            ∃ target' content' form',
              script'.store.kind id' = .declaration target' content' form' ∧
              (∃ g, Formula.IsAt script'.store g content') ∧
              (f.IsAt script'.store content' ↔ f.leftUnsigned = true) := by
  intro options line tokens
  have htokens : tokenize {} line = "y" :: "=" :: tokens := by decide +kernel
  have hname : Kind.ofToken {} none "y" = .name "y" := by decide
  have hplain : PlainTokens options.style tokens := ⟨by decide +kernel, by decide +kernel⟩
  have hjoined : LogicalLine.ofLines ["f = @(x) x + 1", line] =
      .ok ([⟨"f = @(x) x + 1", 1, 1⟩] ++ [⟨line, 2, 1⟩]) := by decide +kernel
  have hfacts : ∃ script ∈ (Script.parse {} ["f = @(x) x + 1", line]).toOption,
      script.statements[1]? = some 26 ∧ script.store.kind 26 = .declaration 11 17 .plain ∧
      script.store.kind 17 = .operator "^" .binary (some 14) (some 19) := by
    decide +kernel
  obtain ⟨script, hscript, hid, hkind, hcontent⟩ := hfacts
  have hparse := Script.parse_of_mem hscript
  have hok : ∀ fault ids, script.store.kind 17 ≠ .error fault ids := by simp [hcontent]
  have hline : script.HasLine {} line 26 := ⟨_, [_], [], _, hjoined, hparse, rfl, hid⟩
  exact ⟨htokens, hname, hplain, script, hparse, hline, hkind, hok,
    isAt_rendered_iff rfl htokens hname hplain hline hkind hok⟩

end FormulaSheet
