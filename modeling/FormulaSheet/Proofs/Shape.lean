/-
  The shape of a line: what it is read as and how it is written, told by its tokens.

  * `place_ids`: the tokens of a line are placed one after another behind what is there.
  * `Statement.withoutTerminator`: the tokens without the `;` at their end, and
    `Statement.declares?`: the name that they declare.
  * `ensures_read`: a line is read as its tokens tell (`Statement.ofTokens`).  It adds its
    tokens and one statement to a script (`extend_undeclared`, `extend_declared`).
  * `map_line?_undeclared`: a line that declares nothing is written as its tokens tell
    (`Statement.text`), and changes no other line.
-/
import FormulaSheet.Proofs.Independence
import FormulaSheet.Proofs.Writing

namespace FormulaSheet

open Store Render Rendering Token

/-! ## Placing tokens -/

namespace Store

/-- Append elements. -/
def pushAll (s : Store) (elements : List Element) : Store where
  elements := s.elements ++ elements.toArray

variable (s : Store)

@[simp] theorem pushAll_nil : s.pushAll [] = s := by
  simp [pushAll]

theorem pushAll_cons (e : Element) (elements : List Element) :
    s.pushAll (e :: elements) = (s.push e).pushAll elements := by
  simp [pushAll, push]

theorem pushAll_concat (elements : List Element) (e : Element) :
    s.pushAll (elements ++ [e]) = (s.pushAll elements).push e := by
  induction elements generalizing s with
  | nil => rw [List.nil_append, pushAll_cons, pushAll_nil, pushAll_nil]
  | cons first elements ih => rw [List.cons_append, pushAll_cons, ih, pushAll_cons]

theorem size_pushAll (elements : List Element) :
    (s.pushAll elements).size = s.size + elements.length := by
  simp [pushAll, size]

theorem get_pushAll {elements : List Element} {i : Nat} {e : Element}
    (h : elements[i]? = some e) : (s.pushAll elements).get (s.size + i) = e := by
  have hget : (s.elements ++ elements.toArray)[s.elements.size + i]? = some e := by
    rw [Array.getElem?_append_right (Nat.le_add_right _ _)]
    simpa using h
  simp [pushAll, get, size, Array.getD_eq_getD_getElem?, hget]

end Store

/-- Elements are placed behind those that are there. -/
theorem place_ids (elements : List Element) (w : Workspace) :
    (place elements).Ensures w fun ids w' =>
      ids = List.range' w.store.size elements.length ∧ w'.store = w.store.pushAll elements := by
  induction elements generalizing w with
  | nil => exact ⟨rfl, (pushAll_nil _).symm⟩
  | cons e elements ih =>
    refine ensures_place_cons fun log => (ih ⟨w.store.push e, log⟩).imp ?_
    rintro _ w' ⟨rfl, hstore⟩
    rw [hstore, size_push, pushAll_cons]
    exact ⟨rfl, rfl⟩

variable {v : Vocabulary}

theorem length_classify (line : Nat) (previous : Option Kind) (tokens : List String) :
    (classify v line previous tokens).length = tokens.length := by
  induction tokens generalizing previous with
  | nil => rfl
  | cons token tokens ih => exact congrArg Nat.succ (ih _)

theorem classify_concat (line : Nat) (previous : Option Kind) (tokens : List String)
    (token : String) : ∃ previous', classify v line previous (tokens ++ [token]) =
      classify v line previous tokens ++
        [⟨Kind.ofToken v previous' token, token, line, false, none⟩] := by
  induction tokens generalizing previous with
  | nil => exact ⟨previous, rfl⟩
  | cons first tokens ih =>
    obtain ⟨previous', h⟩ := ih (some (Kind.ofToken v previous first))
    exact ⟨previous', congrArg _ h⟩

theorem Kind.eq_of_ofStructural? {token : String}
    (h : (Vocabulary.single? token).bind ofStructural? = some .semicolon) : token = ";" := by
  obtain ⟨c, hc, hk⟩ := Option.bind_eq_some_iff.1 h
  have hsemicolon : c = ';' := by
    unfold ofStructural? at hk
    split at hk <;> cases hk
    rfl
  unfold Vocabulary.single? at hc
  split at hc
  · rename_i htoken
    cases hc
    exact String.toList_injective (htoken.trans (by rw [hsemicolon]; rfl))
  · cases hc

/-- Only `;` ends a line, if it is no operator. -/
theorem Kind.ofToken_eq_semicolon_iff (hv : v.isOperator ";" = false) {previous : Option Kind}
    {token : String} : Kind.ofToken v previous token = .semicolon ↔ token = ";" := by
  constructor
  · intro h
    have ho : v.isOperator token = false := by
      rw [← Kind.isOperator_ofToken v previous, h]
      rfl
    simp only [ofToken, recognize, ho, Bool.false_eq_true, if_false] at h
    by_cases hvalue : Vocabulary.isValue token = true
    · rw [if_pos hvalue] at h
      by_cases hnumber : isNumber token = true
      · rw [if_pos hnumber] at h
        cases h
      · rw [if_neg hnumber] at h
        cases h
    · rw [if_neg hvalue] at h
      by_cases hname : v.isVariable token = true
      · rw [if_pos hname] at h
        cases h
      · rw [if_neg hname] at h
        cases hs : (Vocabulary.single? token).bind ofStructural? with
        | none =>
          rw [hs] at h
          cases h
        | some kind =>
          rw [hs] at h
          exact eq_of_ofStructural? (hs.trans (congrArg some h))
  · rintro rfl
    have hvariable : v.isVariable ";" = false := by
      simp [Vocabulary.isVariable, Vocabulary.isKeyword, Vocabulary.structural]
    have hstructural : Vocabulary.isValue ";" = false ∧
        (Vocabulary.single? ";").bind ofStructural? = some .semicolon := by decide
    simp [ofToken, recognize, hv, hvariable, hstructural]

/-! ## What a line is read as -/

namespace Statement

/-- The tokens of a line without the `;` at its end. -/
def withoutTerminator (tokens : List String) : List String :=
  if tokens.getLast? = some ";" then tokens.dropLast else tokens

/-- The name that the tokens of a line declare. -/
def declares? (v : Vocabulary) : List String → Option String
  | first :: second :: _ =>
    let target := Kind.ofToken v none first
    if Kind.ofToken v (some target) second = .assignment then target.name? else none
  | _ => none

/-- The statement of a line that declares nothing. -/
def plain (tokens : List String) (line : Nat) : Element :=
  match withoutTerminator tokens with
  | [] => { kind := .blank, raw := "", line, sealed := true }
  | [single] => { kind := .passThrough, raw := single, line, sealed := true }
  | _ => { kind := .passThrough, raw := " ".intercalate tokens, line, sealed := true }

/-- The elements behind `name =` in a line of tokens, the first of which is at `first`. -/
def values (first : ElementId) (tokens : List String) : List ElementId :=
  List.range' (first + 2) (tokens.length - 2)

/-- What is done after the tokens of a line have been placed, told by the tokens. -/
def ofTokens (v : Vocabulary) (registry : Registry) (l : LogicalLine) (first : ElementId) :
    Building (ElementId × Option String) :=
  let tokens := tokenize v l.text
  match declares? v (withoutTerminator tokens) with
  | none => return (← Building.build (plain tokens l.line), none)
  | some name => do
    let rhs := values first (withoutTerminator tokens)
    return (← buildDeclaration v registry l first name rhs, some name)

theorem exists_eq_withoutTerminator_append (tokens : List String) :
    ∃ rest, tokens = withoutTerminator tokens ++ rest := by
  unfold withoutTerminator
  split
  · exact List.dropLast_prefix tokens |>.imp fun _ h => h.symm
  · exact ⟨[], (List.append_nil tokens).symm⟩

theorem withoutTerminator_concat (tokens : List String) (token : String) :
    withoutTerminator (tokens ++ [token]) = if token = ";" then tokens else tokens ++ [token] := by
  simp [withoutTerminator]

theorem withoutTerminator_terminated (tokens : List String) :
    withoutTerminator (tokens ++ [";"]) = tokens := by
  rw [withoutTerminator_concat, if_pos rfl]

theorem withoutTerminator_of_getLast? {tokens : List String} (h : tokens.getLast? ≠ some ";") :
    withoutTerminator tokens = tokens :=
  if_neg h

theorem two_le_of_declares? {tokens : List String} {name : String}
    (h : declares? v tokens = some name) : 2 ≤ tokens.length := by
  unfold declares? at h
  split at h
  · simp
  · cases h

theorem dropTerminator_pushAll (hv : v.isOperator ";" = false) (s : Store) (line : Nat)
    (tokens : List String) :
    dropTerminator (s.pushAll (classify v line none tokens)) (List.range' s.size tokens.length) =
      List.range' s.size (withoutTerminator tokens).length := by
  rcases List.eq_nil_or_concat' tokens with rfl | ⟨tokens, token, rfl⟩
  · rfl
  · obtain ⟨previous, hclassify⟩ := classify_concat (v := v) line none tokens token
    have hlast : (s.pushAll (classify v line none (tokens ++ [token]))).kind
        (s.size + tokens.length) = Kind.ofToken v previous token := by
      rw [hclassify, pushAll_concat, kind, ← length_classify (v := v) line none, ← size_pushAll,
        get_push_size]
    rw [List.length_append, List.length_singleton, List.range'_concat, Nat.one_mul,
      dropTerminator, List.getLast?_concat]
    dsimp only
    rw [hlast, withoutTerminator_concat]
    have hiff := @Kind.ofToken_eq_semicolon_iff v hv previous token
    by_cases h : token = ";"
    · rw [if_pos (hiff.2 h), if_pos h, List.dropLast_concat]
    · rw [if_neg (mt hiff.1 h), if_neg h, List.length_append, List.length_singleton,
        List.range'_concat, Nat.one_mul]

/-- **What a line is read as**, told by its tokens. -/
theorem ensures_read (hv : v.isOperator ";" = false) {registry : Registry} {l : LogicalLine}
    {w : Workspace} {Q : ElementId × Option String → Workspace → Prop}
    (h : ∀ log, (ofTokens v registry l w.store.size).Ensures
      ⟨w.store.pushAll (classify v l.line none (tokenize v l.text)), log⟩ Q) :
    (read v registry l).Ensures w Q := by
  rw [read, Building.ensures_bind]
  refine (place_ids _ w).imp ?_
  rintro _ ⟨store, log⟩ ⟨rfl, rfl⟩
  have h := h log
  obtain ⟨rest, htokens⟩ := exists_eq_withoutTerminator_append (tokenize v l.text)
  rw [Building.ensures_bind, Building.Ensures, Building.run_store]
  dsimp only
  rw [length_classify, dropTerminator_pushAll hv]
  unfold ofTokens plain at h
  dsimp only at h
  cases hbody : withoutTerminator (tokenize v l.text) with
  | nil =>
    rw [hbody] at h
    exact h
  | cons first body =>
    rw [hbody] at h htokens
    have hfirst : (w.store.pushAll (classify v l.line none (tokenize v l.text))).get w.store.size =
        ⟨Kind.ofToken v none first, first, l.line, false, none⟩ :=
      get_pushAll w.store (i := 0) (by rw [htokens]; rfl)
    cases body with
    | nil =>
      rw [List.length_singleton, List.range'_one]
      dsimp only
      rw [hfirst]
      exact h
    | cons second body =>
      have hsecond : (w.store.pushAll (classify v l.line none (tokenize v l.text))).get
          (w.store.size + 1) = ⟨Kind.ofToken v (some (Kind.ofToken v none first)) second, second,
            l.line, false, none⟩ :=
        get_pushAll w.store (i := 1) (by rw [htokens]; rfl)
      rw [List.length_cons, List.length_cons, List.range'_succ, List.range'_succ]
      dsimp only
      rw [kind, kind, hfirst, hsecond]
      unfold declares? at h
      dsimp only at h ⊢
      by_cases hassign : Kind.ofToken v (some (Kind.ofToken v none first)) second = .assignment
      · rw [if_pos hassign] at h
        rw [hassign]
        cases hname : Kind.ofToken v none first with
        | name name =>
          rw [hname] at h
          exact h
        | _ =>
          rw [hname] at h
          exact h
      · rw [if_neg hassign] at h
        split
        · contradiction
        · exact h

end Statement

namespace Script

open Statement

/-- A script with the tokens of one more line in its store. -/
def withTokens (v : Vocabulary) (script : Script) (l : LogicalLine) : Script where
  __ := script
  store := script.store.pushAll (classify v l.line none (tokenize v l.text))

theorem places_withTokens (v : Vocabulary) (script : Script) (l : LogicalLine) :
    Places script.store (script.withTokens v l).store
      (List.range' script.store.size (tokenize v l.text).length) := by
  have hplaces := (place_places (fun e he => ⟨isToken_of_mem_classify he,
    hasPlainName_of_mem_classify he⟩) ⟨script.store, #[]⟩).and
      (place_ids (classify v l.line none (tokenize v l.text)) ⟨script.store, #[]⟩)
  obtain ⟨h, hids, hstore⟩ := hplaces
  rw [hids, hstore, length_classify] at h
  exact h

/-- A line that declares nothing adds its tokens and its statement. -/
theorem extend_undeclared (hv : v.isOperator ";" = false) (script : Script) {l : LogicalLine}
    (h : declares? v (withoutTerminator (tokenize v l.text)) = none) :
    script.extend v [l] = ⟨(script.withTokens v l).store.push (plain (tokenize v l.text) l.line),
      script.statements ++ [(script.withTokens v l).store.size], script.registry⟩ := by
  show (addLine v (script, #[]) l).1 = _
  refine addLine_of_ensures (P := (· = _))
    (Q := fun r w => r = ((script.withTokens v l).store.size, none) ∧
      w.store = (script.withTokens v l).store.push (plain (tokenize v l.text) l.line))
    (fun w hw => ensures_read hv fun log => ?_) ?_
  · rw [ofTokens, h, hw]
    exact ⟨rfl, rfl⟩
  · rintro id declared w ⟨⟨⟩, hstore⟩
    rw [hstore]
    rfl

/-- A line that declares a name adds its tokens and the declaration. -/
theorem extend_declared (hv : v.isOperator ";" = false) {script : Script} {l : LogicalLine}
    {name : String} (h : declares? v (withoutTerminator (tokenize v l.text)) = some name)
    {P : Script → Prop}
    (hP : ∀ log, (buildDeclaration v script.registry l script.store.size name
      (values script.store.size (withoutTerminator (tokenize v l.text)))).Ensures
        ⟨(script.withTokens v l).store, log⟩ fun id w =>
          P ⟨w.store, script.statements ++ [id], script.registry.declaring (some name) id⟩) :
    P (script.extend v [l]) := by
  show P (addLine v (script, #[]) l).1
  refine addLine_of_ensures (P := P) (Q := fun r w => P ⟨w.store, script.statements ++ [r.1],
    script.registry.declaring r.2 r.1⟩) (fun w hw => ensures_read hv fun log => ?_)
    fun _ _ _ hw => hw
  rw [ofTokens, h, hw]
  exact hP log

end Script

/-! ## Lines that declare nothing -/

namespace Statement

/-- How a line that declares nothing is written. -/
def text (style : Style) (tokens : List String) : String :=
  match withoutTerminator tokens with
  | [] => style.mediumSkip
  | [single] => style.topLevel single
  | _ => style.topLevel (" ".intercalate tokens)

end Statement

namespace Script

variable {script : Script} {options : RenderOptions} {id : ElementId}

theorem line?_blank (hs : script.Sound) (hid : id ∈ script.statements)
    (hk : script.store.kind id = .blank) :
    script.line? options id = some options.style.mediumSkip := by
  have halways : Always (renderWithin script options 1 id none []) options.style.mediumSkip := by
    rw [renderWithin, renderNode_eq, plan]
    dsimp only
    rw [← Store.kind, hk]
    exact Plan.always_run .nil rfl
  rw [line?_of_always hs hid halways, if_pos hk]

theorem line?_passThrough (hs : script.Sound) (hid : id ∈ script.statements)
    (hk : script.store.kind id = .passThrough) :
    script.line? options id = some (options.style.topLevel (script.store.get id).raw) := by
  have halways : Always (renderWithin script options 1 id none []) (script.store.get id).raw := by
    rw [renderWithin, renderNode_eq, plan]
    dsimp only
    rw [← Store.kind, hk]
    exact Plan.always_run .nil rfl
  rw [line?_of_always hs hid halways, if_neg (by simp [hk])]

/-- The line of a statement that declares nothing is told by its tokens. -/
theorem line?_plain (hs : script.Sound) (hid : id ∈ script.statements) {tokens : List String}
    {line : Nat} (h : script.store.get id = Statement.plain tokens line) :
    script.line? options id = some (Statement.text options.style tokens) := by
  unfold Statement.plain at h
  unfold Statement.text
  split at h
  · exact line?_blank hs hid (congrArg Element.kind h)
  · rw [line?_passThrough hs hid (congrArg Element.kind h), h]
  · rw [line?_passThrough hs hid (congrArg Element.kind h), h]

/-- **A line that declares nothing adds the line that its tokens tell**, whatever the lines are
    that follow. -/
theorem map_line?_undeclared (hv : v.isOperator ";" = false) (hs : script.Sound)
    (hc : script.Closed) {l : LogicalLine}
    (h : Statement.declares? v (Statement.withoutTerminator (tokenize v l.text)) = none)
    (lines : List LogicalLine) (options : RenderOptions) :
    ∃ before after, before.length = script.statements.length ∧
      (script.extend v lines).statements.map ((script.extend v lines).line? options) =
        before ++ after ∧
      ((script.extend v [l]).extend v lines).statements.map
          (((script.extend v [l]).extend v lines).line? options) =
        before ++ some (Statement.text options.style (tokenize v l.text)) :: after := by
  have hadd := extend_undeclared hv script h
  have hid : (script.extend v [l]).statements =
      script.statements ++ [(script.withTokens v l).store.size] := congrArg Script.statements hadd
  have hregistry : (script.extend v [l]).registry = script.registry := by rw [hadd]
  have hs' := extend_sound (v := v) hs [l]
  have hbegins := begins_extend (v := v) hs' lines
  have hmem : (script.withTokens v l).store.size ∈ (script.extend v [l]).statements := by
    rw [hid]
    exact List.mem_append_right _ (List.mem_singleton_self _)
  have hget : ((script.extend v [l]).extend v lines).store.get (script.withTokens v l).store.size =
      Statement.plain (tokenize v l.text) l.line := by
    rw [Store.Extends.get hbegins.store (hs'.lt_size hmem), hadd]
    exact get_push_size _ _
  obtain ⟨before, after, hlen, hwithout, hwith⟩ := exists_map_line?_insert hs hc
    (rfl : lines.map LogicalLine.text = lines.map LogicalLine.text) hregistry hid options
  rw [line?_plain (extend_sound hs' lines) (hbegins.statements.subset hmem) hget] at hwith
  exact ⟨before, after, hlen, hwithout, hwith⟩

end Script

end FormulaSheet
