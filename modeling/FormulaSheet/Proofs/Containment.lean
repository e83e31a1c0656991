/-
  What is written stays inside its formula.

  * `Inert text`: nothing in the text has a meaning beyond the formula.  Tokens
    are inert (`inert_of_mem_tokenize`), and so are the texts that elements keep
    of them (`Script.inert_of_parse`).
  * `Contained text`: nothing ends the formula or its line, and every brace is
    closed after it is opened.  Inert texts are contained, and so is what is put
    together from contained texts (`Contained.append`, `Contained.braced`).
  * `contained_of_gives`: whatever is written, at any depth and under any scope,
    is contained.
  * `formula_of_parse`: the line of a statement is a formula, or the skip of a
    blank line.
-/
import FormulaSheet.Proofs.Faultless

namespace FormulaSheet

open Store Render Rendering

/-! ## Texts -/

namespace Text

/-- The characters that end a line. -/
def lineBreaks : List Char :=
  ['\n', '\x0b', '\x0c', '\r', '\u0085', '\u2028', '\u2029']

/-- The characters that end a formula or hide the rest of its line, and those
    that end the line itself. -/
def enders : List Char :=
  '$' :: '%' :: lineBreaks

/-- The text holds neither braces nor characters that end the formula. -/
def Inert (text : String) : Prop :=
  ∀ c ∈ text.toList, c ∉ '{' :: '}' :: enders

instance (text : String) : Decidable (Inert text) :=
  List.decidableBAll (fun c => c ∉ '{' :: '}' :: enders) text.toList

/-- Characters that end nothing, with balanced braces. -/
structure Contained (text : String) : Prop where
  safe : ∀ c ∈ text.toList, c ∉ enders
  /-- No brace is closed before it is opened. -/
  nested : ∀ initial, initial <+: text.toList → initial.count '}' ≤ initial.count '{'
  /-- Every brace is closed. -/
  settled : text.toList.count '{' = text.toList.count '}'

theorem Inert.append {a b : String} (ha : Inert a) (hb : Inert b) : Inert (a ++ b) := by
  intro c hc
  rw [String.toList_append, List.mem_append] at hc
  exact hc.elim (ha c) (hb c)

theorem joinable_inert : Joinable Inert :=
  ⟨Inert.append, by decide⟩

theorem Inert.contained {text : String} (h : Inert text) : Contained text := by
  have hbraces : ∀ {initial : List Char}, initial ⊆ text.toList →
      initial.count '{' = 0 ∧ initial.count '}' = 0 := by
    intro initial hsub
    rw [List.count_eq_zero, List.count_eq_zero]
    exact ⟨fun hm => h _ (hsub hm) (by simp), fun hm => h _ (hsub hm) (by simp)⟩
  refine ⟨fun c hc hm => h c hc (by simp [hm]), fun initial hi => ?_, ?_⟩
  · have hzero := hbraces hi.subset
    omega
  · rw [(hbraces (List.Subset.refl _)).1, (hbraces (List.Subset.refl _)).2]

namespace Contained

variable {a b : String}

theorem append (ha : Contained a) (hb : Contained b) : Contained (a ++ b) := by
  refine ⟨fun c hc => ?_, fun initial hi => ?_, ?_⟩
  · rw [String.toList_append, List.mem_append] at hc
    exact hc.elim (ha.safe c) (hb.safe c)
  · rw [String.toList_append] at hi
    rcases List.prefix_or_prefix_of_prefix hi (List.prefix_append _ _) with hi' | ⟨rest, rfl⟩
    · exact ha.nested initial hi'
    · have hrest := hb.nested rest ((List.prefix_append_right_inj _).1 hi)
      rw [List.count_append, List.count_append, ha.settled]
      omega
  · rw [String.toList_append, List.count_append, List.count_append, ha.settled, hb.settled]

theorem braced (ha : Contained a) : Contained ("\x7b" ++ a ++ "\x7d") := by
  have hlist : ("\x7b" ++ a ++ "\x7d").toList = '{' :: (a.toList ++ ['}']) := by simp
  refine ⟨fun c hc => ?_, fun initial hi => ?_, ?_⟩
  · rw [hlist] at hc
    rcases List.mem_cons.1 hc with rfl | hc
    · decide
    · rcases List.mem_append.1 hc with hc | hc
      · exact ha.safe c hc
      · obtain rfl := List.mem_singleton.1 hc
        decide
  · rw [hlist] at hi
    rcases List.prefix_cons_iff.1 hi with rfl | ⟨rest, rfl, hrest⟩
    · simp
    · rcases List.prefix_or_prefix_of_prefix hrest (List.prefix_append _ _) with hi' | ⟨last, rfl⟩
      · have hle := ha.nested rest hi'
        rw [List.count_cons_self, List.count_cons_of_ne (by decide)]
        omega
      · have hlast := ((List.prefix_append_right_inj _).1 hrest).sublist.count_le '}'
        have hone : ['}'].count '}' = 1 := by decide
        rw [List.count_cons_self, List.count_cons_of_ne (by decide), List.count_append,
          List.count_append, ha.settled]
        omega
  · rw [hlist]
    simp [ha.settled]

theorem empty : Contained "" :=
  Inert.contained (by decide)

theorem join {texts : List String} (h : ∀ text ∈ texts, Contained text) :
    Contained (String.join texts) := by
  induction texts with
  | nil => exact empty
  | cons text texts ih =>
    obtain ⟨htext, htexts⟩ := List.forall_mem_cons.1 h
    rw [String.join_cons]
    exact htext.append (ih htexts)

theorem intercalate {separator : String} (hs : Contained separator) {texts : List String}
    (h : ∀ text ∈ texts, Contained text) : Contained (separator.intercalate texts) := by
  induction texts with
  | nil => exact empty
  | cons text texts ih =>
    obtain ⟨htext, htexts⟩ := List.forall_mem_cons.1 h
    cases texts with
    | nil => exact htext
    | cons next texts =>
      rw [String.intercalate_cons_cons]
      exact (htext.append hs).append (ih htexts)

end Contained

end Text

open Text

/-! ## Tokens -/

/-- Tokens are made of the characters of words and of keywords. -/
theorem Token.of_mem_scan {v : Vocabulary} {cs token : List Char} (h : token ∈ scan v cs) {c : Char}
    (hc : c ∈ token) : isWordChar c = true ∨ v.isKeyword c = true := by
  fun_induction scan v cs with
  | case1 => cases h
  | case2 first rest _ ih => exact ih h
  | case3 first rest _ hword ih =>
    rcases List.mem_cons.1 h with rfl | h
    · rcases List.mem_cons.1 hc with rfl | hc
      · exact Or.inl (by simp [isWordChar, hword])
      · exact Or.inl (List.all_eq_true.1 List.all_takeWhile c hc)
    · exact ih h
  | case4 => cases h
  | case5 first rest _ _ _ hkey ih =>
    rcases List.mem_cons.1 h with rfl | h
    · obtain rfl := List.mem_singleton.1 hc
      exact Or.inr hkey
    · exact ih h
  | case6 first rest _ _ _ _ ih => exact ih h

/-- With the usual vocabulary tokens are inert. -/
theorem inert_of_mem_tokenize {text token : String} (h : token ∈ Token.tokenize {} text) :
    Inert token := by
  have special : ('{' :: '}' :: enders).all (fun c =>
      !(Token.isWordChar c || ({} : Vocabulary).isKeyword c)) = true := by
    decide +kernel
  obtain ⟨chars, hchars, rfl⟩ := List.mem_map.1 h
  intro c hc hm
  rw [String.toList_ofList] at hc
  have hspecial := List.all_eq_true.1 special c hm
  rcases Token.of_mem_scan hchars hc with hword | hkey
  · simp [hword] at hspecial
  · simp [hkey] at hspecial

/-- **All that a script keeps of its tokens is inert.** -/
theorem Script.inert_of_parse {lines : List String} {script : Script}
    (h : Script.parse {} lines = .ok script) :
    script.Renames (.same Inert joinable_inert) [] [] script := by
  obtain ⟨joined, -, rfl⟩ := Script.parse_eq_ok_iff.1 h
  refine Script.extend_renames ?_
  exact List.forall₂_same.2 fun l _ => LogicalLine.like_same rfl fun _ => inert_of_mem_tokenize

/-- The wording of a fault is inert if the tokens in it are. -/
theorem Fault.inert_message {fault : Fault} (h : ∀ text ∈ fault.texts, Inert text) :
    Inert fault.message := by
  have around : ∀ {before text after : String}, Inert before → Inert text → Inert after →
      Inert (before ++ text ++ after) := fun hb ht ha => (hb.append ht).append ha
  have digits : ∀ n : Nat, Inert (toString n) := by
    intro n c hc
    rw [Nat.toString_eq_ofList_toDigits, String.toList_ofList] at hc
    have hdigit := Nat.isDigit_of_mem_toDigits (by decide) (by decide) hc
    have hnone : ('{' :: '}' :: enders).all (fun c => !c.isDigit) = true := by decide
    intro hm
    have hno := List.all_eq_true.1 hnone c hm
    simp [hdigit] at hno
  cases fault with
  | unrecognizedToken token => exact around (by decide) (h token List.mem_cons_self) (by decide)
  | unmatched group => cases group <;> decide
  | missingOperand token => exact around (by decide) (h token List.mem_cons_self) (by decide)
  | notReduced remaining => exact around (by decide) (digits remaining) (by decide)
  | emptyTerm => decide
  | missingValue => decide
  | expectedParameterList => decide
  | unexpectedToken token => exact around (by decide) (h token List.mem_cons_self) (by decide)
  | unsupportedCell token => exact around (by decide) (h token List.mem_cons_self) (by decide)

/-! ## Variables -/

namespace Render

/-- Only backslashes and blanks are put into a name. -/
theorem mem_of_mem_writeSymbols {symbols : List (List Char)} {cs : List Char} {c : Char}
    (h : c ∈ writeSymbols symbols cs) : c ∈ cs ∨ c = '\\' ∨ c = ' ' := by
  fun_induction writeSymbols symbols cs with
  | case1 => cases h
  | case2 first rest _ ih =>
    rcases List.mem_cons.1 h with rfl | h
    · exact Or.inl List.mem_cons_self
    · exact (ih h).imp_left (List.mem_cons_of_mem first)
  | case3 first rest s symbol hs ih =>
    have hsymbol := hs ▸ longestSymbol_prefix symbols (first :: rest)
    rcases List.mem_cons.1 h with rfl | h
    · exact Or.inr (Or.inl rfl)
    · rcases List.mem_append.1 h with h | h
      · exact Or.inl (hsymbol.subset h)
      · rcases List.mem_cons.1 h with rfl | h
        · exact Or.inr (Or.inr rfl)
        · exact (ih h).imp_left fun hm => List.mem_cons_of_mem first (List.mem_of_mem_drop hm)

/-- The braces of a subscript are balanced. -/
theorem contained_formatVariable (style : Style) {name : String} (h : Inert name) :
    Contained (formatVariable style name) := by
  have hsymbols : ∀ c ∈ writeSymbols (style.specialSymbols.map String.toList) name.toList,
      c ∉ '{' :: '}' :: enders := by
    intro c hc
    rcases mem_of_mem_writeSymbols hc with hc | rfl | rfl
    · exact h c hc
    · decide
    · decide
  unfold formatVariable writeSubscript
  generalize writeSymbols (style.specialSymbols.map String.toList) name.toList = cs at hsymbols
  have part : ∀ {part : List Char}, (∀ c ∈ part, c ∉ '{' :: '}' :: enders) →
      Contained (String.ofList part) := by
    intro part hp
    refine Inert.contained fun c hc => hp c ?_
    rwa [String.toList_ofList] at hc
  split
  · exact part hsymbols
  · rename_i first parts hdrop
    have hparts : parts ⊆ cs := fun c hc =>
      (List.dropWhile_sublist _).subset (hdrop ▸ List.mem_cons_of_mem first hc)
    have hsplit : String.ofList (cs.takeWhile (· != '_') ++ '_' :: '{' ::
        parts.map (fun c => if c = '_' then ',' else c) ++ ['}']) =
        String.ofList (cs.takeWhile (· != '_') ++ ['_']) ++ ("\x7b" ++
          String.ofList (parts.map fun c => if c = '_' then ',' else c) ++ "\x7d") :=
      String.toList_inj.1 (by simp)
    rw [hsplit]
    refine (part fun c hc => ?_).append (Contained.braced (part fun c hc => ?_))
    · rcases List.mem_append.1 hc with hc | hc
      · exact hsymbols c ((List.takeWhile_sublist _).subset hc)
      · obtain rfl := List.mem_singleton.1 hc
        decide
    · obtain ⟨x, hx, rfl⟩ := List.mem_map.1 hc
      split
      · decide
      · exact hsymbols x (hparts hx)

/-! ## Elements -/

theorem contained_listText {head separator : String} (hh : Contained head)
    (hs : Contained separator) {texts : List String} (ht : ∀ text ∈ texts, Contained text) :
    Contained (listText head separator texts) :=
  ((hh.append (Inert.contained (by decide))).append (hs.intercalate ht)).append
    (Inert.contained (by decide))

theorem contained_arrayText (environment : Matrix) {rows : List (List String)}
    (h : ∀ row ∈ rows, ∀ text ∈ row, Contained text) :
    Contained (arrayText environment rows) := by
  have hname : Contained environment.name := Inert.contained (by cases environment <;> decide)
  have hsplit : arrayText environment rows = "\\begin" ++ ("\x7b" ++ environment.name ++ "\x7d") ++
      "\\\\".intercalate (rows.map "&".intercalate) ++ "\\end" ++
        ("\x7b" ++ environment.name ++ "\x7d") :=
    String.toList_inj.1 (by simp [arrayText])
  rw [hsplit]
  refine ((((Inert.contained (by decide)).append hname.braced).append ?_).append
    (Inert.contained (by decide))).append hname.braced
  refine Contained.intercalate (Inert.contained (by decide)) fun text ht => ?_
  obtain ⟨row, hrow, rfl⟩ := List.mem_map.1 ht
  exact Contained.intercalate (Inert.contained (by decide)) (h row hrow)

theorem contained_operatorText {style : Style} (hstyle : Contained style.multiplication)
    {symbol : String} (hsymbol : Inert symbol) {role : Role} {nested : Bool}
    {first second : Option String} (h₁ : ∀ text ∈ first, Contained text)
    (h₂ : ∀ text ∈ second, Contained text) {text : String}
    (h : operatorText style symbol role nested first second = .ok text) : Contained text := by
  have hwritten : Contained (style.symbol symbol) := by
    unfold Style.symbol
    split
    · exact hstyle
    · exact hsymbol.contained
  have hget : ∀ {operand : Option String}, (∀ text ∈ operand, Contained text) →
      Contained (operand.getD "") := by
    intro operand ho
    cases operand with
    | none => exact Contained.empty
    | some text => exact ho text rfl
  have blank : Contained " " := Inert.contained (by decide)
  have opening : Contained "(" := Inert.contained (by decide)
  have closing : Contained ")" := Inert.contained (by decide)
  unfold operatorText at h
  dsimp only at h
  split at h
  · have hsplit : "\\frac\x7b" ++ first.getD "" ++ "\x7d\x7b" ++ second.getD "" ++ "\x7d" =
        "\\frac" ++ ("\x7b" ++ first.getD "" ++ "\x7d") ++ ("\x7b" ++ second.getD "" ++ "\x7d") :=
      String.toList_inj.1 (by simp)
    rw [hsplit] at h
    cases h
    exact ((Inert.contained (by decide)).append (hget h₁).braced).append (hget h₂).braced
  · split at h
    · rename_i a b
      have hbinary : Contained (a ++ " " ++ style.symbol symbol ++ " " ++ b) :=
        ((((h₁ a rfl).append blank).append hwritten).append blank).append (h₂ b rfl)
      cases h
      split
      · exact (opening.append hbinary).append closing
      · exact hbinary
    · rename_i a
      cases h
      exact ((hwritten.append opening).append (h₁ a rfl)).append closing
    · rename_i a
      cases h
      exact hwritten.append (h₁ a rfl)
    · cases h

variable {script : Script} {options : RenderOptions} {n : Nat}

theorem inert_declaredName?
    (hs : script.store.Renames (.same Inert joinable_inert) n script.store) {id : ElementId}
    {name : String} (h : script.declaredName? id = some name) : Inert name := by
  unfold Script.declaredName? at h
  split at h
  · cases h
  · split at h
    · rename_i target _ _ _
      refine (hs.get target).texts name ?_
      rw [← Store.kind]
      cases hk : script.store.kind target with
      | name text =>
        rw [hk] at h
        obtain rfl : text = name := Option.some.inj h
        exact List.mem_cons_self
      | _ => simp [hk, Kind.name?] at h
    · cases h

theorem contained_of_finish_planCall
    (hs : script.store.Renames (.same Inert joinable_inert) n script.store)
    {inlining : Bool} {id function : ElementId} {arguments : List ElementId}
    {parent : Option ElementId} {scope : Scope} {rows : List (List String)}
    (hrows : ∀ text ∈ rows.flatten, Contained text) {text : String}
    (h : (planCall script inlining id function arguments parent scope).finish rows = .ok text) :
    Contained text := by
  unfold planCall at h
  dsimp only at h
  split at h
  · split at h
    · split at h
      · cases h
      · rename_i name hname
        cases h
        refine contained_listText ?_ (Inert.contained (by decide)) hrows
        exact (inert_declaredName? hs hname).contained
    · split at h
      · cases h
      · cases h
        exact Contained.join hrows
  · cases h

/-- What is put together from the texts of its rows is contained. -/
theorem contained_of_finish (hs : script.store.Renames (.same Inert joinable_inert) n script.store)
    (hskip : Contained options.style.mediumSkip) (hmul : Contained options.style.multiplication)
    {id : ElementId} {parent : Option ElementId} {scope : Scope} {rows : List (List String)}
    (hrows : ∀ row ∈ rows, ∀ text ∈ row, Contained text) {text : String}
    (h : (plan script options id parent scope).finish rows = .ok text) : Contained text := by
  have hraw : (script.store.kind id).isDeclaration = false → Inert (script.store.get id).raw :=
    fun hk => (hs.raw_of_isDeclaration hk).2
  have htexts : ∀ text ∈ (script.store.kind id).texts, Inert text := (hs.get id).texts
  have hall : ∀ text ∈ rows.flatten, Contained text := by
    intro text ht
    obtain ⟨row, hrow, ht⟩ := List.mem_flatten.1 ht
    exact hrows row hrow text ht
  have hhead : ∀ text ∈ rows.headD [], Contained text := by
    cases rows with
    | nil => simp
    | cons row rows => exact hrows row List.mem_cons_self
  have htail : ∀ text ∈ rows.tail.flatten, Contained text := by
    intro text ht
    obtain ⟨row, hrow, ht⟩ := List.mem_flatten.1 ht
    exact hrows row (List.mem_of_mem_tail hrow) text ht
  have hsecond : ∀ text ∈ rows.tail.headD [], Contained text := by
    intro text ht
    refine htail text ?_
    cases htail' : rows.tail with
    | nil => simp [htail'] at ht
    | cons row rest =>
      exact List.mem_flatten.2 ⟨row, List.mem_cons_self, by simpa [htail'] using ht⟩
  unfold plan at h
  dsimp only at h
  rw [← Store.kind] at h
  cases hk : script.store.kind id with
  | blank =>
    rw [hk] at h
    cases h
    exact hskip
  | name name =>
    rw [hk] at h htexts
    dsimp only at h
    split at h
    · cases h
      exact Contained.join hall
    · cases h
      exact contained_formatVariable options.style (htexts name List.mem_cons_self)
  | value text =>
    rw [hk] at h htexts
    cases h
    exact (htexts _ List.mem_cons_self).contained
  | operator symbol role first second =>
    rw [hk] at h htexts
    refine contained_operatorText hmul (htexts symbol List.mem_cons_self) (fun text ht => ?_)
      (fun text ht => ?_) h
    · exact hhead text (List.mem_of_mem_head? ht)
    · exact hsecond text (List.mem_of_mem_head? ht)
  | array cells =>
    rw [hk] at h
    cases h
    exact contained_arrayText _ hrows
  | access target indexes =>
    rw [hk] at h
    cases h
    exact contained_listText (Contained.join hhead) (Inert.contained (by decide)) htail
  | function parameters body =>
    rw [hk] at h
    cases body with
    | none => cases h
    | some body =>
      cases h
      exact (((Inert.contained (by decide)).append (Contained.intercalate
        (Inert.contained (by decide)) hhead)).append (Inert.contained (by decide))).append
          (Contained.join htail)
  | call function arguments =>
    rw [hk] at h
    exact contained_of_finish_planCall hs hall h
  | declaration target content form =>
    rw [hk] at h
    cases h
    exact ((Contained.join hhead).append (Inert.contained (by decide))).append
      (Contained.join htail)
  | error fault children =>
    rw [hk] at h htexts hraw
    cases h
    exact (((hraw rfl).append (by decide)).append (Fault.inert_message htexts)).contained
  | _ =>
    rw [hk] at h hraw
    cases h
    exact (hraw rfl).contained

/-- **Whatever is written is contained.** -/
theorem contained_of_gives (hs : script.store.Renames (.same Inert joinable_inert) n script.store)
    (hskip : Contained options.style.mediumSkip) (hmul : Contained options.style.multiplication)
    {depth : Nat} {id : ElementId} {parent : Option ElementId} {scope : Scope} {text : String}
    (h : Gives (renderWithin script options depth id parent scope) text) : Contained text := by
  induction depth generalizing id parent scope text with
  | zero => obtain ⟨log, log', ⟨⟩⟩ := h
  | succ depth ih =>
    rw [renderWithin, renderNode_eq] at h
    obtain ⟨rows, hrows, hfinish⟩ := Plan.gives_run h
    refine contained_of_finish hs hskip hmul (fun row hrow text ht => ?_) hfinish
    obtain ⟨requests, hrequests⟩ := exists_of_forall₂ hrows.flip hrow
    obtain ⟨r, hr⟩ := exists_of_forall₂ hrequests.flip ht
    exact ih hr

theorem eq_mediumSkip_of_gives {depth : Nat} {id : ElementId} {parent : Option ElementId}
    {scope : Scope} {text : String} (hk : script.store.kind id = .blank)
    (h : Gives (renderWithin script options depth id parent scope) text) :
    text = options.style.mediumSkip := by
  cases depth with
  | zero => obtain ⟨log, log', ⟨⟩⟩ := h
  | succ depth =>
    rw [renderWithin, renderNode_eq] at h
    obtain ⟨rows, -, hfinish⟩ := Plan.gives_run h
    unfold plan at hfinish
    dsimp only at hfinish
    rw [← Store.kind, hk] at hfinish
    exact (Except.ok.inj hfinish).symm

end Render

/-- **What a script says stays inside its formulas**: whatever its lines are, the
    line of a statement is the skip of a blank line, or a formula between two
    dollar signs that has no other dollar sign, no percent sign and no line
    break, and whose braces are balanced. -/
theorem formula_of_parse {lines : List String} {script : Script}
    (h : Script.parse {} lines = .ok script) (environment : Matrix) (inlining : Bool)
    {id : ElementId} (hid : id ∈ script.statements) {log log' : Log} {text : String}
    (hrun : StateT.run (renderStatement script ⟨inlining, { matrix := environment }⟩ id) log =
      some (text, log')) :
    text = "\\medskip" ∨ ∃ body, text = "$" ++ body ++ "$ \\par" ∧
      '$' ∉ body.toList ∧ '%' ∉ body.toList ∧ (∀ c ∈ lineBreaks, c ∉ body.toList) ∧
      body.toList.count '{' = body.toList.count '}' ∧
      ∀ initial, initial <+: body.toList → initial.count '}' ≤ initial.count '{' := by
  have hs := Script.parse_sound h
  have hline : script.line? ⟨inlining, { matrix := environment }⟩ id = some text := by
    rw [← Script.map_run_renderStatement id log, hrun]
    rfl
  obtain ⟨log₁, hrun₁⟩ := hs.always_of_line? hid hline #[]
  have hgives : Gives (renderElement script ⟨inlining, { matrix := environment }⟩ id) text :=
    ⟨_, log₁, hrun₁⟩
  rw [renderElement_eq (hs.unowned id hid)] at hgives
  obtain ⟨body, hbody, htext⟩ := hgives.of_bind
  have htext := htext.eq_of_pure
  by_cases hk : script.store.kind id = .blank
  · rw [if_pos hk, eq_mediumSkip_of_gives hk hbody] at htext
    exact Or.inl htext
  · rw [if_neg hk] at htext
    have hskip : Inert "\\medskip" := by decide
    have hmul : Inert "\\cdot" := by decide
    have hcontained := contained_of_gives (Script.inert_of_parse h).store hskip.contained
      hmul.contained hbody
    have hsafe : ∀ c ∈ enders, c ∉ body.toList := fun c hc hm => hcontained.safe c hm hc
    have hformula : text = "$" ++ body ++ "$ \\par" :=
      htext.trans (String.toList_inj.1 (by simp [Style.topLevel]))
    exact Or.inr ⟨body, hformula, hsafe '$' (by simp [enders]), hsafe '%' (by simp [enders]),
      fun c hc => hsafe c (by simp [enders, hc]), hcontained.settled, hcontained.nested⟩

/-- Signs of the typesetter in a line are dropped or left to its comment. -/
theorem formula_of_parse_hostile : ∃ script,
    Script.parse {} ["x_1 = $alpha_i\x7d/\x7b2% $"] = .ok script ∧
    ∃ id ∈ script.statements, ∃ text log',
      StateT.run (renderStatement script ⟨true, { matrix := .pmatrix }⟩ id) #[] =
        some (text, log') ∧
      text = "$x_\x7b1\x7d = \\frac\x7b\\alpha _\x7bi\x7d\x7d\x7b2\x7d$ \\par" ∧
      (text = "\\medskip" ∨ ∃ body, text = "$" ++ body ++ "$ \\par" ∧
        '$' ∉ body.toList ∧ '%' ∉ body.toList ∧ (∀ c ∈ lineBreaks, c ∉ body.toList) ∧
        body.toList.count '{' = body.toList.count '}' ∧
        ∀ initial, initial <+: body.toList → initial.count '}' ≤ initial.count '{') := by
  have hfacts : ∃ script ∈ (Script.parse {} ["x_1 = $alpha_i\x7d/\x7b2% $"]).toOption,
      script.statements.map (script.line? ⟨true, { matrix := .pmatrix }⟩) =
        [some "$x_\x7b1\x7d = \\frac\x7b\\alpha _\x7bi\x7d\x7d\x7b2\x7d$ \\par"] := by
    decide +kernel
  obtain ⟨script, hscript, hlines⟩ := hfacts
  have hparse := Script.parse_of_mem hscript
  obtain ⟨id, rest, hids, hline, -⟩ := List.map_eq_cons_iff.1 hlines
  have hid : id ∈ script.statements := hids ▸ List.mem_cons_self
  obtain ⟨⟨text, log'⟩, hrun, htext⟩ :=
    Option.map_eq_some_iff.1 ((Script.map_run_renderStatement id #[]).trans hline)
  exact ⟨script, hparse, id, hid, text, log', hrun, htext,
    formula_of_parse hparse .pmatrix true hid hrun⟩

end FormulaSheet
