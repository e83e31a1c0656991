/-
  Writing formulas, and reading their tokens in what has been written.

  * `Formula.Writable style f`: the symbols of `f` are tokens, and all of them are
    written as they are.
  * `always_written`: where a writable formula hangs, `Formula.written` is rendered.
  * `scan_written` and `classify_elements`: the text has the tokens of the formula, and
    these are classified as its elements.
  * `exists_writable`: what derives from tokens that are written as they are is a
    writable formula.
-/
import FormulaSheet.Proofs.Formula
import FormulaSheet.Proofs.Inlining
import FormulaSheet.Proofs.PassThrough

namespace FormulaSheet

open Store Token Render Rendering

/-! ## Kinds of tokens -/

namespace Kind

variable {v : Vocabulary} {token : String}

theorem ofToken_of_isOperator (h : v.isOperator token = true) (previous : Option Kind) :
    ofToken v previous token = .operator token (Role.ofToken v previous token) none none := by
  simp [ofToken, recognize, h]

theorem ofToken_congr (h : v.isOperator token = false) (previous previous' : Option Kind) :
    ofToken v previous token = ofToken v previous' token := by
  simp [ofToken, recognize, h]

theorem isOperator_ofToken (v : Vocabulary) (previous : Option Kind) (token : String) :
    (ofToken v previous token).isOperator = v.isOperator token := by
  have structural : ∀ {c : Char} {kind : Kind}, ofStructural? c = some kind →
      kind.isOperator = false := by
    intro c kind hc
    unfold ofStructural? at hc
    split at hc <;> cases hc <;> rfl
  cases ho : v.isOperator token with
  | true =>
    rw [ofToken_of_isOperator ho]
    rfl
  | false =>
    simp only [ofToken, recognize, ho, Bool.false_eq_true, if_false]
    by_cases hvalue : Vocabulary.isValue token = true
    · rw [if_pos hvalue]
      by_cases hnumber : isNumber token = true
      · rw [if_pos hnumber]; rfl
      · rw [if_neg hnumber]; rfl
    · rw [if_neg hvalue]
      by_cases hname : v.isVariable token = true
      · rw [if_pos hname]; rfl
      · rw [if_neg hname]
        cases hs : (Vocabulary.single? token).bind ofStructural? with
        | none => rfl
        | some kind =>
          obtain ⟨c, -, hc⟩ := Option.bind_eq_some_iff.1 hs
          exact structural hc

end Kind

/-- The operator symbols other than `/`. -/
def plainSymbols : List String :=
  ["*", "^", "+", "-"]

/-- A symbol is a sign at the start of an expression and a binary operator elsewhere. -/
theorem ofToken_plainSymbol {symbol : String} (h : symbol ∈ plainSymbols) (previous : Option Kind) :
    Kind.ofToken {} previous symbol =
      .operator symbol (if startsExpression previous then .sign else .binary) none none := by
  have hsymbol : ({} : Vocabulary).isOperator symbol = true ∧
      ({} : Vocabulary).isFunction symbol = false := by
    revert symbol
    decide
  simp [Kind.ofToken, Kind.recognize, Role.ofToken, hsymbol]

theorem ofToken_function {symbol : String} (h : ({} : Vocabulary).isFunction symbol = true)
    (previous : Option Kind) :
    Kind.ofToken {} previous symbol = .operator symbol .function none none := by
  simp [Kind.ofToken, Kind.recognize, Role.ofToken, Vocabulary.isOperator, h]

theorem ofToken_parenthesis (previous : Option Kind) :
    Kind.ofToken {} previous "(" = .delimiter .parenthesis .opening ∧
      Kind.ofToken {} previous ")" = .delimiter .parenthesis .closing := by
  constructor
  · exact (Kind.ofToken_congr (by decide) previous none).trans (by decide)
  · exact (Kind.ofToken_congr (by decide) previous none).trans (by decide)

theorem scan_plainSymbol {symbol : String} (h : symbol ∈ plainSymbols) (rest : List Char) :
    scan {} (symbol.toList ++ rest) = symbol.toList :: scan {} rest := by
  have hsymbol : ∃ c, symbol.toList = [c] ∧ Text.isBlank c = false ∧
      Text.isLetterOrNumber c = false ∧ c ≠ '%' ∧ ({} : Vocabulary).isKeyword c = true := by
    simp only [plainSymbols, List.mem_cons, List.not_mem_nil, or_false] at h
    rcases h with rfl | rfl | rfl | rfl
    · exact ⟨'*', by decide⟩
    · exact ⟨'^', by decide⟩
    · exact ⟨'+', by decide⟩
    · exact ⟨'-', by decide⟩
  obtain ⟨c, hc, hb, hl, hp, hk⟩ := hsymbol
  rw [hc]
  exact scan_symbol hb hl hp hk rest

/-! ## Writable formulas -/

namespace Formula

/-- The symbols of the formula are tokens that are written as they are. -/
def Writable (style : Style) : Formula → Prop
  | value text =>
    IsLexeme {} text.toList ∧ ∀ previous, Kind.ofToken {} previous text = .value text
  | name text =>
    IsLexeme {} text.toList ∧ (∀ previous, Kind.ofToken {} previous text = .name text) ∧
      formatVariable style text = text
  | sign symbol operand => symbol ∈ plainSymbols ∧ operand.Writable style
  | function symbol operand =>
    IsLexeme {} symbol.toList ∧ ({} : Vocabulary).isFunction symbol = true ∧ operand.Writable style
  | binary symbol left right =>
    symbol ∈ plainSymbols ∧ left.Writable style ∧ right.Writable style

/-- The text of a formula; a binary operator in parentheses if `nested`. -/
def written : (nested : Bool) → Formula → String
  | _, value text | _, name text => text
  | _, sign symbol operand => symbol ++ operand.written true
  | _, function symbol operand => symbol ++ "(" ++ operand.written true ++ ")"
  | nested, binary symbol left right =>
    let text := left.written true ++ " " ++ symbol ++ " " ++ right.written true
    if nested then "(" ++ text ++ ")" else text

variable {style : Style} {f : Formula} {line : Nat}

/-! ### Rendering -/

section Render

variable {script : Script} {options : RenderOptions} {id : ElementId}

theorem ne_slash_of_mem_plainSymbols {symbol : String} (h : symbol ∈ plainSymbols) :
    symbol ≠ "/" := by
  rintro rfl
  revert h
  decide

theorem symbol_eq_self (h : style.multiplication = "*") (symbol : String) :
    style.symbol symbol = symbol := by
  unfold Style.symbol
  split
  · rename_i hs
    rw [hs, h]
  · rfl

theorem always_operator {symbol text : String} {role : Role} {first second : Option ElementId}
    {texts texts' : List String} {n : Nat} {parent : Option ElementId}
    (hk : script.store.kind id = .operator symbol role first second)
    (hfirst : List.Forall₂ (fun x t => Always (renderWithin script options n x (some id) []) t)
      first.toList texts)
    (hsecond : List.Forall₂ (fun x t => Always (renderWithin script options n x (some id) []) t)
      second.toList texts')
    (htext : operatorText options.style symbol role (isNested script.store parent) texts.head?
      texts'.head? = .ok text) :
    Always (renderWithin script options (n + 1) id parent []) text := by
  have hplan : plan script options id parent [] = ⟨[], [below id [] first.toList,
      below id [] second.toList], fun rows => operatorText options.style symbol role
        (isNested script.store parent) (rows.headD []).head? (rows.tail.headD []).head?⟩ := by
    unfold plan
    dsimp only
    rw [← Store.kind, hk]
    rfl
  have hrows : List.Forall₂ (List.Forall₂ fun r t =>
      Always (renderWithin script options n r.id r.parent r.scope) t)
      [below id [] first.toList, below id [] second.toList] [texts, texts'] :=
    .cons (List.forall₂_map_left_iff.2 hfirst) (.cons (List.forall₂_map_left_iff.2 hsecond) .nil)
  rw [renderWithin, renderNode_eq, hplan]
  exact Plan.always_run hrows htext

/-- **A writable formula is rendered as it is written.** -/
theorem always_written (hm : options.style.multiplication = "*") (h : f.Writable options.style)
    (hat : f.IsAt script.store id) (parent : Option ElementId) :
    ∃ n, Always (renderWithin script options n id parent [])
      (f.written (isNested script.store parent)) := by
  induction f generalizing id parent with
  | value text =>
    refine ⟨1, ?_⟩
    rw [renderWithin, renderNode_eq, plan]
    dsimp only
    rw [← Store.kind, show script.store.kind id = _ from hat]
    exact Plan.always_run .nil rfl
  | name text =>
    refine ⟨1, ?_⟩
    rw [renderWithin, renderNode_eq, plan]
    dsimp only
    rw [← Store.kind, show script.store.kind id = _ from hat]
    exact Plan.always_run .nil (congrArg Except.ok h.2.2)
  | sign symbol operand ih =>
    obtain ⟨x, hk, hx⟩ := hat
    have hnested : isNested script.store (some id) = true := by simp [isNested, hk, Kind.isOperator]
    obtain ⟨n, hn⟩ := ih h.2 hx (some id)
    rw [hnested] at hn
    refine ⟨n + 1, always_operator hk (.cons hn .nil) .nil ?_⟩
    simp [operatorText, ne_slash_of_mem_plainSymbols h.1, symbol_eq_self hm, written]
  | function symbol operand ih =>
    obtain ⟨x, hk, hx⟩ := hat
    have hnested : isNested script.store (some id) = true := by simp [isNested, hk, Kind.isOperator]
    obtain ⟨n, hn⟩ := ih h.2.2 hx (some id)
    rw [hnested] at hn
    have hslash : symbol ≠ "/" := by
      rintro rfl
      exact absurd h.2.1 (by decide)
    refine ⟨n + 1, always_operator hk (.cons hn .nil) .nil ?_⟩
    simp [operatorText, hslash, symbol_eq_self hm, written]
  | binary symbol left right ihl ihr =>
    obtain ⟨x, y, hk, hx, hy⟩ := hat
    have hnested : isNested script.store (some id) = true := by simp [isNested, hk, Kind.isOperator]
    obtain ⟨n, hn⟩ := ihl h.2.1 hx (some id)
    obtain ⟨m, hm'⟩ := ihr h.2.2 hy (some id)
    rw [hnested] at hn hm'
    refine ⟨max n m + 1, always_operator hk
      (.cons (hn.refines (refines_renderWithin (Nat.le_max_left n m) _ _ _)) .nil)
      (.cons (hm'.refines (refines_renderWithin (Nat.le_max_right n m) _ _ _)) .nil) ?_⟩
    simp [operatorText, ne_slash_of_mem_plainSymbols h.1, symbol_eq_self hm, written]

end Render

/-! ### Tokens -/

/-- A lexeme before a character that cannot continue a word. -/
theorem not_runTogether {t rest : List Char} (h : rest.head?.any isWordChar = false) :
    ¬ RunTogether t rest := by
  rintro ⟨-, hr⟩
  rw [h] at hr
  cases hr

theorem scan_parenthesis {c : Char} (h : c = '(' ∨ c = ')') (rest : List Char) :
    scan {} (c :: rest) = [c] :: scan {} rest := by
  refine scan_append (t := [c]) (isLexeme_parenthesis h) ?_
  rintro ⟨hc, -⟩
  rcases h with rfl | rfl
  · exact absurd hc (by decide)
  · exact absurd hc (by decide)

/-- Parentheses around a text are tokens, and keep it apart from what follows. -/
theorem scan_enclose (line : Nat) {text : List Char} {elements : List Element}
    (h : ∀ rest, rest.head?.any isWordChar = false →
      scan {} (text ++ rest) = elements.map (·.raw.toList) ++ scan {} rest) (rest : List Char) :
    scan {} ('(' :: (text ++ ')' :: rest)) =
      (enclose line elements).map (·.raw.toList) ++ scan {} rest := by
  have hclosing : isWordChar ')' = false := by decide
  rw [scan_parenthesis (Or.inl rfl), h _ (by simp [hclosing]), scan_parenthesis (Or.inr rfl)]
  simp [enclose]

/-- **The text of a formula has its tokens**, if nothing that follows continues the
    last one. -/
theorem scan_written (h : f.Writable style) (line : Nat) (nested : Bool) {rest : List Char}
    (hrest : rest.head?.any isWordChar = false) :
    scan {} ((f.written nested).toList ++ rest) =
      (f.elements line nested).map (·.raw.toList) ++ scan {} rest := by
  have hblank : " ".toList = [' '] ∧ Text.isBlank ' ' = true ∧ isWordChar ' ' = false := by decide
  have hopening : isWordChar '(' = false := by decide
  induction f generalizing nested rest with
  | value text => exact scan_append h.1 (not_runTogether hrest)
  | name text => exact scan_append h.1 (not_runTogether hrest)
  | sign symbol operand ih =>
    rw [written, String.toList_append, List.append_assoc, scan_plainSymbol h.1,
      ih h.2 true hrest]
    rfl
  | function symbol operand ih =>
    have hall := scan_enclose line (fun rest => ih h.2.2 true) rest
    simp only [written, String.toList_append, List.append_assoc]
    rw [scan_append h.1 (not_runTogether (by simp [hopening]))]
    simpa [elements] using hall
  | binary symbol left right ihl ihr =>
    -- Without parentheses, blanks keep the operator apart.
    have hall : ∀ rest : List Char, rest.head?.any isWordChar = false →
        scan {} (((binary symbol left right).written false).toList ++ rest) =
          ((binary symbol left right).elements line false).map (·.raw.toList) ++ scan {} rest := by
      intro rest hrest
      simp only [written, String.toList_append, List.append_assoc, Bool.false_eq_true, if_false]
      rw [ihl h.2.1 true (by simp [hblank])]
      rw [hblank.1, List.singleton_append, scan_blank hblank.2.1, scan_plainSymbol h.1,
        List.singleton_append, scan_blank hblank.2.1, ihr h.2.2 true hrest]
      simp [elements]
    cases nested with
    | false => exact hall rest hrest
    | true =>
      have henclosed := scan_enclose line hall rest
      simpa [written, elements] using henclosed

/-- Parentheses are at the start of an expression inside, and not behind. -/
theorem classify_enclose {elements : List Element}
    (h : ∀ previous, startsExpression previous = true → ∃ last, ∀ rest,
      classify {} line previous (elements.map Element.raw ++ rest) =
        elements ++ classify {} line (some last) rest) (previous : Option Kind)
    (rest : List String) :
    classify {} line previous ((enclose line elements).map Element.raw ++ rest) =
      enclose line elements ++
        classify {} line (some (.delimiter .parenthesis .closing)) rest := by
  obtain ⟨last, hlast⟩ := h (some (.delimiter .parenthesis .opening)) rfl
  simp only [enclose, List.map_cons, List.map_append, List.map_nil, List.cons_append,
    List.append_assoc, List.nil_append, classify, (ofToken_parenthesis _).1, hlast,
    (ofToken_parenthesis _).2]

/-- **The tokens of a formula are classified as its elements** at the start of an
    expression, and what follows them is not at the start of one. -/
theorem classify_elements (h : f.Writable style) (line : Nat) (nested : Bool)
    (previous : Option Kind) (hp : startsExpression previous = true) :
    ∃ last, startsExpression (some last) = false ∧ ∀ rest,
      classify {} line previous ((f.elements line nested).map Element.raw ++ rest) =
        f.elements line nested ++ classify {} line (some last) rest := by
  induction f generalizing nested previous with
  | value text =>
    refine ⟨.value text, rfl, fun rest => ?_⟩
    simp [elements, classify, h.2]
  | name text =>
    refine ⟨.name text, rfl, fun rest => ?_⟩
    simp [elements, classify, h.2.1]
  | sign symbol operand ih =>
    obtain ⟨last, hlast, hall⟩ := ih h.2 true (some (.operator symbol .sign none none)) rfl
    refine ⟨last, hlast, fun rest => ?_⟩
    simp only [elements, List.map_cons, List.cons_append, classify, ofToken_plainSymbol h.1, hp,
      if_true, hall]
  | function symbol operand ih =>
    refine ⟨.delimiter .parenthesis .closing, rfl, fun rest => ?_⟩
    simp only [elements, List.map_cons, List.cons_append, classify, ofToken_function h.2.1]
    rw [classify_enclose fun previous hp => ?_]
    obtain ⟨last, -, hall⟩ := ih h.2.2 true previous hp
    exact ⟨last, hall⟩
  | binary symbol left right ihl ihr =>
    have hall : ∀ previous, startsExpression previous = true → ∃ last,
        startsExpression (some last) = false ∧ ∀ rest,
          classify {} line previous
              (((binary symbol left right).elements line false).map Element.raw ++ rest) =
            (binary symbol left right).elements line false ++
              classify {} line (some last) rest := by
      intro previous hp
      obtain ⟨middle, hmiddle, hleft⟩ := ihl h.2.1 true previous hp
      obtain ⟨last, hlast, hright⟩ := ihr h.2.2 true (some (.operator symbol .binary none none)) rfl
      refine ⟨last, hlast, fun rest => ?_⟩
      simp [elements, classify, ofToken_plainSymbol h.1, hmiddle, hleft, hright]
    cases nested with
    | false => exact hall previous hp
    | true =>
      refine ⟨.delimiter .parenthesis .closing, rfl, fun rest => ?_⟩
      refine classify_enclose (fun previous hp => ?_) previous rest
      obtain ⟨last, -, hrest⟩ := hall previous hp
      exact ⟨last, hrest⟩

end Formula

/-! ## Formulas of tokens -/

/-- The kinds of tokens that are written as they are: values, variables and operators
    that stay the same, and parentheses. -/
def Kind.isPlain (style : Style) : Kind → Bool
  | value _ | delimiter .parenthesis _ => true
  | name text => formatVariable style text == text
  | operator symbol _ _ _ => symbol != "/"
  | _ => false

theorem Element.IsRead.of_mem_texts {v : Vocabulary} {e : Element} (h : e.IsRead v) {text : String}
    (hm : text ∈ e.kind.texts) :
    IsLexeme v text.toList ∧ ∃ previous, e.kind = Kind.ofToken v previous text := by
  obtain ⟨previous, hp⟩ := h.kind
  have hraw : text = e.raw := Kind.eq_of_mem_texts_ofToken (hp ▸ hm)
  rw [hraw]
  exact ⟨h.isLexeme, previous, hp⟩

/-- The kind of an atom does not depend on what stands before it. -/
theorem Element.IsRead.atom {v : Vocabulary} {e : Element} (h : e.IsRead v) {text : String}
    (hm : text ∈ e.kind.texts) (ho : e.kind.isOperator = false) :
    IsLexeme v text.toList ∧ ∀ previous, Kind.ofToken v previous text = e.kind := by
  obtain ⟨hl, previous, hp⟩ := h.of_mem_texts hm
  refine ⟨hl, fun previous' => ?_⟩
  rw [hp, Kind.isOperator_ofToken] at ho
  rw [hp]
  exact Kind.ofToken_congr ho previous' previous

theorem mem_plainSymbols {symbol : String} (h : ({} : Vocabulary).isBinary symbol = true)
    (hs : symbol ≠ "/") : symbol ∈ plainSymbols := by
  unfold Vocabulary.isBinary Vocabulary.single? at h
  split at h
  · rename_i c hc
    obtain rfl : symbol = String.ofList [c] := by rw [← hc, String.ofList_toList]
    have hm : c ∈ ['*', '^', '/', '+', '-'] := by simpa [or_assoc] using h
    simp only [List.mem_cons, List.not_mem_nil, or_false] at hm
    rcases hm with rfl | rfl | rfl | rfl | rfl
    · decide
    · decide
    · exact absurd rfl hs
    · decide
    · decide
  · cases h

/-- The symbol of an operator that has been read is a function or one of the other
    operators. -/
theorem Element.IsRead.operator {e : Element} (h : e.IsRead {}) {symbol : String} {role : Role}
    {first second : Option ElementId} (hk : e.kind = .operator symbol role first second)
    (hs : symbol ≠ "/") : e.kind = .operator symbol role none none ∧
      (role = .function → IsLexeme {} symbol.toList ∧ ({} : Vocabulary).isFunction symbol = true) ∧
      (role ≠ .function → symbol ∈ plainSymbols) := by
  have hm : symbol ∈ e.kind.texts := by simp [hk, Kind.texts]
  obtain ⟨hl, previous, hp⟩ := h.of_mem_texts hm
  have ho : ({} : Vocabulary).isOperator symbol = true := by
    rw [← Kind.isOperator_ofToken {} previous symbol, ← hp, hk]
    rfl
  rw [hk, Kind.ofToken_of_isOperator ho] at hp
  obtain ⟨-, hrole, rfl, rfl⟩ := Kind.operator.inj hp
  unfold Role.ofToken at hrole
  refine ⟨hk, fun hr => ⟨hl, ?_⟩, fun hr => mem_plainSymbols ?_ hs⟩
  · by_contra hf
    rw [if_neg hf, hr] at hrole
    cases hstart : startsExpression previous <;> simp [hstart] at hrole
  · have hf : ({} : Vocabulary).isFunction symbol = false := by
      rw [← Bool.not_eq_true]
      intro hf
      rw [if_pos hf] at hrole
      exact hr hrole
    rwa [Vocabulary.isOperator, hf, Bool.false_or] at ho

/-- **What derives from plain tokens is a writable formula.** -/
theorem Derives.exists_writable {style : Style} {s : Store} {symbol : Symbol}
    {ids : List ElementId} {t : Tree} (h : Derives s symbol ids t)
    (hids : ∀ id ∈ ids, (s.get id).IsRead {} ∧ (s.kind id).isPlain style = true) :
    ∃ f, t.Spells s f ∧ f.Writable style := by
  have operator : ∀ {id : ElementId} {role : Role}, (s.get id).IsRead {} ∧
      (s.kind id).isPlain style = true → (s.get id).pendingRole? = some role →
      ∃ symbol, s.kind id = .operator symbol role none none ∧
        (role = .function →
          IsLexeme {} symbol.toList ∧ ({} : Vocabulary).isFunction symbol = true) ∧
        (role ≠ .function → symbol ∈ plainSymbols) := by
    rintro id role ⟨hread, hplain⟩ hrole
    obtain ⟨symbol, first, second, hk, -⟩ := Element.pendingRole?_eq_some_iff.1 hrole
    rw [kind, hk] at hplain
    exact ⟨symbol, hread.operator hk (bne_iff_ne.1 hplain)⟩
  induction h with
  | @atom id h =>
    obtain ⟨hread, hplain⟩ := hids id List.mem_cons_self
    have hatom := @hread.atom
    cases hk : s.kind id with
    | value text =>
      rw [← kind, hk] at hatom
      exact ⟨.value text, .value hk, hatom List.mem_cons_self rfl⟩
    | name text =>
      rw [← kind, hk] at hatom
      obtain ⟨hl, htoken⟩ := hatom List.mem_cons_self rfl
      rw [hk] at hplain
      exact ⟨.name text, .name hk, hl, htoken, beq_iff_eq.1 hplain⟩
    | _ => simp_all [Kind.isAtom, Kind.isPlain]
  | @group opening closing inner t ho _ hc ih => exact ih fun x hx => hids x (by simp [hx])
  | operand _ ih => exact ih hids
  | @function id ids t hid _ ih =>
    obtain ⟨f, ht, hf⟩ := ih fun x hx => hids x (by simp [hx])
    obtain ⟨symbol, hk, hs, -⟩ := operator (hids id (by simp)) hid
    exact ⟨.function symbol f, .function hk ht, (hs rfl).1, (hs rfl).2, hf⟩
  | term _ ih => exact ih hids
  | @binary id left right l r _ hid _ ihl ihr =>
    obtain ⟨f, hl, hf⟩ := ihl fun x hx => hids x (by simp [hx])
    obtain ⟨g, hr, hg⟩ := ihr fun x hx => hids x (by simp [hx])
    obtain ⟨symbol, hk, -, hs⟩ := operator (hids id (by simp)) hid
    exact ⟨.binary symbol f g, .binary hk hl hr, hs (by decide), hf, hg⟩
  | @sign id ids t hid _ ih =>
    obtain ⟨f, ht, hf⟩ := ih fun x hx => hids x (by simp [hx])
    obtain ⟨symbol, hk, -, hs⟩ := operator (hids id (by simp)) hid
    exact ⟨.sign symbol f, .sign hk ht, hs (by decide), hf⟩

end FormulaSheet
