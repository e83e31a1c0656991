/-
  Recognizing tokens: which tokens of a text have no kind, and which operators are signs.

  * `Vocabulary.IsSymbolic v`: no operator of the vocabulary can be a part of a word.
    Then words hold no keywords (`IsSymbolic.isKeyword_eq_false`).
  * `IsManyPointed token`: digits and points, with two points or more.  These are the
    only tokens of a text without a kind, unless they name functions
    (`isError_ofToken_iff`).
  * `Kind.endsOperand`: the kinds after which an operator has something to its left.
    Among the kinds of tokens these are the ones that start no expression
    (`startsExpression_some`).
  * `placeTokens_tokenize`: what the elements of a text are, told by its tokens.
-/
import FormulaSheet.Proofs.Grouping
import FormulaSheet.Proofs.Shape

namespace FormulaSheet

open Store Token
open Text (isLetterOrNumber)

variable {v : Vocabulary} {token : String}

/-! ## Words and symbols -/

/-- No operator is a letter, a number, a point or an underscore. -/
def Vocabulary.IsSymbolic (v : Vocabulary) : Prop :=
  ∀ c ∈ v.binary ++ v.dual, isLetterOrNumber c = false ∧ c ≠ '.' ∧ c ≠ '_'

theorem Vocabulary.IsSymbolic.isWordChar_eq_false (hv : v.IsSymbolic) {c : Char}
    (hc : c ∈ v.binary ++ v.dual) : isWordChar c = false := by
  obtain ⟨hletter, hpoint, hunderscore⟩ := hv c hc
  simp [isWordChar, hletter, hpoint, hunderscore]

/-- No character of a word is a keyword. -/
theorem Vocabulary.IsSymbolic.isKeyword_eq_false (hv : v.IsSymbolic) {c : Char}
    (hc : isWordChar c = true) : v.isKeyword c = false := by
  have hstructural : c ∉ Vocabulary.structural := by
    intro hm
    have hall : Vocabulary.structural.all (fun c => !isWordChar c) = true := by decide
    have := List.all_eq_true.1 hall c hm
    rw [hc] at this
    cases this
  have hoperator : c ∉ v.binary ++ v.dual := by
    intro hm
    rw [hv.isWordChar_eq_false hm] at hc
    cases hc
  rw [List.mem_append, not_or] at hoperator
  simp [Vocabulary.isKeyword, hstructural, hoperator]

/-- Digits and points, with two points or more. -/
def IsManyPointed (token : String) : Prop :=
  (∀ c ∈ token.toList, c.isDigit = true ∨ c = '.') ∧ 2 ≤ token.toList.count '.'

theorem isValue_iff : Vocabulary.isValue token = true ↔
    token.toList ≠ [] ∧ ∀ c ∈ token.toList, c.isDigit = true ∨ c = '.' := by
  simp [Vocabulary.isValue]

theorem IsManyPointed.isValue (h : IsManyPointed token) : Vocabulary.isValue token = true := by
  refine isValue_iff.2 ⟨fun hnil => ?_, h.1⟩
  have hcount := h.2
  rw [hnil] at hcount
  cases hcount

theorem single?_eq_some_iff {c : Char} :
    Vocabulary.single? token = some c ↔ token.toList = [c] := by
  unfold Vocabulary.single?
  split
  · rename_i d hd
    rw [hd]
    simp
  · rename_i hd
    simp only [reduceCtorEq, false_iff]
    exact hd c

theorem isBinary_iff :
    v.isBinary token = true ↔ ∃ c, token.toList = [c] ∧ c ∈ v.binary ++ v.dual := by
  simp [Vocabulary.isBinary, Option.any_eq_true, single?_eq_some_iff]

/-- A single operator symbol has no two points. -/
theorem not_isManyPointed_of_isBinary (h : v.isBinary token = true) : ¬ IsManyPointed token := by
  obtain ⟨c, hc, -⟩ := isBinary_iff.1 h
  rintro ⟨-, hcount⟩
  have hle : token.toList.count '.' ≤ token.toList.length := List.count_le_length
  rw [hc] at hcount hle
  exact absurd (Nat.le_trans hcount hle) (by simp)

/-! ## Tokens without a kind -/

/-- The kinds of errors. -/
def Kind.isError : Kind → Bool
  | error _ _ => true
  | _ => false

theorem Kind.isError_ofStructural? {c : Char} {kind : Kind} (h : ofStructural? c = some kind) :
    kind.isError = false := by
  unfold ofStructural? at h
  split at h <;> cases h <;> rfl

/-- Every structural character has a kind. -/
theorem Kind.isSome_ofStructural? {c : Char} (h : c ∈ Vocabulary.structural) :
    (ofStructural? c).isSome = true := by
  have hall : Vocabulary.structural.all (fun c => (ofStructural? c).isSome) = true := by decide
  exact List.all_eq_true.1 hall c h

/-- A token of digits and points is a number exactly if it has at most one point. -/
theorem isNumber_iff (h : IsLexeme v token.toList) (ho : v.isOperator token = false)
    (hvalue : Vocabulary.isValue token = true) :
    isNumber token = true ↔ token.toList.count '.' ≤ 1 := by
  have hdigits := (isValue_iff.1 hvalue).2
  have hdigit : token.toList.any Char.isDigit = true := by
    rw [List.any_eq_true]
    generalize htoken : token.toList = cs at h hdigits
    cases h with
    | @word c cs hb hc hcs =>
      refine ⟨c, List.mem_cons_self, (hdigits c List.mem_cons_self).resolve_right ?_⟩
      rintro rfl
      exact absurd hc (by decide)
    | @symbol c hb hl hp hk =>
      -- A point that is a token on its own is an operator.
      refine ⟨c, List.mem_cons_self, (hdigits c List.mem_cons_self).resolve_right ?_⟩
      rintro rfl
      have hoperator : '.' ∈ v.binary ++ v.dual := by
        simpa [Vocabulary.isKeyword, Vocabulary.structural] using hk
      rw [Vocabulary.isOperator, isBinary_iff.2 ⟨'.', htoken, hoperator⟩, Bool.or_true] at ho
      cases ho
  simp [isNumber, hdigit]

/-- A token that is neither an operator nor made of digits and points is a name or a
    structural character. -/
theorem isError_ofToken_eq_false (hv : v.IsSymbolic) (h : IsLexeme v token.toList)
    (ho : v.isOperator token = false) (hvalue : Vocabulary.isValue token = false)
    (previous : Option Kind) : (Kind.ofToken v previous token).isError = false := by
  simp only [Kind.ofToken, Kind.recognize, ho, hvalue, Bool.false_eq_true, if_false]
  generalize htoken : token.toList = cs at h
  cases h with
  | @word c cs hb hc hcs =>
    have hword : ∀ x ∈ c :: cs, v.isKeyword x = false := by
      refine List.forall_mem_cons.2 ⟨hv.isKeyword_eq_false ?_, fun x hx =>
        hv.isKeyword_eq_false (hcs x hx)⟩
      simp [isWordChar, hc]
    have hvariable : v.isVariable token = true := by
      rw [Vocabulary.isVariable, hvalue, htoken, List.any_eq_false.2 (by simpa using hword)]
      rfl
    rw [if_pos hvariable]
    rfl
  | @symbol c hb hl hp hk =>
    have hvariable : v.isVariable token = false := by
      simp [Vocabulary.isVariable, htoken, hk]
    have hoperator : c ∉ v.binary ++ v.dual := by
      intro hm
      rw [Vocabulary.isOperator, isBinary_iff.2 ⟨c, htoken, hm⟩, Bool.or_true] at ho
      cases ho
    have hstructural : c ∈ Vocabulary.structural := by
      rw [List.mem_append, not_or] at hoperator
      simpa [Vocabulary.isKeyword, hoperator] using hk
    obtain ⟨kind, hkind⟩ := Option.isSome_iff_exists.1 (Kind.isSome_ofStructural? hstructural)
    rw [hvariable, single?_eq_some_iff.2 htoken]
    simp only [Bool.false_eq_true, if_false, Option.bind_some, hkind]
    exact Kind.isError_ofStructural? hkind

/-- **The tokens without a kind** are those with two points or more and digits, unless they
    name functions. -/
theorem isError_ofToken_iff (hv : v.IsSymbolic) (h : IsLexeme v token.toList)
    (previous : Option Kind) : (Kind.ofToken v previous token).isError = true ↔
      v.isFunction token = false ∧ IsManyPointed token := by
  cases ho : v.isOperator token with
  | true =>
    rw [Kind.ofToken_of_isOperator ho]
    refine ⟨fun h => (by cases h), fun ⟨hfunction, hmany⟩ => ?_⟩
    rw [Vocabulary.isOperator, hfunction, Bool.false_or] at ho
    exact absurd hmany (not_isManyPointed_of_isBinary ho)
  | false =>
    have hfunction : v.isFunction token = false := by
      rw [Vocabulary.isOperator, Bool.or_eq_false_iff] at ho
      exact ho.1
    cases hvalue : Vocabulary.isValue token with
    | true =>
      have hdigits := (isValue_iff.1 hvalue).2
      have hnumber := isNumber_iff h ho hvalue
      simp only [Kind.ofToken, Kind.recognize, ho, hvalue, Bool.false_eq_true, if_false, if_true]
      by_cases hn : isNumber token = true
      · rw [if_pos hn]
        refine ⟨fun h => (by cases h), fun ⟨_, hmany⟩ => ?_⟩
        exact absurd (hnumber.1 hn) (Nat.not_le.2 hmany.2)
      · rw [if_neg hn]
        exact ⟨fun _ => ⟨hfunction, hdigits, Nat.not_le.1 (mt hnumber.2 hn)⟩, fun _ => rfl⟩
    | false =>
      rw [isError_ofToken_eq_false hv h ho hvalue previous]
      refine ⟨fun h => (by cases h), fun ⟨_, hmany⟩ => ?_⟩
      rw [hmany.isValue] at hvalue
      cases hvalue

/-! ## Signs -/

/-- The kinds after which an operator stands between two operands. -/
def Kind.endsOperand : Kind → Bool
  | value _ | name _ | error _ _ | delimiter _ .closing | functionMarker => true
  | _ => false

theorem startsExpression_some {kind : Kind} (h : kind.isToken = true) :
    startsExpression (some kind) = !kind.endsOperand := by
  cases kind with
  | delimiter group side => cases side <;> rfl
  | blank | passThrough | array | access | function | call | declaration => cases h
  | _ => rfl

theorem Kind.ofToken_of_not_isFunction (ho : v.isOperator token = true)
    (hf : v.isFunction token = false) (previous : Option Kind) :
    ofToken v previous token =
      .operator token (if startsExpression previous then .sign else .binary) none none := by
  rw [ofToken_of_isOperator ho, Role.ofToken, hf]
  rfl

/-! ## The elements of a line -/

/-- The kind of the element before position `i`. -/
def precedingKind (previous : Option Kind) (elements : List Element) (i : Nat) : Option Kind :=
  if i = 0 then previous else elements[i - 1]?.map Element.kind

/-- Each token becomes an element of the kind that the element before it gives it. -/
theorem getElem?_classify (v : Vocabulary) (line : Nat) (previous : Option Kind)
    (tokens : List String) (i : Nat) :
    (classify v line previous tokens)[i]? = tokens[i]?.map fun token =>
      { kind := Kind.ofToken v (precedingKind previous (classify v line previous tokens) i) token
        raw := token, line } := by
  induction tokens generalizing previous i with
  | nil => rfl
  | cons token tokens ih =>
    cases i with
    | zero => rfl
    | succ i =>
      rw [classify, List.getElem?_cons_succ, List.getElem?_cons_succ, ih]
      cases i <;> rfl

theorem map_raw_classify (line : Nat) (previous : Option Kind) (tokens : List String) :
    (classify v line previous tokens).map Element.raw = tokens := by
  induction tokens generalizing previous with
  | nil => rfl
  | cons token tokens ih => exact congrArg (token :: ·) (ih _)

/-- The element before position `i` is an operand, or the end of one. -/
def AfterOperand (s : Store) (ids : List ElementId) (i : Nat) : Prop :=
  i ≠ 0 ∧ ∃ previous ∈ ids[i - 1]?, (s.kind previous).endsOperand = true

instance (s : Store) (ids : List ElementId) (i : Nat) : Decidable (AfterOperand s ids i) :=
  inferInstanceAs (Decidable (_ ∧ _))

/-- An operator is a sign where no operand stands before it. -/
theorem startsExpression_precedingKind {s : Store} {ids : List ElementId} {line : Nat}
    {tokens : List String} (h : ids.map s.get = classify v line none tokens) {i : Nat}
    (hi : i < ids.length) :
    startsExpression (precedingKind none (classify v line none tokens) i) = true ↔
      ¬ AfterOperand s ids i := by
  rw [precedingKind, AfterOperand]
  cases i with
  | zero => simp [startsExpression]
  | succ i =>
    have hlt : i < ids.length := Nat.lt_of_succ_lt hi
    have hget : ids[i]? = some ids[i] := List.getElem?_eq_getElem hlt
    have htoken : (s.get ids[i]).IsToken :=
      isToken_of_mem_classify (h ▸ List.mem_map_of_mem (List.getElem_mem hlt))
    rw [if_neg (Nat.succ_ne_zero i), Nat.add_sub_cancel, ← h, List.getElem?_map, hget,
      Option.map_some, Option.map_some, startsExpression_some htoken.kind]
    simp [Store.kind]

/-- **Every token is understood.**  The tokens of a text become elements, one for each in
    order.  One of them is an error exactly if its token is made of digits and points with
    two points or more and names no function.  An operator that names no function takes
    both neighbours exactly if an operand or the end of one stands before it, and is a
    sign otherwise. -/
theorem placeTokens_tokenize {v : Vocabulary} (hv : v.IsSymbolic) (text : String) (line : Nat)
    (w : Workspace) :
    (placeTokens v line (tokenize v text)).Ensures w fun ids w' =>
      ids = List.range' w.store.size (tokenize v text).length ∧
      ids.map (fun id => (w'.store.get id).raw) = tokenize v text ∧
      ∀ i id token, ids[i]? = some id → (tokenize v text)[i]? = some token →
        ((w'.store.kind id).isError = true ↔
          v.isFunction token = false ∧ IsManyPointed token) ∧
        (v.isOperator token = true → v.isFunction token = false →
          (w'.store.kind id = .operator token .binary none none ↔
            AfterOperand w'.store ids i) ∧
          (w'.store.kind id = .operator token .sign none none ↔
            ¬ AfterOperand w'.store ids i)) := by
  have htokens : ∀ e ∈ classify v line none (tokenize v text), e.IsToken ∧ e.kind.HasPlainName :=
    fun e he => ⟨isToken_of_mem_classify he, hasPlainName_of_mem_classify he⟩
  refine ((place_ids (classify v line none (tokenize v text)) w).and (place_get htokens w)).imp ?_
  rintro ids w' ⟨⟨hids, -⟩, hget⟩
  refine ⟨by rw [hids, length_classify], ?_, fun i id token hid htoken => ?_⟩
  · rw [← map_raw_classify line none (tokenize v text), ← hget, List.map_map]
    rfl
  · have helement : w'.store.get id = ⟨Kind.ofToken v
        (precedingKind none (classify v line none (tokenize v text)) i) token, token, line, false,
        none⟩ := by
      have h := getElem?_classify v line none (tokenize v text) i
      rw [← hget, List.getElem?_map, hid, hget, htoken] at h
      exact Option.some.inj h
    have hlexeme := isLexeme_of_mem_tokenize (List.mem_of_getElem? htoken)
    have hsign := startsExpression_precedingKind hget (List.getElem?_eq_some_iff.1 hid).1
    rw [Store.kind, helement]
    refine ⟨isError_ofToken_iff hv hlexeme _, fun ho hf => ?_⟩
    dsimp only
    rw [Kind.ofToken_of_not_isFunction ho hf]
    split
    · rename_i hstarts
      simp [hsign.1 hstarts]
    · rename_i hstarts
      simp [Decidable.not_not.1 (mt hsign.2 hstarts)]

/-- Two tokens have many points, but one of them names a function; the operator after the
    other has an operand before it, and so has the one after `@`. -/
theorem placeTokens_tokenize_points :
    let v : Vocabulary := { functions := ["1.2.3"], binary := ['*'], dual := ['+', '~'] }
    let text := "β = +1.2.3 ~ 4..5 + ~x_1) * 2. @ + y % z"
    let s := (StateT.run (placeTokens v 1 (tokenize v text)) {}).2.store
    v.IsSymbolic ∧
      tokenize v text =
        ["β", "=", "+", "1.2.3", "~", "4..5", "+", "~", "x_1", ")", "*", "2.", "@", "+", "y"] ∧
      (s.kind 3).isError = false ∧ (s.kind 5).isError = true ∧
      s.kind 4 = .operator "~" .sign none none ∧ s.kind 6 = .operator "+" .binary none none ∧
      s.kind 13 = .operator "+" .binary none none := by
  intro v text s
  have hv : v.IsSymbolic := by
    simp only [Vocabulary.IsSymbolic, v, List.cons_append, List.nil_append, List.forall_mem_cons]
    exact ⟨by decide, by decide, by decide, by simp⟩
  have htokens : tokenize v text =
      ["β", "=", "+", "1.2.3", "~", "4..5", "+", "~", "x_1", ")", "*", "2.", "@", "+", "y"] := by
    decide +kernel
  obtain ⟨hids, -, hkinds⟩ := placeTokens_tokenize hv text 1 {}
  have hid : ∀ i < 15, (StateT.run (placeTokens v 1 (tokenize v text)) {}).1[i]? = some i := by
    intro i hi
    rw [hids, List.getElem?_range' (by rwa [htokens]), Nat.one_mul]
    exact congrArg some (Nat.zero_add i)
  have hmany : IsManyPointed "4..5" :=
    ⟨(isValue_iff.1 (by decide : Vocabulary.isValue "4..5" = true)).2, by decide⟩
  have h3 := (hkinds 3 3 "1.2.3" (hid 3 (by decide)) (by rw [htokens]; rfl)).1
  have h5 := (hkinds 5 5 "4..5" (hid 5 (by decide)) (by rw [htokens]; rfl)).1
  have h4 := (hkinds 4 4 "~" (hid 4 (by decide)) (by rw [htokens]; rfl)).2 (by decide) (by decide)
  have h6 := (hkinds 6 6 "+" (hid 6 (by decide)) (by rw [htokens]; rfl)).2 (by decide) (by decide)
  have h13 := (hkinds 13 13 "+" (hid 13 (by decide)) (by rw [htokens]; rfl)).2 (by decide)
    (by decide)
  refine ⟨hv, htokens, ?_, h5.2 ⟨by decide, hmany⟩, h4.2.2 ?_, h6.1.2 ?_, h13.1.2 ?_⟩
  · exact Bool.eq_false_iff.2 fun herror => absurd (h3.1 herror).1 (by decide)
  · decide +kernel
  · decide +kernel
  · decide +kernel

end FormulaSheet
