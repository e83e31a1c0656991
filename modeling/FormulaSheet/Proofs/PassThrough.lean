/-
  Pass-through texts: which of them read back as the tokens that they are made of.

  A call of nothing becomes a text: its name and its tokens, without blanks.

  * `tokenize_callText_eq_iff`: the text of a call reads back as its tokens exactly if
    no two of them run together.
  * `tokenize_passThrough_iff`: so it is for every pass-through text that a reduction
    leaves, at whatever depth.
  * `tokenize_passThrough_ne`: `exp(a b)` does not read back.
-/
import FormulaSheet.Proofs.Lexing
import FormulaSheet.Proofs.Renaming
import FormulaSheet.Proofs.Trace

namespace FormulaSheet

open Token Store

variable {v : Vocabulary}

/-! ## Elements that are tokens of a text -/

/-- An element that is classified from a token of some text. -/
structure Element.IsRead (v : Vocabulary) (e : Element) : Prop where
  token : ∃ text, e.raw ∈ tokenize v text
  kind : ∃ previous, e.kind = Kind.ofToken v previous e.raw

theorem Element.IsRead.isLexeme {e : Element} (h : e.IsRead v) : IsLexeme v e.raw.toList := by
  obtain ⟨text, hm⟩ := h.token
  exact isLexeme_of_mem_tokenize hm

theorem Element.IsRead.raw_eq {e : Element} (h : e.IsRead v) {name : String}
    (hk : e.kind = .name name) : e.raw = name := by
  obtain ⟨previous, hp⟩ := h.kind
  have hm : name ∈ (Kind.ofToken v previous e.raw).texts := by
    rw [← hp, hk]
    exact List.mem_singleton_self name
  exact (Kind.eq_of_mem_texts_ofToken hm).symm

theorem Element.IsRead.lt_size {s : Store} {id : ElementId} (h : (s.get id).IsRead v) :
    id < s.size := by
  obtain ⟨previous, hp⟩ := h.kind
  refine lt_size_of_kind fun hk => ?_
  have := Kind.isToken_ofToken v previous (s.get id).raw
  rw [← hp, ← Store.kind, hk] at this
  cases this

theorem isRead_of_mem_classify {text : String} {line : Nat} {previous : Option Kind}
    {tokens : List String} (ht : tokens ⊆ tokenize v text) {e : Element}
    (h : e ∈ classify v line previous tokens) : e.IsRead v := by
  induction tokens generalizing previous with
  | nil => cases h
  | cons token tokens ih =>
    obtain ⟨htoken, htokens⟩ := List.cons_subset.1 ht
    rcases List.mem_cons.1 h with rfl | h
    · exact ⟨⟨text, htoken⟩, previous, rfl⟩
    · exact ih htokens h

theorem isRead_get {text : String} {line : Nat} {previous : Option Kind} {id : ElementId}
    (h : id < (classify v line previous (tokenize v text)).length) :
    (Store.get ⟨(classify v line previous (tokenize v text)).toArray⟩ id).IsRead v := by
  have hm : Store.get ⟨(classify v line previous (tokenize v text)).toArray⟩ id ∈
      classify v line previous (tokenize v text) := by
    rw [Store.get, Array.getD_eq_getD_getElem?, List.getElem?_toArray, List.getElem?_eq_getElem h]
    exact List.getElem_mem h
  exact isRead_of_mem_classify (List.Subset.refl _) hm

/-! ## The texts of calls -/

theorem tokenize_eq_iff {text : String} {tokens : List String} :
    tokenize v text = tokens ↔ scan v text.toList = tokens.map String.toList := by
  rw [tokenize]
  constructor
  · rintro rfl
    simp
  · intro h
    rw [h]
    simp

theorem isLexeme_parenthesis {c : Char} (h : c = '(' ∨ c = ')') : IsLexeme v [c] := by
  have hk : v.isKeyword c = true := by
    rcases h with rfl | rfl <;> simp [Vocabulary.isKeyword, Vocabulary.structural]
  rcases h with rfl | rfl
  · exact .symbol (by decide) (by decide) (by decide) hk
  · exact .symbol (by decide) (by decide) (by decide) hk

/-- A parenthesis keeps the tokens around it apart. -/
theorem isChain_parenthesized_iff (name : List Char) (tokens : List (List Char)) :
    (name :: ['('] :: (tokens ++ [[')']])).IsChain (fun t next => ¬ RunTogether t next) ↔
      tokens.IsChain fun t next => ¬ RunTogether t next := by
  have hopen : ∀ t, ¬ RunTogether t ['('] ∧ ¬ RunTogether ['('] t := by
    intro t
    have : isWordChar '(' = false ∧ Text.isLetterOrNumber '(' = false := by decide
    simp [RunTogether, this]
  have hclose : ∀ t, ¬ RunTogether t [')'] := by
    intro t
    have : isWordChar ')' = false := by decide
    simp [RunTogether, this]
  simp [List.isChain_cons, List.isChain_append, hopen, hclose]

/-- Source texts without separators stand right after each other. -/
theorem toList_rawText_empty (s : Store) (ids : List ElementId) :
    (s.rawText "" ids).toList = (ids.map fun id => (s.get id).raw.toList).flatten := by
  have hjoin : ∀ l : List (List Char), [].intercalate l = l.flatten := by
    intro l
    induction l with
    | nil => rfl
    | cons t l ih =>
      cases l with
      | nil => simp
      | cons next l =>
        rw [List.intercalate_cons_cons, ih, List.append_nil]
        rfl
  rw [rawText, String.toList_intercalate, String.toList_empty, hjoin, List.map_map]
  rfl

/-- **The text of a call** reads back as its tokens exactly if no two of these run
    together. -/
theorem tokenize_callText_eq_iff {s : Store} {name : String} {inner : List ElementId}
    (hname : IsLexeme v name.toList) (hinner : ∀ id ∈ inner, (s.get id).IsRead v) :
    tokenize v (Term.callText s name inner) =
        name :: "(" :: (inner.map (fun id => (s.get id).raw) ++ [")"]) ↔
      (inner.map fun id => (s.get id).raw.toList).IsChain fun t next => ¬ RunTogether t next := by
  have hlexemes : ∀ t ∈ name.toList :: ['('] :: ((inner.map fun id => (s.get id).raw.toList) ++
      [[')']]), IsLexeme v t := by
    simp only [List.mem_cons, List.mem_append, List.mem_map]
    rintro t (rfl | rfl | ⟨id, hid, rfl⟩ | rfl | h)
    · exact hname
    · exact isLexeme_parenthesis (Or.inl rfl)
    · exact (hinner id hid).isLexeme
    · exact isLexeme_parenthesis (Or.inr rfl)
    · cases h
  have htext : (Term.callText s name inner).toList =
      (name.toList :: ['('] ::
        ((inner.map fun id => (s.get id).raw.toList) ++ [[')']])).flatten := by
    simp [Term.callText, toList_rawText_empty]
  rw [← isChain_parenthesized_iff name.toList, ← scan_flatten_eq_iff hlexemes, tokenize_eq_iff,
    htext]
  simp [Function.comp_def]

/-! ## Pass-through texts of a reduction -/

/-- **Which pass-through texts keep their tokens.**  Whether a reduction succeeds or fails,
    every pass-through text that it adds is that of a call of nothing in its term.  The text
    reads back as the tokens of the call whose text it is exactly if no two tokens between
    the parentheses run together. -/
theorem tokenize_passThrough_iff (c : Term.Context) (w w' : Workspace) (term : List ElementId)
    (result : Except Fault ElementId) (id : ElementId)
    (hterm : ∀ id ∈ term, (w.store.get id).IsRead c.vocabulary)
    (hrun : StateT.run (Term.reduce c term).run w = (result, w')) (hid : w.store.size ≤ id)
    (hk : w'.store.kind id = .passThrough) :
    (∃ name inner, Term.CallsNothing c w.store term name inner ∧
      (w'.store.get id).raw = Term.callText w.store name inner) ∧
    ∀ name inner, Term.CallsNothing c w.store term name inner →
      (w'.store.get id).raw = Term.callText w.store name inner →
      (tokenize c.vocabulary (w'.store.get id).raw =
          name :: "(" :: (inner.map (fun id => (w.store.get id).raw) ++ [")"]) ↔
        (inner.map fun id => (w.store.get id).raw.toList).IsChain
          fun t next => ¬ RunTogether t next) := by
  have hlt : ∀ id ∈ term, id < w.store.size := fun id hid => (hterm id hid).lt_size
  have htraced := Term.reduce_traced (c := c) hlt (List.infix_refl term) (.refl c w.store term)
  simp only [Reducing.Ensures, hrun] at htraced
  have hnew := htraced.1.new id hid (lt_size_of_kind (by simp [hk]))
  rw [hk] at hnew
  have htext := hnew.resolve_left (by simp [Kind.isComposite])
  refine ⟨?_, ?_⟩
  · generalize w'.store.get id = e at htext
    obtain ⟨hcall⟩ := htext
    exact ⟨_, _, hcall, rfl⟩
  · rintro name inner ⟨hw, hname, hcallee, hg, hin⟩ hraw
    have hmem := hin.subset (List.mem_append_left _ (hw.sublist.subset List.mem_cons_self))
    rw [hraw]
    refine tokenize_callText_eq_iff ?_ fun x hx => hterm x (hin.subset (by simp [hx]))
    rw [← (hterm _ hmem).raw_eq hname]
    exact (hterm _ hmem).isLexeme

/-- In `2 + (exp)(x * g(a 1) - [b])` the call of `g` is part of the text of the call of `exp`,
    which is the new element 18. -/
theorem tokenize_passThrough_iff_nested :
    let tokens := tokenize {} "2 + (exp)(x * g(a 1) - [b])"
    let w : Workspace := { store := { elements := (classify {} 1 none tokens).toArray } }
    let term := List.range w.store.size
    (∀ id ∈ term, (w.store.get id).IsRead {}) ∧
      ∃ w', StateT.run (Term.reduce {} term).run w = (.ok 1, w') ∧ w.store.size ≤ 18 ∧
        w'.store.kind 18 = .passThrough ∧ (w'.store.get 18).raw = "exp(x*g(a1)-[b])" ∧
        (∃ name inner, Term.CallsNothing {} w.store term name inner ∧
          (w'.store.get 18).raw = Term.callText w.store name inner) ∧
        ∀ name inner, Term.CallsNothing {} w.store term name inner →
          (w'.store.get 18).raw = Term.callText w.store name inner →
          (tokenize {} (w'.store.get 18).raw =
              name :: "(" :: (inner.map (fun id => (w.store.get id).raw) ++ [")"]) ↔
            (inner.map fun id => (w.store.get id).raw.toList).IsChain
              fun t next => ¬ RunTogether t next) := by
  intro tokens w term
  have hterm : ∀ id ∈ term, (w.store.get id).IsRead {} := fun id hid =>
    isRead_get (List.mem_range.1 hid)
  have htokens : tokenize {} "2 + (exp)(x * g(a 1) - [b])" = ["2", "+", "(", "exp", ")", "(", "x",
      "*", "g", "(", "a", "1", ")", "-", "[", "b", "]", ")"] := by decide +kernel
  have hrun : (StateT.run (Term.reduce {} term).run w).1 = .ok 1 ∧ w.store.size ≤ 18 ∧
      (StateT.run (Term.reduce {} term).run w).2.store.kind 18 = .passThrough ∧
      ((StateT.run (Term.reduce {} term).run w).2.store.get 18).raw = "exp(x*g(a1)-[b])" := by
    simp only [term, w, tokens, htokens]
    decide +kernel
  obtain ⟨hroot, hsize, hkind, hraw⟩ := hrun
  refine ⟨hterm, _, Prod.ext hroot rfl, hsize, hkind, hraw, ?_⟩
  exact tokenize_passThrough_iff {} w _ term (.ok 1) 18 hterm (Prod.ext hroot rfl) hsize hkind

/-- **Not every pass-through text keeps its tokens**: that of `exp(a b)` is `exp(ab)`. -/
theorem tokenize_passThrough_ne :
    let tokens := tokenize {} "exp(a b)"
    let w : Workspace := { store := { elements := (classify {} 1 none tokens).toArray } }
    let term := List.range w.store.size
    tokens = ["exp", "(", "a", "b", ")"] ∧
      ∃ w', StateT.run (Term.reduce {} term).run w = (.ok 5, w') ∧ w.store.size ≤ 5 ∧
        w'.store.kind 5 = .passThrough ∧ (w'.store.get 5).raw = "exp(ab)" ∧
        tokenize {} (w'.store.get 5).raw ≠ tokens := by
  have htokens : tokenize {} "exp(a b)" = ["exp", "(", "a", "b", ")"] := by decide +kernel
  simp only [htokens]
  have hraw : (Store.get (StateT.run (Term.reduce {} (List.range 5)).run ⟨⟨(classify {} 1 none
      ["exp", "(", "a", "b", ")"]).toArray⟩, #[]⟩).2.store 5).raw = "exp(ab)" := by decide +kernel
  have hne : tokenize {} "exp(ab)" ≠ ["exp", "(", "a", "b", ")"] := by
    have : tokenize {} "exp(ab)" = ["exp", "(", "ab", ")"] := by decide +kernel
    rw [this]
    decide
  refine ⟨trivial, _, Prod.ext ?_ rfl, ?_, ?_, ?_, ?_⟩
  · decide +kernel
  · decide +kernel
  · decide +kernel
  · exact hraw
  · exact fun h => hne (hraw ▸ h)

end FormulaSheet
