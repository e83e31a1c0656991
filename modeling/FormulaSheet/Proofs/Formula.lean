/-
  Formulas: terms without calls and arrays as trees of symbols.

  * `Formula.IsAt s f id`: in the store `s` the formula `f` hangs at `id`.
  * `Formula.elements`: the elements of the tokens of a formula whose binary operators
    are in parentheses where they are operands, as a rendering has them.
  * `Formula.reread`: what is read of these tokens.  A sign takes all that follows it,
    also an operator that it was an operand of (`rereads`).
  * `reread_eq_self_iff`: this is the formula itself exactly if no binary operator has a
    sign as its first operand.
-/
import FormulaSheet.Proofs.Derivation

namespace FormulaSheet

open Store

/-- A term of values, names and operators. -/
inductive Formula where
  | value (text : String)
  | name (text : String)
  | sign (symbol : String) (operand : Formula)
  | function (symbol : String) (operand : Formula)
  | binary (symbol : String) (left right : Formula)
  deriving DecidableEq, Repr

namespace Formula

def isSign : Formula → Bool
  | sign _ _ => true
  | _ => false

/-- No binary operator has a sign as its first operand. -/
def leftUnsigned : Formula → Bool
  | value _ | name _ => true
  | sign _ operand | function _ operand => operand.leftUnsigned
  | binary _ left right => !left.isSign && left.leftUnsigned && right.leftUnsigned

/-! ## Reading back -/

/-- What is read where a formula has been written as an operand; `rest` is what the
    text after it makes of an operand. -/
def reread (rest : Formula → Formula) : Formula → Formula
  | value text => rest (value text)
  | name text => rest (name text)
  | sign symbol operand => sign symbol (operand.reread rest)
  | function symbol operand => rest (function symbol (operand.reread id))
  | binary symbol left right =>
    rest (left.reread fun operand => binary symbol operand (right.reread id))

/-- All but signs are operands of what follows. -/
theorem reread_of_not_isSign {f : Formula} (h : f.isSign = false) (rest : Formula → Formula) :
    f.reread rest = rest (f.reread id) := by
  cases f with
  | sign => cases h
  | _ => rfl

/-- **Which formulas are read back**: those in which no binary operator has a sign as its
    first operand. -/
theorem reread_eq_self_iff (f : Formula) : f.reread id = f ↔ f.leftUnsigned = true := by
  induction f with
  | value text => simp [reread, leftUnsigned]
  | name name => simp [reread, leftUnsigned]
  | sign symbol operand ih => simp [reread, leftUnsigned, ih]
  | function symbol operand ih => simp [reread, leftUnsigned, ih]
  | binary symbol left right ihl ihr =>
    cases hs : left.isSign with
    | true =>
      -- The sign comes to stand above the operator.
      cases left with
      | sign => simp [reread, leftUnsigned, isSign]
      | _ => cases hs
    | false =>
      rw [reread, reread_of_not_isSign hs]
      simp [leftUnsigned, hs, ihl, ihr]

/-! ## Formulas in a store -/

/-- The formula hangs at an element. -/
def IsAt (s : Store) : Formula → ElementId → Prop
  | value text, id => s.kind id = .value text
  | name text, id => s.kind id = .name text
  | sign symbol operand, id =>
    ∃ x, s.kind id = .operator symbol .sign (some x) none ∧ operand.IsAt s x
  | function symbol operand, id =>
    ∃ x, s.kind id = .operator symbol .function (some x) none ∧ operand.IsAt s x
  | binary symbol left right, id =>
    ∃ x y, s.kind id = .operator symbol .binary (some x) (some y) ∧ left.IsAt s x ∧ right.IsAt s y

variable {s s' : Store} {f g : Formula} {id : ElementId}

theorem IsAt.unique (hf : f.IsAt s id) (hg : g.IsAt s id) : f = g := by
  induction f generalizing g id with
  | value text =>
    rw [IsAt] at hf
    cases g <;> simp_all [IsAt]
  | name name =>
    rw [IsAt] at hf
    cases g <;> simp_all [IsAt]
  | sign symbol operand ih =>
    obtain ⟨x, hk, hx⟩ := hf
    cases g with
    | sign =>
      obtain ⟨x', hk', hx'⟩ := hg
      cases hk.symm.trans hk'
      rw [ih hx hx']
    | _ => simp_all [IsAt]
  | function symbol operand ih =>
    obtain ⟨x, hk, hx⟩ := hf
    cases g with
    | function =>
      obtain ⟨x', hk', hx'⟩ := hg
      cases hk.symm.trans hk'
      rw [ih hx hx']
    | _ => simp_all [IsAt]
  | binary symbol left right ihl ihr =>
    obtain ⟨x, y, hk, hx, hy⟩ := hf
    cases g with
    | binary =>
      obtain ⟨x', y', hk', hx', hy'⟩ := hg
      cases hk.symm.trans hk'
      rw [ihl hx hx', ihr hy hy']
    | _ => simp_all [IsAt]

theorem IsAt.kind_ne_blank (h : f.IsAt s id) : s.kind id ≠ .blank := by
  cases f with
  | value text => simp [show s.kind id = .value text from h]
  | name name => simp [show s.kind id = .name name from h]
  | sign | function => obtain ⟨x, hk, -⟩ := h; simp [hk]
  | binary => obtain ⟨x, y, hk, -⟩ := h; simp [hk]

theorem IsAt.congr (h : f.IsAt s id) (hs : ∀ x, s.kind x ≠ .blank → s'.kind x = s.kind x) :
    f.IsAt s' id := by
  have hid := hs id h.kind_ne_blank
  induction f generalizing id with
  | value text => exact hid.trans h
  | name name => exact hid.trans h
  | sign symbol operand ih =>
    obtain ⟨x, hk, hx⟩ := h
    exact ⟨x, hid.trans hk, ih hx (hs x hx.kind_ne_blank)⟩
  | function symbol operand ih =>
    obtain ⟨x, hk, hx⟩ := h
    exact ⟨x, hid.trans hk, ih hx (hs x hx.kind_ne_blank)⟩
  | binary symbol left right ihl ihr =>
    obtain ⟨x, y, hk, hx, hy⟩ := h
    exact ⟨x, y, hid.trans hk, ihl hx (hs x hx.kind_ne_blank), ihr hy (hs y hy.kind_ne_blank)⟩

end Formula

/-! ## Formulas of derivations -/

/-- The tree is that of a formula: its elements are the tokens of the symbols. -/
inductive Tree.Spells (s : Store) : Tree → Formula → Prop
  | value {id : ElementId} {text : String} (h : s.kind id = .value text) :
      Spells s (.leaf id) (.value text)
  | name {id : ElementId} {name : String} (h : s.kind id = .name name) :
      Spells s (.leaf id) (.name name)
  | sign {id : ElementId} {symbol : String} {t : Tree} {f : Formula}
      (h : s.kind id = .operator symbol .sign none none) (ht : Spells s t f) :
      Spells s (.applied id t) (.sign symbol f)
  | function {id : ElementId} {symbol : String} {t : Tree} {f : Formula}
      (h : s.kind id = .operator symbol .function none none) (ht : Spells s t f) :
      Spells s (.applied id t) (.function symbol f)
  | binary {id : ElementId} {symbol : String} {l r : Tree} {f g : Formula}
      (h : s.kind id = .operator symbol .binary none none) (hl : Spells s l f)
      (hr : Spells s r g) : Spells s (.joined id l r) (.binary symbol f g)

/-- Linked elements of a formula are the formula. -/
theorem Tree.Spells.isAt {s s' : Store} {t : Tree} {f : Formula} (h : t.Spells s f)
    (hs : t.Holds s s') : f.IsAt s' t.root := by
  have linked : ∀ {id : ElementId} {symbol : String} {role : Role}
      {first second : Option ElementId}, s.kind id = .operator symbol role none none →
      s'.get id = (s.get id).withOperands first second →
      s'.kind id = .operator symbol role first second := by
    intro id symbol role first second hk hget
    rw [kind] at hk
    rw [kind, hget, Element.withOperands, hk]
  induction h with
  | value h => exact (congrArg Element.kind hs).trans h
  | name h => exact (congrArg Element.kind hs).trans h
  | sign h _ ih => exact ⟨_, linked h hs.1.2, ih hs.2⟩
  | function h _ ih => exact ⟨_, linked h hs.1.2, ih hs.2⟩
  | binary h _ _ ihl ihr => exact ⟨_, _, linked h hs.1.2, ihl hs.2.1, ihr hs.2.2⟩

/-- The elements derive the formula from the symbol. -/
def DerivesFormula (s : Store) (symbol : Symbol) (ids : List ElementId) (f : Formula) : Prop :=
  ∃ t, Derives s symbol ids t ∧ t.Spells s f

/-! ## The tokens of a formula -/

namespace Formula

/-- Elements in parentheses. -/
def enclose (line : Nat) (elements : List Element) : List Element :=
  { kind := .delimiter .parenthesis .opening, raw := "(", line } ::
    (elements ++ [{ kind := .delimiter .parenthesis .closing, raw := ")", line }])

/-- The elements of the tokens of a formula; a binary operator in parentheses if
    `nested`. -/
def elements (line : Nat) : (nested : Bool) → Formula → List Element
  | _, value text => [{ kind := .value text, raw := text, line }]
  | _, name text => [{ kind := .name text, raw := text, line }]
  | _, sign symbol operand =>
    { kind := .operator symbol .sign none none, raw := symbol, line } :: operand.elements line true
  | _, function symbol operand =>
    { kind := .operator symbol .function none none, raw := symbol, line } ::
      enclose line (operand.elements line true)
  | nested, binary symbol left right =>
    let all := left.elements line true ++
      { kind := .operator symbol .binary none none, raw := symbol, line } ::
        right.elements line true
    if nested then enclose line all else all

variable {s : Store} {line : Nat} {ids : List ElementId}

theorem derives_enclose {f : Formula} {elements : List Element}
    (h : ids.map s.get = enclose line elements)
    (hf : ∀ inner : List ElementId, inner.map s.get = elements → DerivesFormula s .term inner f) :
    DerivesFormula s .atom ids f := by
  obtain ⟨opening, rest, rfl, ho, hrest⟩ := List.map_eq_cons_iff.1 h
  obtain ⟨inner, last, rfl, hinner, hlast⟩ := List.map_eq_append_iff.1 hrest
  obtain ⟨closing, rfl, hc⟩ := List.map_eq_singleton_iff.1 hlast
  obtain ⟨t, ht, hs⟩ := hf inner hinner
  exact ⟨t, .group (by rw [kind, ho]) ht (by rw [kind, hc]), hs⟩

/-- What follows an operand makes `rest` of it. -/
def Continues (s : Store) (tail : List ElementId) (rest : Formula → Formula) : Prop :=
  ∀ ids f, DerivesFormula s .operand ids f → DerivesFormula s .term (ids ++ tail) (rest f)

/-- The tokens of the formula are read as `reread` says, whatever follows. -/
def Rereads (s : Store) (line : Nat) (f : Formula) : Prop :=
  ∀ ids tail rest, ids.map s.get = f.elements line true → Continues s tail rest →
    DerivesFormula s .term (ids ++ tail) (f.reread rest)

theorem continues_nil : Continues s [] id := by
  rintro ids f ⟨t, ht, hf⟩
  rw [List.append_nil]
  exact ⟨t, .term ht, hf⟩

theorem Rereads.alone {f : Formula} (h : f.Rereads s line)
    (hids : ids.map s.get = f.elements line true) :
    DerivesFormula s .term ids (f.reread id) := by
  have := h ids [] id hids continues_nil
  rwa [List.append_nil] at this

theorem Rereads.binary {symbol : String} {left right : Formula} (hl : left.Rereads s line)
    (hr : right.Rereads s line)
    (hids : ids.map s.get = (Formula.binary symbol left right).elements line false) :
    DerivesFormula s .term ids ((Formula.binary symbol left right).reread id) := by
  obtain ⟨first, tail, rfl, hfirst, htail⟩ := List.map_eq_append_iff.1 hids
  obtain ⟨x, second, rfl, hx, hsecond⟩ := List.map_eq_cons_iff.1 htail
  refine hl first (x :: second) _ hfirst ?_
  rintro ids f ⟨t, ht, hf⟩
  obtain ⟨u, hu, hg⟩ := hr.alone hsecond
  exact ⟨.joined x t u, .binary ht (by rw [hx]; rfl) hu, .binary (by rw [kind, hx]) hf hg⟩

/-- **The tokens of a formula are read as `reread` says.** -/
theorem rereads (f : Formula) : f.Rereads s line := by
  induction f with
  | value text =>
    intro ids tail rest hids htail
    obtain ⟨x, rfl, hx⟩ := List.map_eq_singleton_iff.1 hids
    refine htail [x] _ ⟨.leaf x, .operand (.atom ?_), .value ?_⟩
    · rw [kind, hx]; rfl
    · rw [kind, hx]
  | name name =>
    intro ids tail rest hids htail
    obtain ⟨x, rfl, hx⟩ := List.map_eq_singleton_iff.1 hids
    refine htail [x] _ ⟨.leaf x, .operand (.atom ?_), .name ?_⟩
    · rw [kind, hx]; rfl
    · rw [kind, hx]
  | sign symbol operand ih =>
    intro ids tail rest hids htail
    obtain ⟨x, ids, rfl, hx, hoperand⟩ := List.map_eq_cons_iff.1 hids
    obtain ⟨t, ht, hf⟩ := ih ids tail rest hoperand htail
    exact ⟨.applied x t, .sign (by rw [hx]; rfl) ht, .sign (by rw [kind, hx]) hf⟩
  | function symbol operand ih =>
    intro ids tail rest hids htail
    obtain ⟨x, ids, rfl, hx, hoperand⟩ := List.map_eq_cons_iff.1 hids
    obtain ⟨t, ht, hf⟩ := derives_enclose hoperand fun inner hinner => ih.alone hinner
    exact htail _ _ ⟨.applied x t, .function (by rw [hx]; rfl) ht, .function (by rw [kind, hx]) hf⟩
  | binary symbol left right ihl ihr =>
    intro ids tail rest hids htail
    obtain ⟨t, ht, hf⟩ := derives_enclose hids fun inner hinner => ihl.binary ihr hinner
    exact htail ids _ ⟨t, .operand ht, hf⟩

/-- So are those of a formula of its own, which has no parentheses around it. -/
theorem derives_elements (f : Formula) (hids : ids.map s.get = f.elements line false) :
    DerivesFormula s .term ids (f.reread id) := by
  cases f with
  | binary symbol left right => exact (rereads left).binary (rereads right) hids
  | _ => exact (rereads _).alone hids

end Formula

end FormulaSheet
