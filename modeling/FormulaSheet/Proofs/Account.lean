/-
  Accounting for a term: where each of its elements has gone.

  * `InOrder s roots walk`: the walk through the trees of `roots`, a binary
    operator between its operands and everything else before its children.
    There is at most one (`InOrder.unique`).
  * `Account c s s' extent term roots walk called passed`: the elements of
    `term`, as they are in `s`, are read as the trees of `roots` in `s'`.  They
    are in the walk, or they are delimiters and separators, or names of called
    functions (`called`), or parts of calls of nothing (`passed`).
  * `Account.inOrder`: the walk is the walk of the trees.
  * `Account.sublist`, `Account.count_le` and `Account.count_eq`: nothing of the
    term is reordered or doubled, and only its marks are lost.
-/
import FormulaSheet.Proofs.Forest
import FormulaSheet.Proofs.Grammar

namespace FormulaSheet

open Store

/-! ## Walks -/

namespace Kind

/-- The children that are walked through before the element itself. -/
def before : Kind → List ElementId
  | operator _ .binary first _ => first.toList
  | _ => []

/-- The children that are walked through after the element itself. -/
def after : Kind → List ElementId
  | operator _ .binary _ second => second.toList
  | kind => kind.children

/-- All but binary operators come before their children. -/
theorem before_after {kind : Kind}
    (h : ∀ symbol first second, kind ≠ .operator symbol .binary first second) :
    kind.before = [] ∧ kind.after = kind.children := by
  cases kind with
  | operator symbol role first second =>
    cases role with
    | binary => exact absurd rfl (h symbol first second)
    | _ => exact ⟨rfl, rfl⟩
  | _ => exact ⟨rfl, rfl⟩

theorem before_subset (kind : Kind) : kind.before ⊆ kind.children := by
  unfold before
  split
  · exact List.subset_append_left _ _
  · exact List.nil_subset _

theorem after_subset (kind : Kind) : kind.after ⊆ kind.children := by
  unfold after
  split
  · exact List.subset_append_right _ _
  · exact List.Subset.refl _

end Kind

namespace Store

/-- The elements of the trees of `roots`, in the order of the walk. -/
inductive InOrder (s : Store) : List ElementId → List ElementId → Prop
  | nil : InOrder s [] []
  | cons {id : ElementId} {roots before after rest : List ElementId}
      (hb : InOrder s (s.kind id).before before) (ha : InOrder s (s.kind id).after after)
      (hr : InOrder s roots rest) : InOrder s (id :: roots) (before ++ id :: (after ++ rest))

namespace InOrder

variable {s : Store} {roots roots' walk walk' : List ElementId}

theorem append (h : InOrder s roots walk) (h' : InOrder s roots' walk') :
    InOrder s (roots ++ roots') (walk ++ walk') := by
  induction h with
  | nil => exact h'
  | cons hb ha _ _ _ ih =>
    rw [List.cons_append, List.append_assoc, List.cons_append, List.append_assoc]
    exact .cons hb ha ih

theorem singleton {id : ElementId} {before after : List ElementId}
    (hb : InOrder s (s.kind id).before before) (ha : InOrder s (s.kind id).after after) :
    InOrder s [id] (before ++ id :: after) := by
  have := InOrder.cons hb ha (.nil (s := s))
  rwa [List.append_nil] at this

theorem unique (h : InOrder s roots walk) (h' : InOrder s roots walk') : walk' = walk := by
  induction h generalizing walk' with
  | nil => cases h'; rfl
  | cons _ _ _ ihb iha ihr =>
    cases h' with
    | cons hb ha hr => rw [ihb hb, iha ha, ihr hr]

theorem exists_below (h : InOrder s roots walk) {id : ElementId} (hid : id ∈ walk) :
    ∃ root ∈ roots, Below s root id := by
  induction h with
  | nil => cases hid
  | @cons root roots before after rest _ _ _ ihb iha ihr =>
    have below : (∃ child ∈ (s.kind root).children, Below s child id) →
        ∃ top ∈ root :: roots, Below s top id := fun ⟨_, hc, hb⟩ =>
      ⟨root, List.mem_cons_self, (Below.root.child hc).trans hb⟩
    rcases List.mem_append.1 hid with hid | hid
    · obtain ⟨child, hc, hb⟩ := ihb hid
      exact below ⟨child, Kind.before_subset _ hc, hb⟩
    rcases List.mem_cons.1 hid with rfl | hid
    · exact ⟨id, List.mem_cons_self, .root⟩
    rcases List.mem_append.1 hid with hid | hid
    · obtain ⟨child, hc, hb⟩ := iha hid
      exact below ⟨child, Kind.after_subset _ hc, hb⟩
    · obtain ⟨top, ht, hb⟩ := ihr hid
      exact ⟨top, List.mem_cons_of_mem _ ht, hb⟩

end InOrder

end Store

/-! ## Accounts -/

/-- The marks that only guide the reading of a term: the delimiters of groups
    and the separators of cells and arguments. -/
def Kind.isMark : Kind → Bool
  | delimiter _ _ | comma | semicolon => true
  | _ => false

theorem Kind.isStructural_of_isMark {kind : Kind} (h : kind.isMark = true) :
    kind.isStructural = true := by
  cases kind <;> simp_all [isMark, isStructural]

theorem Kind.isOperator_of_isMark {kind : Kind} (h : kind.isMark = true) :
    kind.isOperator = false := by
  cases kind <;> simp_all [isMark, isOperator]

theorem Kind.isMark_iff {kind : Kind} : kind.isMark = true ↔
    (∃ group side, kind = .delimiter group side) ∨ kind = .comma ∨ kind = .semicolon := by
  cases kind <;> simp [isMark]

/-- The name `x`, perhaps in parentheses. -/
inductive Wrapped (s : Store) (x : ElementId) : List ElementId → Prop
  | name : Wrapped s x [x]
  | group {opening closing : ElementId} {inner : List ElementId}
      (ho : s.kind opening = .delimiter .parenthesis .opening) (h : Wrapped s x inner)
      (hc : s.kind closing = .delimiter .parenthesis .closing) :
      Wrapped s x (opening :: (inner ++ [closing]))

namespace Wrapped

variable {s : Store} {x id : ElementId} {ids : List ElementId}

theorem sublist (h : Wrapped s x ids) : [x].Sublist ids := by
  induction h with
  | name => exact .refl _
  | group ho h hc ih => exact (ih.trans (List.sublist_append_left _ _)).cons _

/-- All but the name are marks. -/
theorem count_eq (h : Wrapped s x ids) (hid : (s.kind id).isMark = false) :
    ids.count id = [x].count id := by
  induction h with
  | name => rfl
  | @group opening closing inner ho h hc ih =>
    have hopening : opening ≠ id := by rintro rfl; simp [ho, Kind.isMark] at hid
    have hclosing : closing ≠ id := by rintro rfl; simp [hc, Kind.isMark] at hid
    rw [List.count_cons_of_ne hopening, List.count_append, ih, List.count_cons_of_ne hclosing,
      List.count_nil, Nat.add_zero]

end Wrapped

/-- What is read: one element, or any number of them with separators. -/
inductive Extent where
  | element
  | row

/-- The elements of a term are accounted for. -/
inductive Account (c : Term.Context) (s s' : Store) :
    Extent → (term roots walk called passed : List ElementId) → Prop
  | leaf {id : ElementId} (hlt : id < s.size) (hk : s'.kind id = s.kind id)
      (hc : (s.kind id).children = []) :
      Account c s s' .element [id] [id] [id] [] []
  | group {opening closing root : ElementId} {term walk called passed : List ElementId}
      (ho : s.kind opening = .delimiter .parenthesis .opening)
      (h : Account c s s' .element term [root] walk called passed)
      (hc : s.kind closing = .delimiter .parenthesis .closing) :
      Account c s s' .element (opening :: (term ++ [closing])) [root] walk called passed
  /-- A sign or a function before its operand. -/
  | applied {operator operand : ElementId} {symbol : String} {role : Role}
      {term walk called passed : List ElementId}
      (hk : s'.kind operator = .operator symbol role (some operand) none) (hr : role ≠ .binary)
      (h : Account c s s' .element term [operand] walk called passed) :
      Account c s s' .element (operator :: term) [operator] (operator :: walk) called passed
  /-- A binary operator between its operands. -/
  | joined {operator left right : ElementId} {symbol : String}
      {term term' walk walk' called called' passed passed' : List ElementId}
      (hk : s'.kind operator = .operator symbol .binary (some left) (some right))
      (hl : Account c s s' .element term [left] walk called passed)
      (hr : Account c s s' .element term' [right] walk' called' passed') :
      Account c s s' .element (term ++ operator :: term') [operator] (walk ++ operator :: walk')
        (called ++ called') (passed ++ passed')
  | array {opening closing node : ElementId} {cells : List Cell}
      {term walk called passed : List ElementId}
      (ho : s.kind opening = .delimiter .bracket .opening) (hn : s.size ≤ node)
      (hk : s'.kind node = .array cells)
      (h : Account c s s' .row term (cells.map Cell.value) walk called passed)
      (hc : s.kind closing = .delimiter .bracket .closing) :
      Account c s s' .element (opening :: (term ++ [closing])) [node] (node :: walk) called passed
  | access {name : String} {target opening closing node : ElementId}
      {indexes wrapped term walk called passed : List ElementId}
      (hname : s.kind target = .name name) (hname' : s'.kind target = .name name)
      (hcallee : Term.callee c s name = .indexed) (hw : Wrapped s target wrapped)
      (ho : s.kind opening = .delimiter .parenthesis .opening) (hn : s.size ≤ node)
      (hk : s'.kind node = .access target indexes)
      (h : Account c s s' .row term indexes walk called passed)
      (hc : s.kind closing = .delimiter .parenthesis .closing) :
      Account c s s' .element (wrapped ++ opening :: (term ++ [closing])) [node]
        (node :: target :: walk) called passed
  /-- The name of a function is lost in its call. -/
  | call {name : String} {callee function opening closing node : ElementId}
      {arguments wrapped term walk called passed : List ElementId}
      (hname : s.kind callee = .name name) (hcallee : Term.callee c s name = .function function)
      (hw : Wrapped s callee wrapped) (ho : s.kind opening = .delimiter .parenthesis .opening)
      (hn : s.size ≤ node) (hk : s'.kind node = .call function arguments)
      (h : Account c s s' .row term arguments walk called passed)
      (hc : s.kind closing = .delimiter .parenthesis .closing) :
      Account c s s' .element (wrapped ++ opening :: (term ++ [closing])) [node] (node :: walk)
        (callee :: called) passed
  /-- The name of nothing is lost together with all that stands between its
      parentheses. -/
  | unresolved {name : String} {callee opening closing node : ElementId}
      {wrapped inner : List ElementId}
      (hname : s.kind callee = .name name) (hcallee : Term.callee c s name = .unresolved)
      (hw : Wrapped s callee wrapped) (ho : s.kind opening = .delimiter .parenthesis .opening)
      (hn : s.size ≤ node) (hk : s'.kind node = .passThrough)
      (hc : Term.splitClosing? s .parenthesis 0 (inner ++ [closing]) = some (inner, [])) :
      Account c s s' .element (wrapped ++ opening :: (inner ++ [closing])) [node] [node] []
        (callee :: inner)
  | nil : Account c s s' .row [] [] [] [] []
  | separator {id : ElementId} {term roots walk called passed : List ElementId}
      (hk : s.kind id = .comma ∨ s.kind id = .semicolon)
      (h : Account c s s' .row term roots walk called passed) :
      Account c s s' .row (id :: term) roots walk called passed
  | cons {root : ElementId}
      {term term' roots walk walk' called called' passed passed' : List ElementId}
      (h : Account c s s' .element term [root] walk called passed)
      (hr : Account c s s' .row term' roots walk' called' passed') :
      Account c s s' .row (term ++ term') (root :: roots) (walk ++ walk') (called ++ called')
        (passed ++ passed')

namespace Account

variable {c : Term.Context} {s s' s'' : Store} {extent : Extent}
  {term roots walk called passed : List ElementId}

/-- An element without operands before it comes first in its walk. -/
theorem inOrder_first {s : Store} {id : ElementId} {after : List ElementId}
    (hk : ∀ symbol first second, s.kind id ≠ .operator symbol .binary first second)
    (ha : InOrder s (s.kind id).children after) : InOrder s [id] (id :: after) := by
  obtain ⟨hbefore, hafter⟩ := Kind.before_after hk
  have hb : InOrder s (s.kind id).before [] := by
    rw [hbefore]
    exact .nil
  rw [← hafter] at ha
  exact .singleton hb ha

/-- The walk is the walk of the trees. -/
theorem inOrder (h : Account c s s' extent term roots walk called passed) :
    InOrder s' roots walk := by
  induction h with
  | @leaf id hlt hk hc =>
    rw [← hk] at hc
    have hb : (s'.kind id).before = [] ∧ (s'.kind id).after = [] := by
      cases hkind : s'.kind id with
      | operator symbol role first second =>
        rw [hkind] at hc
        obtain ⟨h₁, h₂⟩ := List.append_eq_nil_iff.1 hc
        cases role <;> simp [Kind.before, Kind.after, Kind.children, h₁, h₂]
      | _ =>
        rw [hkind] at hc
        exact ⟨rfl, hc⟩
    have hbefore : InOrder s' (s'.kind id).before [] := by rw [hb.1]; exact .nil
    have hafter : InOrder s' (s'.kind id).after [] := by rw [hb.2]; exact .nil
    exact .singleton hbefore hafter
  | group ho h hc ih => exact ih
  | applied hk hr h ih =>
    refine inOrder_first (fun symbol' a b hk' => ?_) (by rw [hk]; exact ih)
    rw [hk] at hk'
    cases hk'
    exact hr rfl
  | joined hk hl hr ihl ihr =>
    refine .singleton ?_ ?_
    · rw [hk]; exact ihl
    · rw [hk]; exact ihr
  | array ho hn hk h hc ih => exact inOrder_first (by simp [hk]) (by rw [hk]; exact ih)
  | @access _ target _ _ _ _ _ _ _ _ _ hname hname' hcallee hw ho hn hk h hc ih =>
    have htarget : InOrder s' [target] [target] :=
      inOrder_first (by simp [hname']) (by rw [hname']; exact .nil)
    exact inOrder_first (by simp [hk]) (by rw [hk]; exact htarget.append ih)
  | call hname hcallee hw ho hn hk h hc ih =>
    exact inOrder_first (by simp [hk]) (by rw [hk]; exact ih)
  | unresolved hname hcallee hw ho hn hk hc =>
    exact inOrder_first (by simp [hk]) (by rw [hk]; exact .nil)
  | nil => exact .nil
  | separator hk h ih => exact ih
  | cons h hr ih ihr => exact ih.append ihr

/-- The elements of the walk are all that matters of the later store. -/
theorem congr (h : Account c s s' extent term roots walk called passed)
    (hs : ∀ id ∈ walk, s''.kind id = s'.kind id) :
    Account c s s'' extent term roots walk called passed := by
  induction h with
  | leaf hlt hk hc => exact .leaf hlt ((hs _ List.mem_cons_self).trans hk) hc
  | group ho h hc ih => exact .group ho (ih hs) hc
  | applied hk hr h ih =>
    obtain ⟨hop, hwalk⟩ := List.forall_mem_cons.1 hs
    exact .applied (hop.trans hk) hr (ih hwalk)
  | joined hk hl hr ihl ihr =>
    obtain ⟨hleft, hright⟩ := List.forall_mem_append.1 hs
    obtain ⟨hop, hright⟩ := List.forall_mem_cons.1 hright
    exact .joined (hop.trans hk) (ihl hleft) (ihr hright)
  | array ho hn hk h hc ih =>
    obtain ⟨hnode, hwalk⟩ := List.forall_mem_cons.1 hs
    exact .array ho hn (hnode.trans hk) (ih hwalk) hc
  | access hname hname' hcallee hw ho hn hk h hc ih =>
    obtain ⟨hnode, hwalk⟩ := List.forall_mem_cons.1 hs
    obtain ⟨htarget, hwalk⟩ := List.forall_mem_cons.1 hwalk
    exact .access hname (htarget.trans hname') hcallee hw ho hn (hnode.trans hk) (ih hwalk) hc
  | call hname hcallee hw ho hn hk h hc ih =>
    obtain ⟨hnode, hwalk⟩ := List.forall_mem_cons.1 hs
    exact .call hname hcallee hw ho hn (hnode.trans hk) (ih hwalk) hc
  | unresolved hname hcallee hw ho hn hk hc =>
    exact .unresolved hname hcallee hw ho hn ((hs _ List.mem_cons_self).trans hk) hc
  | nil => exact .nil
  | separator hk h ih => exact .separator hk (ih hs)
  | cons h hr ih ihr =>
    obtain ⟨hwalk, hrest⟩ := List.forall_mem_append.1 hs
    exact .cons (ih hwalk) (ihr hrest)

theorem subset (h : Account c s s' extent term roots walk called passed) : roots ⊆ walk := by
  induction h with
  | nil => exact List.Subset.refl _
  | leaf | applied | joined | array | access | call | unresolved => simp
  | group ho h hc ih => exact ih
  | separator hk h ih => exact ih
  | cons h hr ih ihr =>
    exact List.cons_subset.2 ⟨List.mem_append_left _ (ih List.mem_cons_self),
      List.subset_append_of_subset_right _ ihr⟩

theorem lt_size (h : Account c s s' extent term roots walk called passed)
    (hs : s.size ≤ s'.size) : ∀ id ∈ walk, id < s'.size := by
  have built : ∀ {id : ElementId} {walk : List ElementId}, s'.kind id ≠ .blank →
      (∀ x ∈ walk, x < s'.size) → ∀ x ∈ id :: walk, x < s'.size :=
    fun hk hwalk => List.forall_mem_cons.2 ⟨lt_size_of_kind hk, hwalk⟩
  induction h with
  | leaf hlt hk hc => exact List.forall_mem_singleton.2 (Nat.lt_of_lt_of_le hlt hs)
  | group ho h hc ih => exact ih
  | applied hk hr h ih => exact built (by simp [hk]) ih
  | joined hk hl hr ihl ihr => exact List.forall_mem_append.2 ⟨ihl, built (by simp [hk]) ihr⟩
  | array ho hn hk h hc ih => exact built (by simp [hk]) ih
  | access hname hname' hcallee hw ho hn hk h hc ih =>
    exact built (by simp [hk]) (built (by simp [hname']) ih)
  | call hname hcallee hw ho hn hk h hc ih => exact built (by simp [hk]) ih
  | unresolved hname hcallee hw ho hn hk hc => exact built (by simp [hk]) (by simp)
  | nil => simp
  | separator hk h ih => exact ih
  | cons h hr ih ihr => exact List.forall_mem_append.2 ⟨ih, ihr⟩

/-- A tree that is a name is that name, perhaps in parentheses. -/
theorem wrapped {id : ElementId} {name : String}
    (h : Account c s s' .element term [id] walk called passed) (hk : s'.kind id = .name name) :
    Wrapped s id term ∧ s.kind id = .name name := by
  generalize he : Extent.element = extent at h
  generalize hr : [id] = roots at h
  induction h with
  | leaf hlt hk' =>
    cases hr
    exact ⟨.name, hk'.symm.trans hk⟩
  | group ho h hc ih =>
    obtain ⟨hw, hname⟩ := ih he hr
    exact ⟨.group ho hw hc, hname⟩
  | applied hk' | joined hk' | array _ _ hk' | access _ _ _ _ _ _ hk' | call _ _ _ _ _ hk'
  | unresolved _ _ _ _ _ hk' =>
    cases hr
    simp [hk] at hk'
  | nil => cases he
  | separator => cases he
  | cons => cases he

/-! ## Nothing is lost, doubled or reordered -/

/-- The elements of the term that are in the walk are there in their order. -/
theorem sublist (h : Account c s s' extent term roots walk called passed) :
    (walk.filter (· < s.size)).Sublist term := by
  -- A new node in front of the walk is no element of the term.
  have dropped : ∀ {node : ElementId} {walk : List ElementId}, s.size ≤ node →
      (node :: walk).filter (· < s.size) = walk.filter (· < s.size) := fun hn =>
    List.filter_cons_of_neg (by simpa using hn)
  have enclosed : ∀ {opening closing : ElementId} {walk inner : List ElementId},
      walk.Sublist inner → walk.Sublist (opening :: (inner ++ [closing])) :=
    fun h => (h.trans (List.sublist_append_left _ _)).cons _
  have kept : ∀ {id : ElementId} {walk inner : List ElementId},
      (walk.filter (· < s.size)).Sublist inner →
      ((id :: walk).filter (· < s.size)).Sublist (id :: inner) := fun h => by
    rw [List.filter_cons]
    split
    · exact h.cons_cons _
    · exact h.cons _
  induction h with
  | leaf hlt hk hc => exact List.filter_sublist
  | group ho h hc ih => exact enclosed ih
  | applied hk hr h ih => exact kept ih
  | joined hk hl hr ihl ihr =>
    rw [List.filter_append]
    exact ihl.append (kept ihr)
  | array ho hn hk h hc ih =>
    rw [dropped hn]
    exact enclosed ih
  | @access name target _ _ _ _ _ _ walk _ _ hname hname' hcallee hw ho hn hk h hc ih =>
    rw [dropped hn, ← List.singleton_append, List.filter_append]
    exact (List.filter_sublist.trans hw.sublist).append (enclosed ih)
  | call hname hcallee hw ho hn hk h hc ih =>
    rw [dropped hn]
    exact (enclosed ih).trans (List.sublist_append_right _ _)
  | unresolved hname hcallee hw ho hn hk hc =>
    rw [dropped hn]
    exact List.nil_sublist _
  | nil => exact .refl _
  | separator hk h ih => exact ih.cons _
  | cons h hr ih ihr =>
    rw [List.filter_append]
    exact ih.append ihr

/-- No element of the term is accounted for twice. -/
theorem count_le (h : Account c s s' extent term roots walk called passed) {id : ElementId}
    (hid : id < s.size) : walk.count id + called.count id + passed.count id ≤ term.count id := by
  have new : ∀ {node : ElementId}, s.size ≤ node → node ≠ id := by
    rintro _ hn rfl
    exact Nat.not_lt.2 hn hid
  induction h with
  | leaf hlt hk hc => simp
  | group ho h hc ih => simp only [List.count_cons, List.count_append]; omega
  | applied hk hr h ih => simp only [List.count_cons]; omega
  | joined hk hl hr ihl ihr => simp only [List.count_cons, List.count_append]; omega
  | array ho hn hk h hc ih =>
    rw [List.count_cons_of_ne (new hn)]
    simp only [List.count_cons, List.count_append]
    omega
  | access hname hname' hcallee hw ho hn hk h hc ih =>
    have hwrapped := hw.sublist.count_le id
    rw [List.count_cons_of_ne (new hn)]
    simp only [List.count_cons, List.count_append, List.count_nil] at hwrapped ⊢
    omega
  | call hname hcallee hw ho hn hk h hc ih =>
    have hwrapped := hw.sublist.count_le id
    rw [List.count_cons_of_ne (new hn)]
    simp only [List.count_cons, List.count_append, List.count_nil] at hwrapped ⊢
    omega
  | unresolved hname hcallee hw ho hn hk hc =>
    have hwrapped := hw.sublist.count_le id
    rw [List.count_cons_of_ne (new hn)]
    simp only [List.count_cons, List.count_append, List.count_nil] at hwrapped ⊢
    omega
  | nil => simp
  | separator hk h ih => simp only [List.count_cons]; omega
  | cons h hr ih ihr => simp only [List.count_append]; omega

/-- All elements of the term but its marks are accounted for. -/
theorem count_eq (h : Account c s s' extent term roots walk called passed) {id : ElementId}
    (hid : id < s.size) (hm : (s.kind id).isMark = false) :
    walk.count id + called.count id + passed.count id = term.count id := by
  have new : ∀ {node : ElementId}, s.size ≤ node → node ≠ id := by
    rintro _ hn rfl
    exact Nat.not_lt.2 hn hid
  have mark : ∀ {x : ElementId}, (s.kind x).isMark = true → x ≠ id := by
    rintro _ hx rfl
    rw [hx] at hm
    cases hm
  have enclosed : ∀ {opening closing : ElementId} {group group' : Group} {inner : List ElementId},
      s.kind opening = .delimiter group .opening → s.kind closing = .delimiter group' .closing →
      (opening :: (inner ++ [closing])).count id = inner.count id := by
    intro opening closing group group' inner ho hc
    rw [List.count_cons_of_ne (mark (by rw [ho]; rfl)), List.count_append,
      List.count_cons_of_ne (mark (by rw [hc]; rfl)), List.count_nil, Nat.add_zero]
  induction h with
  | leaf hlt hk hc => simp
  | group ho h hc ih => rw [enclosed ho hc, ih]
  | applied hk hr h ih => simp only [List.count_cons]; omega
  | joined hk hl hr ihl ihr => simp only [List.count_cons, List.count_append]; omega
  | array ho hn hk h hc ih => rw [List.count_cons_of_ne (new hn), enclosed ho hc, ih]
  | access hname hname' hcallee hw ho hn hk h hc ih =>
    rw [List.count_cons_of_ne (new hn), List.count_append, hw.count_eq hm, enclosed ho hc]
    simp only [List.count_cons, List.count_nil]
    omega
  | call hname hcallee hw ho hn hk h hc ih =>
    rw [List.count_cons_of_ne (new hn), List.count_append, hw.count_eq hm, enclosed ho hc]
    simp only [List.count_cons, List.count_nil]
    omega
  | unresolved hname hcallee hw ho hn hk hc =>
    obtain ⟨close, he, hclose⟩ := Term.eq_append_of_splitClosing? hc
    obtain ⟨rfl, -⟩ := List.cons.inj (List.append_cancel_left he)
    rw [List.count_cons_of_ne (new hn), List.count_append, hw.count_eq hm, enclosed ho hclose]
    simp only [List.count_cons, List.count_nil]
    omega
  | nil => rfl
  | separator hk h ih =>
    rw [List.count_cons_of_ne (mark (by rcases hk with hk | hk <;> rw [hk] <;> rfl)), ih]
  | cons h hr ih ihr => simp only [List.count_append]; omega

end Account

end FormulaSheet
