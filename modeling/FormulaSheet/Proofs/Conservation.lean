/-
  Reduction loses, doubles and reorders nothing.

  A reduction accounts for its term: the tree that it builds and the term are
  related by `Account`, so the elements of the term that are in the tree are
  walked through in the order of the term, and what is missing is known.

  * `Untouched c s₀ s term`: the tokens `term` of `s₀` are in `s` as they were.
  * `Part`: elements of a term and the root of the tree that they are read as.
    `Laid c s₀ s parts`: the parts share nothing, and each is accounted for.
  * `Laid.apply` and `Laid.join`: an operator takes its operands, and the parts
    become one.  `Progress.take`: the first pass reads the next part.
  * `buildArray_account`, `buildCall_account` and `reduce_account`: array
    literals, calls and terms are accounted for.
-/
import FormulaSheet.Proofs.Account
import FormulaSheet.Proofs.Derivation

namespace FormulaSheet

open Store

/-! ## Accounts in later stores -/

/-- The elements of the term are accounted for. -/
def Accounted (c : Term.Context) (s s' : Store) (extent : Extent) (term roots : List ElementId) :
    Prop :=
  ∃ walk called passed, Account c s s' extent term roots walk called passed

section

variable {c : Term.Context} {s s' s'' : Store} {extent : Extent} {ids term roots : List ElementId}

/-- The walk is made of elements of the term and of new ones. -/
theorem Account.kept {walk called passed : List ElementId}
    (h : Account c s s' extent term roots walk called passed) (hsize : s.size ≤ s'.size)
    (hs : ∀ id < s'.size, (id < s.size → id ∈ term) → s''.get id = s'.get id) :
    ∀ id ∈ walk, s''.get id = s'.get id := by
  intro id hid
  refine hs id (h.lt_size hsize id hid) fun hlt => h.sublist.subset ?_
  exact List.mem_filter.2 ⟨hid, by simpa using hlt⟩

namespace Accounted

theorem congr (h : Accounted c s s' extent term roots) (hsize : s.size ≤ s'.size)
    (hs : ∀ id < s'.size, (id < s.size → id ∈ term) → s''.get id = s'.get id) :
    Accounted c s s'' extent term roots ∧ ∀ id ∈ roots, s''.get id = s'.get id := by
  obtain ⟨walk, called, passed, h⟩ := h
  have hkept := h.kept hsize hs
  refine ⟨⟨walk, called, passed, h.congr fun id hid => ?_⟩, fun id hid => hkept id (h.subset hid)⟩
  rw [kind, hkept id hid, kind]

/-- Steps on other elements of the earlier store do not matter. -/
theorem later (h : Accounted c s s' extent term roots) (hsize : s.size ≤ s'.size)
    (hl : Later ids s' s'') (hids : ∀ id ∈ ids, id < s.size ∧ id ∉ term) :
    Accounted c s s'' extent term roots :=
  (h.congr hsize fun id hlt hid => hl.kept id hlt fun hm => (hids id hm).2 (hid (hids id hm).1)).1

theorem push (h : Accounted c s s' extent term roots) (hsize : s.size ≤ s'.size) (e : Element) :
    Accounted c s (s'.push e) extent term roots :=
  (h.congr hsize fun _ hlt _ => get_push_of_lt e hlt).1

theorem nil : Accounted c s s' .row [] [] :=
  ⟨[], [], [], .nil⟩

theorem separator {id : ElementId} (hk : s.kind id = .comma ∨ s.kind id = .semicolon)
    (h : Accounted c s s' .row term roots) : Accounted c s s' .row (id :: term) roots := by
  obtain ⟨walk, called, passed, h⟩ := h
  exact ⟨walk, called, passed, .separator hk h⟩

theorem cons {root : ElementId} {front : List ElementId}
    (h : Accounted c s s' .element front [root]) (hr : Accounted c s s'' .row term roots)
    (hsize : s.size ≤ s'.size) (hl : Later term s' s'')
    (hids : ∀ id ∈ term, id < s.size ∧ id ∉ front) :
    Accounted c s s'' .row (front ++ term) (root :: roots) := by
  obtain ⟨walk, called, passed, h⟩ := h.later hsize hl hids
  obtain ⟨walk', called', passed', hr⟩ := hr
  exact ⟨_, _, _, .cons h hr⟩

end Accounted

end

/-! ## Untouched tokens -/

/-- The tokens `term` of `s₀` are as they were. -/
structure Untouched (c : Term.Context) (s₀ s : Store) (term : List ElementId) : Prop where
  nodup : term.Nodup
  token : ∀ id ∈ term, (s₀.get id).IsToken
  same : ∀ id ∈ term, s.get id = s₀.get id
  size_le : s₀.size ≤ s.size
  callee : ∀ name, Term.callee c s name = Term.callee c s₀ name

namespace Untouched

variable {c : Term.Context} {s₀ s s' : Store} {id : ElementId} {inner term rest : List ElementId}

theorem lt_size (h : Untouched c s₀ s term) (hid : id ∈ term) : id < s₀.size :=
  lt_size_of_isToken (h.token id hid)

theorem kind (h : Untouched c s₀ s term) (hid : id ∈ term) : s.kind id = s₀.kind id := by
  rw [Store.kind, h.same id hid, Store.kind]

theorem leaf (h : Untouched c s₀ s term) (hid : id ∈ term) :
    Accounted c s₀ s .element [id] [id] :=
  ⟨_, _, _, .leaf (h.lt_size hid) (h.kind hid) (h.token id hid).fresh.children⟩

theorem kind_signOf {sign operand : ElementId} {symbol : String} {role : Role}
    {first second : Option ElementId} (h : Untouched c s₀ s (sign :: operand :: term))
    (hk : s₀.kind sign = .operator symbol role first second) :
    (s.modify sign (·.signOf operand)).kind sign = .operator symbol .sign (some operand) none := by
  have hfresh := (h.token sign List.mem_cons_self).fresh.shaped.operands symbol role first second hk
  obtain ⟨rfl, rfl⟩ := hfresh.2 (h.token sign List.mem_cons_self).unsealed
  have hlt : sign < s.size := Nat.lt_of_lt_of_le (h.lt_size List.mem_cons_self) h.size_le
  rw [Store.kind, get_modify_self _ hlt, h.same sign List.mem_cons_self]
  rw [Store.kind] at hk
  simp only [Element.signOf, hk]

theorem get_signOf {sign operand : ElementId} (h : Untouched c s₀ s (sign :: operand :: term)) :
    (s.modify sign (·.signOf operand)).get operand = s₀.get operand := by
  have hne : sign ≠ operand := fun he => (List.nodup_cons.1 h.nodup).1 (by simp [he])
  rw [get_modify_of_ne _ hne, h.same operand (by simp)]

theorem sign {sign operand : ElementId} (h : Untouched c s₀ s (sign :: operand :: term))
    (ho : (s₀.kind sign).isOperator = true) :
    Accounted c s₀ (s.modify sign (·.signOf operand)) .element [sign, operand] [sign] := by
  obtain ⟨symbol, role, first, second, hk⟩ := Kind.isOperator_iff.1 ho
  have hoperand : operand ∈ sign :: operand :: term := by simp
  refine ⟨_, _, _, .applied (h.kind_signOf hk) (by decide)
    (.leaf (h.lt_size hoperand) ?_ (h.token operand hoperand).fresh.children)⟩
  rw [Store.kind, h.get_signOf, Store.kind]

theorem sublist (h : Untouched c s₀ s term) (hs : inner.Sublist term) :
    Untouched c s₀ s inner where
  nodup := hs.nodup h.nodup
  token id hid := h.token id (hs.subset hid)
  same id hid := h.same id (hs.subset hid)
  size_le := h.size_le
  callee := h.callee

/-- What stands after some elements does not notice the steps on them. -/
theorem steps (h : Untouched c s₀ s (inner ++ rest)) (hs : Term.Steps c inner s s') :
    Untouched c s₀ s' rest where
  nodup := (List.nodup_append.1 h.nodup).2.1
  token id hid := h.token id (List.mem_append_right _ hid)
  same id hid := by
    have hlt := Nat.lt_of_lt_of_le (h.lt_size (List.mem_append_right inner hid)) h.size_le
    rw [hs.later.kept id hlt fun hm => (List.nodup_append.1 h.nodup).2.2 id hm id hid rfl]
    exact h.same id (List.mem_append_right _ hid)
  size_le := Nat.le_trans h.size_le hs.later.size_le
  callee name := (hs.callee_eq c name).trans (h.callee name)

theorem apart (h : Untouched c s₀ s (inner ++ rest)) :
    ∀ id ∈ rest, id < s₀.size ∧ id ∉ inner := fun id hid =>
  ⟨h.lt_size (List.mem_append_right _ hid), fun hm =>
    (List.nodup_append.1 h.nodup).2.2 id hm id hid rfl⟩

end Untouched

namespace Term

open Reducing Building

variable {c : Context} {s₀ : Store}

/-! ## Array literals -/

/-- An array literal that is read succeeds with an array of cells that are
    accounted for. -/
def AccountsCells (c : Context) (inner : List ElementId) : Prop :=
  ∀ {s₀ : Store} {w : Workspace}, Untouched c s₀ w.store inner →
    (buildArray c inner).Returns w fun node w' => ∃ cells, w'.store.kind node = .array cells ∧
      Accounted c s₀ w'.store .row inner (cells.map Cell.value)

theorem layout_items_steps {s : Store} {inner : List ElementId} {w : Workspace}
    (hs : ∀ id ∈ inner, s.kind id = w.store.kind id) (row col : Nat) :
    (layout (buildArray c) row col (items c.vocabulary s inner)).Ensures w fun _ w' =>
      Steps c inner w.store w'.store := by
  have hids := (ids_items_sublist c.vocabulary s inner).subset
  refine layout_parts_steps hids (fun sign operand hm => ?_) row col
  rw [← hs sign (hids (List.mem_flatMap.2 ⟨_, hm, List.mem_cons_self⟩))]
  exact (fits_of_mem_items hm).1

/-- What is left of a literal is accounted for, whatever is done before. -/
def AccountsRest (c : Context) (s₀ s : Store) (inner : List ElementId) : Prop :=
  ∀ {w : Workspace}, Untouched c s₀ w.store inner → ∀ row col,
    (layout (buildArray c) row col (items c.vocabulary s inner)).Returns w fun cells w' =>
      Accounted c s₀ w'.store .row inner (cells.map Cell.value)

theorem returns_cell {s : Store} {front after : List ElementId} {id : ElementId}
    {w w' : Workspace} (h : Untouched c s₀ w.store (front ++ after))
    (hw : Steps c front w.store w'.store) (hs : ∀ id ∈ after, s.kind id = s₀.kind id)
    (hid : Accounted c s₀ w'.store .element front [id]) (hrest : AccountsRest c s₀ s after)
    (row col : Nat) :
    (layout (buildArray c) row (col + 1) (items c.vocabulary s after) >>= fun cells =>
      pure (⟨id, row, col⟩ :: cells) : Reducing (List Cell)).Returns w' fun cells w'' =>
        Accounted c s₀ w''.store .row (front ++ after) (cells.map Cell.value) := by
  have hafter := h.steps hw
  have hsteps := layout_items_steps (c := c) (fun id hm => (hs id hm).trans (hafter.kind hm).symm)
    row (col + 1)
  refine ensures_bind (Ensures.and (hrest hafter row (col + 1)) hsteps) (fun cells w'' hc => ?_)
    (by simp)
  rw [ensures_pure]
  rintro _ ⟨⟩
  exact hid.cons (hc.1 cells rfl) hafter.size_le hc.2.later h.apart

theorem layout_account {s : Store} {inner : List ElementId}
    (hn : ∀ nested, .nested nested ∈ items c.vocabulary s inner → AccountsCells c nested)
    (hs : ∀ id ∈ inner, s.kind id = s₀.kind id) {w : Workspace}
    (h : Untouched c s₀ w.store inner) (row col : Nat) :
    (layout (buildArray c) row col (items c.vocabulary s inner)).Returns w fun cells w' =>
      Accounted c s₀ w'.store .row inner (cells.map Cell.value) := by
  have unsupported : ∀ {id : ElementId} {row col : Nat} {w : Workspace}
      {Q : List Cell → Workspace → Prop},
      (layout (buildArray c) row col [.unsupported id]).Returns w Q := by
    intro id row col w Q
    rw [layout, returns_store_bind]
    exact returns_throw
  fun_induction items c.vocabulary s inner generalizing w row col with
  | case1 =>
    rw [layout, returns_pure]
    exact .nil
  | case2 id after hk ih =>
    obtain ⟨hid, hs⟩ := List.forall_mem_cons.1 hs
    have hseparator : s₀.kind id = .comma ∨ s₀.kind id = .semicolon := Or.inr (hid ▸ hk)
    have hafter := h.sublist (List.sublist_cons_self id after)
    have ih' := ih (fun nested hm => hn nested (List.mem_cons_of_mem _ hm)) hs hafter
    rw [layout]
    split
    · exact (ih' row col).imp fun _ _ hr => hr.separator hseparator
    · exact (ih' (row + 1) 0).imp fun _ _ hr => hr.separator hseparator
  | case3 id after hk ih =>
    obtain ⟨hid, hs⟩ := List.forall_mem_cons.1 hs
    have hafter := h.sublist (List.sublist_cons_self id after)
    exact (ih hn hs hafter row col).imp fun _ _ hr => hr.separator (Or.inl (hid ▸ hk))
  | case4 => exact returns_throw
  | case5 opening _ hk nested after hsplit ih =>
    obtain ⟨closing, rfl, hclosing⟩ := eq_append_of_splitClosing? hsplit
    have hopening := (hs opening List.mem_cons_self).symm.trans hk
    rw [hs closing (by simp)] at hclosing
    have hs' : ∀ id ∈ after, s.kind id = s₀.kind id := fun id hm => hs id (by simp [hm])
    have heq : opening :: (nested ++ closing :: after) =
        opening :: (nested ++ [closing]) ++ after := by simp
    rw [heq] at h ⊢
    have hnested : Untouched c s₀ w.store nested :=
      h.sublist (((List.sublist_append_left _ _).cons _).trans (List.sublist_append_left _ _))
    rw [layout]
    refine ensures_bind (Ensures.and (hn nested List.mem_cons_self hnested)
      (buildArray_steps c nested w)) (fun node w' hnode => ?_) (by simp)
    obtain ⟨cells, hkind, walk, called, passed, hcells⟩ := hnode.1 node rfl
    have hnew := Nat.le_trans h.size_le (hnode.2.2 node rfl).1
    have hsteps : Steps c (opening :: (nested ++ [closing])) w.store w'.store :=
      hnode.2.1.mono fun id hm => by simp [hm]
    exact returns_cell h hsteps hs' ⟨_, _, _, .array hopening hnew hkind hcells hclosing⟩
      (fun hu => ih (fun nested hm => hn nested (List.mem_cons_of_mem _ hm)) hs' hu) row col
  | case6 => exact unsupported
  | case7 sign symbol role first second hk operand after hc ih =>
    have hs' : ∀ id ∈ after, s.kind id = s₀.kind id := fun id hm => hs id (by simp [hm])
    rw [layout, returns_lift_bind, run_foldSign]
    have hsign : (s₀.kind sign).isOperator = true := by
      rw [← hs sign List.mem_cons_self, hk]
      rfl
    have hstep : Step c [sign, operand] w.store (w.store.modify sign (·.signOf operand)) :=
      .sign List.mem_cons_self (by rwa [h.kind List.mem_cons_self]) (by simp)
    have h' : Untouched c s₀ w.store ([sign, operand] ++ after) := h
    exact returns_cell h' (.single hstep) hs' (h.sign hsign)
      (fun hu => ih (fun nested hm => hn nested (List.mem_cons_of_mem _ hm)) hs' hu) row col
  | case8 => exact unsupported
  | case9 => exact unsupported
  | case10 id after hsemi hcomma hopen hop hst ih =>
    have hs' : ∀ id ∈ after, s.kind id = s₀.kind id := fun id hm => hs id (by simp [hm])
    have h' : Untouched c s₀ w.store ([id] ++ after) := h
    rw [layout]
    exact returns_cell h' .refl hs' (h.leaf List.mem_cons_self)
      (fun hu => ih (fun nested hm => hn nested (List.mem_cons_of_mem _ hm)) hs' hu) row col

/-- **An array literal is accounted for.** -/
theorem buildArray_account (inner : List ElementId) : AccountsCells c inner := by
  induction hl : inner.length using Nat.strongRecOn generalizing inner with
  | _ n ih =>
    intro s₀ w h
    rw [buildArray_eq, returns_store_bind]
    have hcells := layout_account
      (fun nested hm => ih _ (hl ▸ length_lt_of_mem_items hm) nested rfl)
      (fun id hid => h.kind hid) h 0 0
    refine ensures_bind (Ensures.and hcells (layout_items_steps (fun _ _ => rfl) 0 0))
      (fun cells w' hw => ?_) (by simp)
    simp only [ensures_lift_bind, ensures_lift, run_store, run_buildNode,
      Workspace.store_withStore]
    rintro _ ⟨⟩
    refine ⟨cells, ?_, (hw.1 cells rfl).push (Nat.le_trans h.size_le hw.2.later.size_le) _⟩
    rw [Store.kind, get_push_size]

/-! ## Calls -/

/-- A reduction accounts for its term, and its root has its operands. -/
def Accounts (c : Context) (term : List ElementId) : Prop :=
  ∀ {s₀ : Store} {w : Workspace}, Untouched c s₀ w.store term →
    (reduce c term).Returns w fun root w' => Accounted c s₀ w'.store .element term [root] ∧
      (w'.store.get root).pendingRole? = none

/-- The pieces of a list between commas. -/
inductive Separated (s : Store) : List ElementId → List (List ElementId) → Prop
  | last (piece : List ElementId) : Separated s piece [piece]
  | comma {piece rest : List ElementId} {id : ElementId} {pieces : List (List ElementId)}
      (hk : s.kind id = .comma) (h : Separated s rest pieces) :
      Separated s (piece ++ id :: rest) (piece :: pieces)

theorem Separated.onHead {s : Store} {ids : List ElementId} {pieces : List (List ElementId)}
    (h : Separated s ids pieces) (id : ElementId) :
    Separated s (id :: ids) (pieces.modifyHead (id :: ·)) := by
  cases h with
  | last => exact .last _
  | comma hk h => exact @Separated.comma _ (id :: _) _ _ _ hk h

theorem separated_splitArguments (s : Store) (depth : Nat) (ids : List ElementId) :
    Separated s ids (splitArguments s depth ids) := by
  induction ids generalizing depth with
  | nil => exact .last []
  | cons id rest ih =>
    rw [splitArguments]
    split
    · exact (ih _).onHead id
    · exact (ih _).onHead id
    · rename_i hk
      split
      · exact @Separated.comma _ [] _ _ _ hk (ih 0)
      · exact (ih _).onHead id
    · exact (ih _).onHead id

theorem mapM_account {s : Store} {inner : List ElementId} {pieces : List (List ElementId)}
    (hsep : Separated s inner pieces) (hr : ∀ piece ∈ pieces, Accounts c piece)
    (hs : ∀ id ∈ inner, s.kind id = s₀.kind id) {w : Workspace}
    (h : Untouched c s₀ w.store inner) :
    (pieces.mapM (reduce c)).Returns w fun roots w' =>
      Steps c inner w.store w'.store ∧ Accounted c s₀ w'.store .row inner roots := by
  induction hsep generalizing w with
  | last piece =>
    rw [List.mapM_cons]
    refine ensures_bind (Ensures.and (hr piece List.mem_cons_self h) (reduce_steps c piece w))
      (fun root w' hroot => ?_) (by simp)
    rw [List.mapM_nil, pure_bind, ensures_pure]
    rintro _ ⟨⟩
    have hsize := Nat.le_trans h.size_le hroot.2.1.later.size_le
    refine ⟨hroot.2.1, ?_⟩
    have := (hroot.1 root rfl).1.cons .nil hsize (.refl [] _) (by simp)
    rwa [List.append_nil] at this
  | @comma piece rest id pieces hk hsep ih =>
    rw [List.mapM_cons]
    have hpiece := h.sublist (List.sublist_append_left piece (id :: rest))
    refine ensures_bind (Ensures.and (hr piece List.mem_cons_self hpiece) (reduce_steps c piece w))
      (fun root w₁ hroot => ?_) (by simp)
    have hrest := h.steps hroot.2.1
    refine ensures_bind (ih (fun p hp => hr p (List.mem_cons_of_mem _ hp))
      (fun id hid => hs id (by simp [hid])) (hrest.sublist (List.sublist_cons_self _ _)))
      (fun roots w₂ hroots => ?_) (by simp)
    rw [ensures_pure]
    rintro _ ⟨⟩
    obtain ⟨hsteps, hrow⟩ := hroots roots rfl
    have hcomma : s₀.kind id = .comma := (hs id (by simp)).symm.trans hk
    have hsteps' := hsteps.mono (List.subset_cons_self id rest)
    refine ⟨(hroot.2.1.mono (List.subset_append_left _ _)).trans
      (hsteps'.mono (List.subset_append_right _ _)), ?_⟩
    exact (hroot.1 root rfl).1.cons (hrow.separator (Or.inl hcomma)) hrest.size_le hsteps'.later
      h.apart

theorem reduceArguments_account {inner : List ElementId}
    (hr : ∀ term : List ElementId, term.length ≤ inner.length → Accounts c term) {w : Workspace}
    (h : Untouched c s₀ w.store inner) :
    (reduceArguments (reduce c) inner).Returns w fun roots w' =>
      Steps c inner w.store w'.store ∧ Accounted c s₀ w'.store .row inner roots := by
  rw [reduceArguments, returns_store_bind]
  rw [arguments]
  split
  · rename_i hempty
    obtain rfl := List.isEmpty_iff.1 hempty
    rw [List.mapM_nil, returns_pure]
    exact ⟨.refl, .nil⟩
  · exact mapM_account (separated_splitArguments _ _ _)
      (fun piece hp => hr piece (length_le_of_mem_splitArguments hp)) (fun _ hid => h.kind hid) h

theorem splitClosing?_closed {s : Store} {group : Group} {depth : Nat}
    {ids inner after : List ElementId} (h : splitClosing? s group depth ids = some (inner, after))
    (hs : ∀ id ∈ ids, s.kind id = s₀.kind id) :
    ∃ closing, ids = inner ++ closing :: after ∧ s₀.kind closing = .delimiter group .closing ∧
      splitClosing? s₀ group depth (inner ++ [closing]) = some (inner, []) := by
  induction ids generalizing depth inner after with
  | nil => simp [splitClosing?] at h
  | cons id rest ih =>
    obtain ⟨hid, hs⟩ := List.forall_mem_cons.1 hs
    -- An element that does not close the group is in front of the inside.
    have step : ∀ {depth' : Nat}, (splitClosing? s group depth' rest).map
        (fun p => (id :: p.1, p.2)) = some (inner, after) →
        (∀ ids, splitClosing? s₀ group depth (id :: ids) =
          (splitClosing? s₀ group depth' ids).map fun p => (id :: p.1, p.2)) →
        ∃ closing, id :: rest = inner ++ closing :: after ∧
          s₀.kind closing = .delimiter group .closing ∧
          splitClosing? s₀ group depth (inner ++ [closing]) = some (inner, []) := by
      intro depth' h heq
      obtain ⟨⟨i, a⟩, hi, he⟩ := Option.map_eq_some_iff.1 h
      obtain ⟨rfl, rfl⟩ := Prod.mk.inj he
      obtain ⟨closing, rfl, hclosing, hsplit⟩ := ih hi hs
      refine ⟨closing, rfl, hclosing, ?_⟩
      rw [List.cons_append, heq, hsplit]
      rfl
    simp only [splitClosing?] at h
    split at h
    · rename_i g side hk
      rw [hid] at hk
      split at h
      · rename_i hg
        subst hg
        split at h
        · exact step h (splitClosing?_opening hk _)
        · obtain ⟨rfl, rfl⟩ := Prod.mk.inj (Option.some.inj h)
          exact ⟨id, rfl, hk, by simp [splitClosing?, hk]⟩
        · exact step h (splitClosing?_closing hk _)
      · rename_i hg
        refine step h (splitClosing?_other (fun side' hk' => hg ?_) _)
        cases hk.symm.trans hk'
        rfl
    · rename_i hk
      refine step h (splitClosing?_other (fun side hk' => ?_) _)
      rw [← hid] at hk'
      exact hk group side hk'

/-- **A call is accounted for**: as an access, as a call, or as a text. -/
theorem buildCall_account {inner wrapped : List ElementId} {id opening closing : ElementId}
    {name : String}
    (hr : ∀ term : List ElementId, term.length ≤ inner.length → Accounts c term)
    (hname : s₀.kind id = .name name) (hw : Wrapped s₀ id wrapped)
    (ho : s₀.kind opening = .delimiter .parenthesis .opening)
    (hclosing : s₀.kind closing = .delimiter .parenthesis .closing)
    (hc : splitClosing? s₀ .parenthesis 0 (inner ++ [closing]) = some (inner, []))
    {w : Workspace} (h : Untouched c s₀ w.store inner) (hid : w.store.kind id = .name name) :
    (buildCall c (reduce c) id name inner).Returns w fun node w' =>
      Accounted c s₀ w'.store .element (wrapped ++ opening :: (inner ++ [closing])) [node] ∧
        (w'.store.get node).pendingRole? = none := by
  have hargs := reduceArguments_account hr h
  have hkind : ∀ (s : Store) (e : Element), (s.push e).kind s.size = e.kind := fun s e => by
    rw [Store.kind, get_push_size]
  rw [buildCall, returns_store_bind]
  split
  · rename_i hcallee
    rw [h.callee] at hcallee
    refine ensures_bind hargs (fun indexes w' hw' => ?_) (by simp)
    rw [ensures_store_bind, ensures_lift, run_buildNode]
    rintro _ ⟨⟩
    obtain ⟨hsteps, hrow⟩ := hw' indexes rfl
    have hsize := Nat.le_trans h.size_le hsteps.later.size_le
    obtain ⟨walk, called, passed, hrow⟩ := hrow.push hsize _
    exact ⟨⟨_, _, _, .access hname ((hsteps.later.push _).name hid) hcallee hw ho hsize
      (hkind _ _) hrow hclosing⟩, congrArg Element.pendingRole? (get_push_size _ _)⟩
  · rename_i function hcallee
    rw [h.callee] at hcallee
    refine ensures_bind hargs (fun arguments w' hw' => ?_) (by simp)
    rw [ensures_lift_bind, run_note, ensures_store_bind, ensures_lift, run_buildNode]
    rintro _ ⟨⟩
    obtain ⟨hsteps, hrow⟩ := hw' arguments rfl
    have hsize := Nat.le_trans h.size_le hsteps.later.size_le
    obtain ⟨walk, called, passed, hrow⟩ := hrow.push hsize _
    exact ⟨⟨_, _, _, .call hname hcallee hw ho hsize (hkind _ _) hrow hclosing⟩,
      congrArg Element.pendingRole? (get_push_size _ _)⟩
  · rename_i hcallee
    rw [h.callee] at hcallee
    rw [returns_lift_bind, run_note, returns_store_bind, returns_lift, run_buildNode]
    exact ⟨⟨_, _, _, .unresolved hname hcallee hw ho h.size_le (hkind _ _) hc⟩,
      congrArg Element.pendingRole? (get_push_size _ _)⟩

end Term

/-! ## Parts of a term -/

/-- Elements of a term and the root of the tree that they are read as. -/
structure Part where
  term : List ElementId
  root : ElementId

/-- The part is accounted for; if it still waits for operands, it is a token. -/
structure Part.Holds (c : Term.Context) (s₀ s : Store) (p : Part) : Prop where
  accounted : Accounted c s₀ s .element p.term [p.root]
  pending : (s.get p.root).pendingRole? ≠ none → p.term = [p.root]

theorem Part.Holds.congr {c : Term.Context} {s₀ s s' : Store} {p : Part} (h : p.Holds c s₀ s)
    (hsize : s₀.size ≤ s.size)
    (hs : ∀ id < s.size, (id < s₀.size → id ∈ p.term) → s'.get id = s.get id) :
    p.Holds c s₀ s' := by
  obtain ⟨haccounted, hroot⟩ := h.accounted.congr hsize hs
  refine ⟨haccounted, fun hp => h.pending ?_⟩
  rwa [← hroot p.root List.mem_cons_self]

/-- The parts are accounted for and share nothing. -/
structure Laid (c : Term.Context) (s₀ s : Store) (parts : List Part) : Prop where
  holds : ∀ p ∈ parts, p.Holds c s₀ s
  nodup : (parts.flatMap Part.term).Nodup
  lt_size : ∀ id ∈ parts.flatMap Part.term, id < s₀.size
  size_le : s₀.size ≤ s.size

namespace Laid

variable {c : Term.Context} {s₀ s s' : Store} {us vs : List Part} {l p q r : Part}

/-- The same elements in other parts. -/
theorem regroup {parts parts' : List Part} (h : Laid c s₀ s parts) (hs : s'.size = s.size)
    (he : parts'.flatMap Part.term = parts.flatMap Part.term)
    (hh : ∀ p ∈ parts', p.Holds c s₀ s') : Laid c s₀ s' parts' where
  holds := hh
  nodup := by rw [he]; exact h.nodup
  lt_size := by rw [he]; exact h.lt_size
  size_le := by rw [hs]; exact h.size_le

theorem term_eq {role : Role} (h : Laid c s₀ s (us ++ p :: vs))
    (hp : (s.get p.root).pendingRole? = some role) : p.term = [p.root] :=
  (h.holds p (by simp)).pending (by simp [hp])

/-- What is done to a waiting operator does not matter to the other parts. -/
theorem others {role : Role} (h : Laid c s₀ s (us ++ p :: vs))
    (hp : (s.get p.root).pendingRole? = some role) (f : Element → Element) :
    ∀ q ∈ us ++ vs, q.Holds c s₀ (s.modify p.root f) := by
  intro q hq
  have hmem : p.root ∈ (us ++ p :: vs).flatMap Part.term :=
    List.mem_flatMap.2 ⟨p, by simp, by rw [h.term_eq hp]; exact List.mem_cons_self⟩
  have hapart : p.root ∉ q.term := by
    intro hroot
    have hn := h.nodup
    rw [(List.perm_middle.flatMap_right Part.term).nodup_iff, List.flatMap_cons,
      h.term_eq hp] at hn
    exact (List.nodup_cons.1 hn).1 (List.mem_flatMap.2 ⟨q, hq, hroot⟩)
  have hqm : q ∈ us ++ p :: vs := by
    rcases List.mem_append.1 hq with hq | hq <;> simp [hq]
  refine (h.holds q hqm).congr h.size_le fun id _ hid => get_modify_of_ne f ?_
  rintro rfl
  exact hapart (hid (h.lt_size _ hmem))

theorem kind_withOperands {role : Role} (hp : (s.get p.root).pendingRole? = some role)
    (first second : Option ElementId) :
    (∃ symbol, (s.modify p.root (·.withOperands first second)).kind p.root =
      .operator symbol role first second) ∧
    ((s.modify p.root (·.withOperands first second)).get p.root).pendingRole? = none := by
  have hlt := lt_size_of_isOperator (Element.isOperator_of_pendingRole? hp)
  obtain ⟨symbol, a, b, hk, -⟩ := Element.pendingRole?_eq_some_iff.1 hp
  rw [kind, get_modify_self _ hlt]
  simp [Element.withOperands, Element.pendingRole?, hk]

/-- A function or a sign takes the part after it. -/
theorem apply {role : Role} (h : Laid c s₀ s (us ++ p :: q :: vs))
    (hp : (s.get p.root).pendingRole? = some role) (hr : role ≠ .binary) :
    Laid c s₀ (s.modify p.root (·.withOperands (some q.root) none))
      (us ++ ⟨p.root :: q.term, p.root⟩ :: vs) := by
  have hothers := h.others hp (·.withOperands (some q.root) none)
  obtain ⟨⟨symbol, hk⟩, hnone⟩ := kind_withOperands hp (some q.root) none
  refine h.regroup (size_modify ..) (by simp [h.term_eq hp]) fun x hx => ?_
  simp only [List.mem_append, List.mem_cons] at hx hothers
  rcases hx with hx | rfl | hx
  · exact hothers x (Or.inl hx)
  · obtain ⟨walk, called, passed, hq⟩ := (hothers q (by simp)).accounted
    exact ⟨⟨_, _, _, .applied hk hr hq⟩, fun hne => absurd hnone hne⟩
  · exact hothers x (Or.inr (Or.inr hx))

/-- A binary operator takes the parts on both sides. -/
theorem join (h : Laid c s₀ s (us ++ l :: p :: r :: vs))
    (hp : (s.get p.root).pendingRole? = some .binary) :
    Laid c s₀ (s.modify p.root (·.withOperands (some l.root) (some r.root)))
      (us ++ ⟨l.term ++ p.root :: r.term, p.root⟩ :: vs) := by
  have hsplit : us ++ l :: p :: r :: vs = (us ++ [l]) ++ p :: (r :: vs) := by simp
  rw [hsplit] at h
  have hothers := h.others hp (·.withOperands (some l.root) (some r.root))
  obtain ⟨⟨symbol, hk⟩, hnone⟩ := kind_withOperands hp (some l.root) (some r.root)
  refine h.regroup (size_modify ..) (by simp [h.term_eq hp]) fun x hx => ?_
  simp only [List.mem_append, List.mem_cons] at hx hothers
  rcases hx with hx | rfl | hx
  · exact hothers x (Or.inl (Or.inl hx))
  · obtain ⟨walk, called, passed, hl⟩ := (hothers l (by simp)).accounted
    obtain ⟨walk', called', passed', hr⟩ := (hothers r (by simp)).accounted
    exact ⟨⟨_, _, _, .joined hk hl hr⟩, fun hne => absurd hnone hne⟩
  · exact hothers x (Or.inr (Or.inr hx))

end Laid

/-- The first pass has read the parts, and the rest is as it was. -/
structure Progress (c : Term.Context) (s₀ s : Store) (parts : List Part) (rest : List ElementId) :
    Prop where
  holds : ∀ p ∈ parts, p.Holds c s₀ s
  untouched : Untouched c s₀ s rest
  nodup : (parts.flatMap Part.term ++ rest).Nodup
  lt_size : ∀ id ∈ parts.flatMap Part.term ++ rest, id < s₀.size

namespace Progress

variable {c : Term.Context} {s₀ s s' : Store} {us vs : List Part}
  {ids slice after : List ElementId} {node : ElementId}

theorem laid {parts : List Part} (h : Progress c s₀ s parts []) : Laid c s₀ s parts where
  holds := h.holds
  nodup := by rw [← List.append_nil (parts.flatMap _)]; exact h.nodup
  lt_size id hid := h.lt_size id (List.mem_append_left _ hid)
  size_le := h.untouched.size_le

/-- The next elements are read, together with the last parts if these are
    called. -/
theorem take (h : Progress c s₀ s (us ++ vs) (slice ++ after)) (hs : Term.Steps c ids s s')
    (hi : ids ⊆ slice) (hnode : Part.Holds c s₀ s' ⟨vs.flatMap Part.term ++ slice, node⟩) :
    Progress c s₀ s' (us ++ [⟨vs.flatMap Part.term ++ slice, node⟩]) after := by
  have he : (us ++ [(⟨vs.flatMap Part.term ++ slice, node⟩ : Part)]).flatMap Part.term ++ after =
      (us ++ vs).flatMap Part.term ++ (slice ++ after) := by simp
  refine ⟨fun p hp => ?_, h.untouched.steps (hs.mono hi), he ▸ h.nodup, he ▸ h.lt_size⟩
  rcases List.mem_append.1 hp with hp | hp
  · have hp' : p ∈ us ++ vs := List.mem_append_left _ hp
    refine (h.holds p hp').congr h.untouched.size_le fun id hlt hid =>
      hs.later.kept id hlt fun hm => ?_
    have hslice : id ∈ slice ++ after := List.mem_append_left _ (hi hm)
    have hterm : id ∈ (us ++ vs).flatMap Part.term :=
      List.mem_flatMap.2 ⟨p, hp', hid (h.untouched.lt_size hslice)⟩
    exact (List.nodup_append.1 h.nodup).2.2 id hterm id hslice rfl
  · obtain rfl := List.mem_singleton.1 hp
    exact hnode

end Progress

namespace Term

open Reducing Building

variable {c : Context} {s₀ : Store}

/-! ## The three passes -/

/-- What a pass leaves: the roots of parts that hold the same elements, beside
    the parts `us`. -/
def Leaves (c : Context) (s₀ : Store) (us : List Part) (term work : List ElementId)
    (w : Workspace) : Prop :=
  ∃ parts, work = parts.map Part.root ∧ parts.flatMap Part.term = term ∧
    Laid c s₀ w.store (us ++ parts)

/-- The first pass reads a term part by part. -/
theorem collapseGroups_progress {n : Nat}
    (hr : ∀ inner : List ElementId, inner.length < n → Accounts c inner) {s : Store}
    {term : List ElementId} {parts : List Part} {w : Workspace} (hn : term.length ≤ n)
    (hs : ∀ id ∈ term, s.kind id = s₀.kind id) (h : Progress c s₀ w.store parts.reverse term) :
    (collapseGroups c (reduce c) (parts.map Part.root) (segments s term)).Returns w
      (Leaves c s₀ [] (parts.reverse.flatMap Part.term ++ term)) := by
  fun_induction segments s term generalizing parts w with
  | case1 =>
    rw [collapseGroups, returns_pure]
    exact ⟨parts.reverse, by rw [List.map_reverse], by simp, h.laid⟩
  | case2 => exact returns_throw
  | case3 => exact returns_throw
  | case4 opening _ g hk inner after hsplit ih =>
    obtain ⟨closing, rfl, hclosing, hclosed⟩ :=
      splitClosing?_closed hsplit fun id hid => hs id (List.mem_cons_of_mem _ hid)
    rw [hs opening List.mem_cons_self] at hk
    have heq : opening :: (inner ++ closing :: after) =
        opening :: (inner ++ [closing]) ++ after := by simp
    have hlength : inner.length < n ∧ after.length ≤ n := by
      simp only [List.length_cons, List.length_append] at hn
      omega
    have hs' : ∀ id ∈ after, s.kind id = s₀.kind id := fun id hm => hs id (by simp [hm])
    rw [heq] at h ⊢
    have hinner : Untouched c s₀ w.store inner := h.untouched.sublist
      (((List.sublist_append_left _ _).cons _).trans (List.sublist_append_left _ _))
    -- The group becomes one node, which joins the parts that stay on its left.
    have go : ∀ {kept taken : List Part} {x : Reducing ElementId},
        parts.reverse = kept.reverse ++ taken →
        (x.Ensures w fun r w' => Steps c inner w.store w'.store ∧ ∀ node, r = .ok node →
          Part.Holds c s₀ w'.store
            ⟨taken.flatMap Part.term ++ opening :: (inner ++ [closing]), node⟩) →
        (x >>= fun node => collapseGroups c (reduce c) (node :: kept.map Part.root)
          (segments s after)).Returns w (Leaves c s₀ []
            (parts.reverse.flatMap Part.term ++ (opening :: (inner ++ [closing]) ++ after))) := by
      intro kept taken x hparts hx
      refine ensures_bind hx (fun node w' hnode => ?_) (by simp)
      rw [hparts] at h ⊢
      have hnext := h.take hnode.1 (fun id hm => by simp [hm]) (hnode.2 node rfl)
      rw [← List.reverse_cons] at hnext
      refine Returns.imp (ih hlength.2 hs' hnext) ?_
      rintro work w'' ⟨parts', hwork, hparts', hlaid⟩
      exact ⟨parts', hwork, by simp [hparts'], hlaid⟩
    cases g with
    | bracket =>
      rw [collapseGroups]
      refine @go parts [] _ (List.append_nil _).symm ?_
      refine (Ensures.and (buildArray_account inner hinner) (buildArray_steps c inner w)).imp
        fun r w' hw => ⟨hw.2.1, fun node hnode => ?_⟩
      obtain ⟨cells, hkind, walk, called, passed, hcells⟩ := hw.1 node hnode
      have hnew := Nat.le_trans h.untouched.size_le (hw.2.2 node hnode).1
      refine ⟨⟨_, _, _, .array hk hnew hkind hcells hclosing⟩, fun hne => absurd ?_ hne⟩
      rw [kind] at hkind
      simp [Element.pendingRole?, hkind]
    | parenthesis =>
      -- Without a name before it the group is a term of its own.
      have group : (reduce c inner >>= fun node => collapseGroups c (reduce c)
          (node :: parts.map Part.root) (segments s after)).Returns w (Leaves c s₀ []
            (parts.reverse.flatMap Part.term ++ (opening :: (inner ++ [closing]) ++ after))) := by
        refine @go parts [] _ (List.append_nil _).symm ?_
        refine (Ensures.and (hr inner hlength.1 hinner) (reduce_steps c inner w)).imp
          fun r w' hw => ⟨hw.2.1, fun node hnode => ?_⟩
        obtain ⟨⟨walk, called, passed, haccount⟩, hpending⟩ := hw.1 node hnode
        exact ⟨⟨_, _, _, .group hk haccount hclosing⟩, fun hne => absurd hpending hne⟩
      cases parts with
      | nil =>
        rw [List.map_nil, collapseGroups]
        exact group
      | cons p parts =>
        rw [List.map_cons, collapseGroups, returns_store_bind]
        split
        · rename_i name hname
          obtain ⟨_, _, _, haccount⟩ := (h.holds p (by simp)).accounted
          obtain ⟨hwrapped, hname₀⟩ := haccount.wrapped hname
          have hcall := buildCall_account
            (fun term hl => hr term (Nat.lt_of_le_of_lt hl hlength.1)) hname₀ hwrapped hk hclosing
            hclosed hinner hname
          have hsteps := @buildCall_steps c (reduce c) inner (fun term _ => reduce_steps c term)
            w p.root name hname
          refine @go parts [p] _ (List.reverse_cons ..) ?_
          refine (Ensures.and hcall hsteps).imp fun r w' hw => ⟨hw.2.1, fun node hnode => ?_⟩
          obtain ⟨haccounted, hpending⟩ := hw.1 node hnode
          refine ⟨by simpa using haccounted, fun hne => absurd hpending hne⟩
        · exact group
  | case5 id rest hc ho ih =>
    rw [collapseGroups]
    have hid : Part.Holds c s₀ w.store ⟨[].flatMap Part.term ++ [id], id⟩ :=
      ⟨h.untouched.leaf List.mem_cons_self, fun _ => rfl⟩
    have h' : Progress c s₀ w.store (parts.reverse ++ []) ([id] ++ rest) := by
      rwa [List.append_nil]
    have hnext := h'.take .refl (List.nil_subset _) hid
    rw [← List.reverse_cons] at hnext
    refine Returns.imp (ih (Nat.le_of_succ_le hn) (fun x hx => hs x (List.mem_cons_of_mem id hx))
      hnext) ?_
    rintro work w' ⟨parts', hwork, hparts', hlaid⟩
    exact ⟨parts', hwork, by simp [hparts'], hlaid⟩

/-- The second pass puts functions and their operands together. -/
theorem bindFunctions_laid : ∀ {us vs : List Part} {w : Workspace},
    Laid c s₀ w.store (us ++ vs) →
    (bindFunctions (vs.map Part.root)).Returns w (Leaves c s₀ us (vs.flatMap Part.term))
  | us, [], w, h => by
    rw [List.map_nil, bindFunctions, returns_pure]
    exact ⟨[], rfl, rfl, h⟩
  | us, [p], w, h => by
    rw [List.map_cons, List.map_nil, bindFunctions, returns_store_bind]
    split
    · rw [returns_lift_bind]
      exact ensures_throw_bind.2 (by simp)
    · exact returns_pure.2 ⟨[p], rfl, rfl, h⟩
  | us, p :: q :: vs, w, h => by
    -- The first part stays while the others are put together.
    have rest : ∀ (p' : Part) {vs' : List Part} {w' : Workspace}, p'.root = p.root →
        (bindFunctions (vs'.map Part.root)).Returns w'
          (Leaves c s₀ (us ++ [p']) (vs'.flatMap Part.term)) →
        p'.term ++ vs'.flatMap Part.term = (p :: q :: vs).flatMap Part.term →
        (bindFunctions (vs'.map Part.root) >>= fun rest => pure (p.root :: rest)).Returns w'
          (Leaves c s₀ us ((p :: q :: vs).flatMap Part.term)) := by
      intro p' vs' w' hroot hr he
      refine returns_bind hr ?_
      rintro _ w'' ⟨parts, rfl, hparts, hlaid⟩
      rw [returns_pure]
      refine ⟨p' :: parts, by rw [List.map_cons, hroot], ?_, by simpa using hlaid⟩
      rw [List.flatMap_cons, hparts, he]
    rw [List.map_cons, List.map_cons, bindFunctions, returns_store_bind]
    split
    · rename_i hp
      rw [returns_lift_bind, run_giveOperands]
      have hterm := h.term_eq hp
      have hgiven := h.apply hp (by decide)
      rw [← List.singleton_append, ← List.append_assoc] at hgiven
      exact rest ⟨p.root :: q.term, p.root⟩ rfl (bindFunctions_laid hgiven) (by simp [hterm])
    · rw [← List.singleton_append, ← List.append_assoc] at h
      exact rest p rfl (bindFunctions_laid h) (by simp)

/-- The third pass puts signs and binary operators and their operands together. -/
theorem bindOperators_laid : ∀ {us vs : List Part} {w : Workspace},
    Laid c s₀ w.store (us.reverse ++ vs) →
    (bindOperators (us.map Part.root) (vs.map Part.root)).Returns w
      (Leaves c s₀ [] ((us.reverse ++ vs).flatMap Part.term))
  | [], vs, w, h => by
    rw [List.map_nil, bindOperators, returns_pure]
    exact ⟨vs, rfl, by simp, h⟩
  | p :: us, vs, w, h => by
    have hreverse : (p :: us).reverse ++ vs = us.reverse ++ p :: vs := by simp
    rw [hreverse] at h ⊢
    have failed : ∀ {Q : List ElementId → Workspace → Prop},
        (liftM (missingOperand p.root) >>= fun fault => throw fault :
          Reducing (List ElementId)).Returns w Q := by
      intro Q
      rw [returns_lift_bind]
      exact returns_throw
    rw [List.map_cons, bindOperators, returns_store_bind]
    split
    · rename_i hp hvs
      obtain ⟨q, vs, rfl, rfl, rfl⟩ := List.map_eq_cons_iff.1 hvs
      rw [returns_lift_bind, run_giveOperands]
      have hgiven : Laid c s₀
          (w.withStore (w.store.modify p.root (·.withOperands (some q.root) none))).store
          (us.reverse ++ ⟨p.root :: q.term, p.root⟩ :: vs) := h.apply hp (by decide)
      refine (bindOperators_laid hgiven).imp ?_
      rintro work w' ⟨parts, hwork, hparts, hlaid⟩
      exact ⟨parts, hwork, by simp [hparts, h.term_eq hp], hlaid⟩
    · exact failed
    · rename_i hp hus hvs
      obtain ⟨l, us, rfl, rfl, rfl⟩ := List.map_eq_cons_iff.1 hus
      obtain ⟨r, vs, rfl, rfl, rfl⟩ := List.map_eq_cons_iff.1 hvs
      rw [returns_lift_bind, run_giveOperands]
      have hterm := h.term_eq hp
      rw [List.reverse_cons, List.append_assoc, List.singleton_append] at h ⊢
      have hgiven : Laid c s₀
          (w.withStore (w.store.modify p.root (·.withOperands (some l.root) (some r.root)))).store
          (us.reverse ++ ⟨l.term ++ p.root :: r.term, p.root⟩ :: vs) := h.join hp
      refine (bindOperators_laid hgiven).imp ?_
      rintro work w' ⟨parts, hwork, hparts, hlaid⟩
      exact ⟨parts, hwork, by simp [hparts, hterm], hlaid⟩
    · exact failed
    · exact bindOperators_laid h

/-! ## Terms -/

theorem pendingRole?_of_unfinished? {s : Store} {root : ElementId}
    (h : unfinished? s root = none) : (s.get root).pendingRole? = none := by
  rw [unfinished?, unfinishedWithin] at h
  split at h
  · cases h
  · split at h
    · cases h
    · rename_i hp
      simpa using hp

/-- **A reduction accounts for its term.** -/
theorem reduce_account (term : List ElementId) : Accounts c term := by
  induction hl : term.length using Nat.strongRecOn generalizing term with
  | _ n ih =>
    intro s₀ w h
    rw [reduce_eq]
    apply returns_releasing
    rw [runPasses]
    split
    · exact ensures_throw_bind.2 (by simp)
    rw [returns_store_bind]
    have hprogress : Progress c s₀ w.store [].reverse term :=
      ⟨by simp, h, h.nodup, fun id hid => h.lt_size hid⟩
    refine returns_bind (collapseGroups_progress (fun inner hi => ih _ hi inner rfl)
      (Nat.le_of_eq hl) (fun id hid => h.kind hid) hprogress) ?_
    rintro _ w₁ ⟨parts₁, rfl, hparts₁, hlaid₁⟩
    have hall : Laid c s₀ w₁.store ([] ++ parts₁) := hlaid₁
    refine returns_bind (bindFunctions_laid hall) ?_
    rintro _ w₂ ⟨parts₂, rfl, hparts₂, hlaid₂⟩
    have hreversed : Laid c s₀ w₂.store (parts₂.reverse.reverse ++ []) := by simpa using hlaid₂
    rw [← List.map_reverse]
    refine returns_bind (bindOperators_laid hreversed) ?_
    rintro _ w₃ ⟨parts₃, rfl, hparts₃, hlaid₃⟩
    split
    · rename_i root hroot
      rw [returns_store_bind]
      split
      · rename_i hfinished
        rw [returns_pure]
        refine ⟨?_, pendingRole?_of_unfinished? hfinished⟩
        obtain ⟨p, rest, rfl, rfl, hrest⟩ := List.map_eq_cons_iff.1 hroot
        obtain rfl := List.map_eq_nil_iff.1 hrest
        have hterm : p.term = term := by
          simpa [hparts₂, hparts₁] using hparts₃
        rw [← hterm]
        exact (hlaid₃.holds p List.mem_cons_self).accounted
      · exact returns_throw
    · exact returns_throw

end Term

theorem isMark_eq_false_of_mem_walk {c : Term.Context} {w w' : Workspace} {term walk : List ElementId}
    {root id : ElementId} (hn : term.Nodup) (htoken : ∀ id ∈ term, (w.store.get id).IsToken)
    (hrun : StateT.run (Term.reduce c term).run w = (.ok root, w'))
    (hwalk : InOrder w'.store [root] walk) (hid : id ∈ walk) (hlt : id < w.store.size) :
    (w.store.kind id).isMark = false := by
  have hfresh : Pool w.store w.store Element.Shaped (fun _ => True) (term ++ []) [] :=
    .of_fresh (fun id hm => by
      rw [List.append_nil] at hm
      exact ⟨(htoken id hm).fresh, lt_size_of_isToken (htoken id hm), trivial⟩)
      (by rwa [List.append_nil]) fun _ _ => trivial
  have hpool := Term.reduce_pool (c := c) term hfresh
  have hlater := Term.reduce_later c term w
  simp only [Reducing.Returns, Reducing.Ensures, hrun] at hpool hlater
  obtain ⟨all, hforest, -, -, hcomplete⟩ := (hpool root rfl).trees
  obtain ⟨top, htop, hbelow⟩ := hwalk.exists_below hid
  have hc := hcomplete id (hforest.mem_of_below (hforest.subset htop) hbelow)
  cases hm : (w.store.kind id).isMark with
  | false => rfl
  | true =>
    have hsame := (hlater.retouched id hlt).eq_of_not_isOperator (Kind.isOperator_of_isMark hm)
    have hnot := hc.notStructural
    rw [hsame, ← kind, Kind.isStructural_of_isMark hm] at hnot
    cases hnot

/-- **Reduction loses, doubles and reorders nothing.**  The elements of the term
    that are in the tree are walked through in their order.  Those that are not are
    the marks, the names of called functions, and what calls of nothing are made
    of. -/
theorem reduce_conserves (c : Term.Context) (w w' : Workspace) (term : List ElementId)
    (root : ElementId) (hn : term.Nodup) (htoken : ∀ id ∈ term, (w.store.get id).IsToken)
    (hrun : StateT.run (Term.reduce c term).run w = (.ok root, w')) :
    ∃ walk called passed,
      (∀ other, InOrder w'.store [root] other ↔ other = walk) ∧
      Account c w.store w'.store .element term [root] walk called passed ∧
      (walk.filter (· ∈ term)).Sublist term ∧ (walk.filter (· ∈ term)).Nodup ∧
      ∀ id ∈ term, id ∉ walk ↔ (∃ group side, w.store.kind id = .delimiter group side) ∨
        w.store.kind id = .comma ∨ w.store.kind id = .semicolon ∨ id ∈ called ∨ id ∈ passed := by
  have hreduce := Term.reduce_account (c := c) term
    ⟨hn, htoken, fun _ _ => rfl, Nat.le_refl _, fun _ => rfl⟩
  simp only [Reducing.Returns, Reducing.Ensures, hrun] at hreduce
  obtain ⟨⟨walk, called, passed, haccount⟩, -⟩ := hreduce root rfl
  have hlt : ∀ {id}, id ∈ term → id < w.store.size := fun hid => lt_size_of_isToken (htoken _ hid)
  have hold : walk.filter (· ∈ term) = walk.filter (· < w.store.size) := by
    refine List.filter_congr fun id hid => decide_eq_decide.2 ⟨hlt, fun h => ?_⟩
    exact haccount.sublist.subset (List.mem_filter.2 ⟨hid, by simpa using h⟩)
  have hsublist : (walk.filter (· ∈ term)).Sublist term := hold ▸ haccount.sublist
  have hwalk := haccount.inOrder
  refine ⟨walk, called, passed, fun other => ⟨hwalk.unique, fun he => he ▸ hwalk⟩, haccount,
    hsublist, hsublist.nodup hn, fun id hid => ?_⟩
  have hcount := haccount.count_le (hlt hid)
  have hone : term.count id = 1 := by rw [hn.count, if_pos hid]
  rw [hone] at hcount
  constructor
  · intro hmissing
    cases hm : (w.store.kind id).isMark with
    | true => rcases Kind.isMark_iff.1 hm with h | h | h <;> simp [h]
    | false =>
      have heq := haccount.count_eq (hlt hid) hm
      rw [hone, List.count_eq_zero.2 hmissing] at heq
      have : 0 < called.count id ∨ 0 < passed.count id := by omega
      rw [List.count_pos_iff, List.count_pos_iff] at this
      rcases this with h | h <;> simp [h]
  · intro hcase hmem
    have hpos := List.count_pos_iff.2 hmem
    have hmark := isMark_eq_false_of_mem_walk hn htoken hrun hwalk hmem (hlt hid)
    rcases hcase with ⟨group, side, hk⟩ | hk | hk | hcalled | hpassed
    · simp [hk, Kind.isMark] at hmark
    · simp [hk, Kind.isMark] at hmark
    · simp [hk, Kind.isMark] at hmark
    · have := List.count_pos_iff.2 hcalled
      omega
    · have := List.count_pos_iff.2 hpassed
      omega

/-- The term `f(a, -b) + m(1) * g(x, y) - [1, -c; [d]]` in the body of `f`, whose
    parameter is `m`; nothing is called `g`. -/
theorem reduce_conserves_calls :
    let tokens := ["f", "(", "a", ",", "-", "b", ")", "+", "m", "(", "1", ")", "*", "g", "(", "x",
      ",", "y", ")", "-", "[", "1", ",", "-", "c", ";", "[", "d", "]", "]"]
    let c : Term.Context := { function := some ⟨"f", 0, ["m"]⟩ }
    let w : Workspace := { store := { elements := (classify {} 1 none tokens).toArray } }
    let term := List.range tokens.length
    term.Nodup ∧ (∀ id ∈ term, (w.store.get id).IsToken) ∧
      ∃ w', StateT.run (Term.reduce c term).run w = (.ok 7, w') ∧ ∃ walk called passed,
        (∀ other, InOrder w'.store [7] other ↔ other = walk) ∧
        Account c w.store w'.store .element term [7] walk called passed ∧
        (walk.filter (· ∈ term)).Sublist term ∧ (walk.filter (· ∈ term)).Nodup ∧
        ∀ id ∈ term, id ∉ walk ↔ (∃ group side, w.store.kind id = .delimiter group side) ∨
          w.store.kind id = .comma ∨ w.store.kind id = .semicolon ∨ id ∈ called ∨
          id ∈ passed := by
  intro tokens c w term
  have hn : term.Nodup := List.nodup_range
  have htoken : ∀ id ∈ term, (w.store.get id).IsToken := by decide +kernel
  have hroot : (StateT.run (Term.reduce c term).run w).1 = .ok 7 := by decide +kernel
  have hrun : StateT.run (Term.reduce c term).run w =
      (.ok 7, (StateT.run (Term.reduce c term).run w).2) := Prod.ext hroot rfl
  exact ⟨hn, htoken, _, hrun, reduce_conserves c w _ term 7 hn htoken hrun⟩

end FormulaSheet
