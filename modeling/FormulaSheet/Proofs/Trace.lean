/-
  The trace of a reduction: from which part of the term each change comes.

  A reduction reduces parts of its term, and parts of these.  Whatever it does
  to the store can be traced back to the term as it was written, whether the
  reduction succeeds or fails.

  * `IsGroup s group opening inner closing`: two delimiters and what stands
    between them.
  * `SignsCell v s term id`: `id` is the sign of a cell of an array literal.
  * `CallsNothing c s term name inner`: `name(inner)` is a call of nothing, and
    `IsText` is what it becomes.
  * `Traced c s₀ term s`: from `s₀` to `s` operators are retouched, only signs
    of cells become signs, and every pass-through text is a call of nothing.
  * `reduce_traced`: a reduction leaves nothing else behind.
-/
import FormulaSheet.Proofs.Conservation

namespace FormulaSheet

/-- An operator that takes what follows. -/
def Kind.isSign : Kind → Bool
  | operator _ .sign _ _ => true
  | _ => false

/-- Arrays, accesses and calls. -/
def Kind.isComposite : Kind → Bool
  | array _ | access _ _ | call _ _ => true
  | _ => false

namespace Term

open Reducing Building Store

variable {c : Context} {v : Vocabulary} {s₀ s : Store} {term : List ElementId}

/-! ## Places in a term -/

/-- A group with its delimiters. -/
structure IsGroup (s : Store) (group : Group) (opening : ElementId) (inner : List ElementId)
    (closing : ElementId) : Prop where
  opened : s.kind opening = .delimiter group .opening
  closed : splitClosing? s group 0 (inner ++ [closing]) = some (inner, [])

theorem IsGroup.closing {group : Group} {opening closing : ElementId} {inner : List ElementId}
    (h : IsGroup s group opening inner closing) : s.kind closing = .delimiter group .closing := by
  obtain ⟨close, he, hclose⟩ := eq_append_of_splitClosing? h.closed
  obtain ⟨rfl, -⟩ := List.cons.inj (List.append_cancel_left he)
  exact hclose

/-- The last elements of an array literal of the term. -/
def EndsLiteral (s : Store) (term rest : List ElementId) : Prop :=
  ∃ opening before closing, IsGroup s .bracket opening (before ++ rest) closing ∧
    opening :: (before ++ rest ++ [closing]) <:+: term

/-- In an array literal of the term, the operator `id` stands right before a
    value or a name. -/
inductive SignsCell (v : Vocabulary) (s : Store) (term : List ElementId) (id : ElementId) : Prop
  | intro {operand : ElementId} {after : List ElementId} {symbol : String} {role : Role}
      {first second : Option ElementId} (hin : EndsLiteral s term (id :: operand :: after))
      (hk : s.kind id = .operator symbol role first second) (hd : v.isDual symbol = true)
      (hs : canBeSigned (s.kind operand) = true)

/-- In the term, `inner` stands between the parentheses after `name`, which
    refers to nothing. -/
inductive CallsNothing (c : Context) (s : Store) (term : List ElementId) (name : String)
    (inner : List ElementId) : Prop
  | intro {callee opening closing : ElementId} {wrapped : List ElementId}
      (hw : Wrapped s callee wrapped) (hname : s.kind callee = .name name)
      (hcallee : Term.callee c s name = .unresolved)
      (hg : IsGroup s .parenthesis opening inner closing)
      (hin : wrapped ++ opening :: (inner ++ [closing]) <:+: term)

/-- The text of a call of nothing in the term. -/
inductive IsText (c : Context) (s : Store) (term : List ElementId) : Element → Prop
  | intro {name : String} {inner : List ElementId} (h : CallsNothing c s term name inner) :
      IsText c s term
        { kind := .passThrough, raw := callText s name inner, line := c.line, sealed := true }

namespace EndsLiteral

theorem append {front rest : List ElementId} (h : EndsLiteral s term (front ++ rest)) :
    EndsLiteral s term rest := by
  obtain ⟨opening, before, closing, hg, hin⟩ := h
  rw [← List.append_assoc] at hg hin
  exact ⟨opening, before ++ front, closing, hg, hin⟩

theorem tail {id : ElementId} {rest : List ElementId} (h : EndsLiteral s term (id :: rest)) :
    EndsLiteral s term rest :=
  @append s term [id] rest h

theorem isInfix {rest : List ElementId} (h : EndsLiteral s term rest) : rest <:+: term := by
  obtain ⟨opening, before, closing, -, hin⟩ := h
  exact List.IsInfix.trans ⟨opening :: before, [closing], by simp⟩ hin

end EndsLiteral

theorem SignsCell.isOperator {id : ElementId} (h : SignsCell v s term id) :
    (s.kind id).isOperator = true := by
  obtain ⟨-, hk, -, -⟩ := h
  rw [hk]
  rfl

theorem IsText.kind {e : Element} (h : IsText c s term e) : e.kind = .passThrough := by
  cases h
  rfl

/-! ## Traced stores -/

/-- All changes from `s₀` to `s` are traced back to the term. -/
structure Traced (c : Context) (s₀ : Store) (term : List ElementId) (s : Store) : Prop where
  size_le : s₀.size ≤ s.size
  retouched : ∀ id < s₀.size, (s₀.get id).Retouched (s.get id)
  sign : ∀ id < s₀.size, (s.kind id).isSign = true →
    (s₀.kind id).isSign = true ∨ SignsCell c.vocabulary s₀ term id
  new : ∀ id, s₀.size ≤ id → id < s.size →
    (s.kind id).isComposite = true ∨ IsText c s₀ term (s.get id)

namespace Traced

variable {id : ElementId}

theorem refl (c : Context) (s : Store) (term : List ElementId) : Traced c s term s where
  size_le := Nat.le_refl _
  retouched _ _ := .same
  sign _ _ h := Or.inl h
  new _ h h' := absurd h' (Nat.not_lt.2 h)

/-! ### What stays -/

/-- New elements have a kind of their own. -/
theorem kind_new (h : Traced c s₀ term s) (hid : s₀.size ≤ id) :
    (s.kind id).isComposite = true ∨ s.kind id = .passThrough ∨ s.kind id = .blank := by
  by_cases hlt : id < s.size
  · exact (h.new id hid hlt).imp_right fun ht => Or.inl ht.kind
  · refine Or.inr (Or.inr ?_)
    rw [Store.kind, get_of_size_le (Nat.not_lt.1 hlt), absent]

theorem isOperator_eq (h : Traced c s₀ term s) (id : ElementId) :
    (s.kind id).isOperator = (s₀.kind id).isOperator := by
  by_cases hlt : id < s₀.size
  · exact (h.retouched id hlt).isOperator_eq
  · have hge := Nat.not_lt.1 hlt
    rw [Store.kind, Store.kind, get_of_size_le hge, ← Store.kind]
    rcases h.kind_new hge with hk | hk | hk
    · cases hkind : s.kind id <;> simp_all [Kind.isComposite, Kind.isOperator, absent]
    · rw [hk]
      rfl
    · rw [hk]
      rfl

/-- Whatever is no operator stays as it is. -/
theorem kind_eq (h : Traced c s₀ term s) (hid : id < s₀.size)
    (ho : (s₀.kind id).isOperator = false) : s.kind id = s₀.kind id := by
  rw [Store.kind, (h.retouched id hid).eq_of_not_isOperator ho, Store.kind]

theorem kind_eq_iff (h : Traced c s₀ term s) (hid : id < s₀.size) {kind : Kind}
    (hk : kind.isOperator = false) : s.kind id = kind ↔ s₀.kind id = kind := by
  constructor
  · rintro rfl
    rw [h.isOperator_eq] at hk
    exact (h.kind_eq hid hk).symm
  · rintro rfl
    exact h.kind_eq hid hk

/-- Names stay, and there are no new ones. -/
theorem name_iff (h : Traced c s₀ term s) {name : String} :
    s.kind id = .name name ↔ s₀.kind id = .name name := by
  by_cases hlt : id < s₀.size
  · exact h.kind_eq_iff hlt rfl
  · have hge := Nat.not_lt.1 hlt
    have hold : s₀.kind id ≠ .name name := by
      rw [Store.kind, get_of_size_le hge]
      simp [absent]
    refine ⟨fun hk => ?_, fun hk => absurd hk hold⟩
    have := h.kind_new hge
    simp [hk, Kind.isComposite] at this

theorem callee_eq (h : Traced c s₀ term s) (name : String) :
    callee c s name = callee c s₀ name := by
  refine callee_congr (fun id => ?_) name
  by_cases hlt : id < s₀.size
  · exact (h.retouched id hlt).isBinding
  · have hge := Nat.not_lt.1 hlt
    refine Or.inr ⟨?_, ?_⟩
    · rw [Store.kind, get_of_size_le hge]
      rfl
    · rcases h.kind_new hge with hk | hk | hk
      · cases hkind : s.kind id <;> simp_all [Kind.isComposite, Kind.isBinding]
      · rw [hk]
        rfl
      · rw [hk]
        rfl

theorem raw_eq (h : Traced c s₀ term s) (hid : id < s₀.size) :
    (s.get id).raw = (s₀.get id).raw := by
  have hr := h.retouched id hid
  generalize s.get id = e at hr
  cases hr with
  | same => rfl
  | operator => rfl

theorem callText_eq (h : Traced c s₀ term s) {inner : List ElementId}
    (hi : ∀ id ∈ inner, id < s₀.size) (name : String) :
    callText s name inner = callText s₀ name inner := by
  have hraws : inner.map (fun id => (s.get id).raw) = inner.map fun id => (s₀.get id).raw :=
    List.map_congr_left fun id hid => h.raw_eq (hi id hid)
  rw [callText, rawText, hraws, callText, rawText]

/-- Groups are found where they were. -/
theorem splitClosing?_eq (h : Traced c s₀ term s) (group : Group) (depth : Nat)
    {ids : List ElementId} (hids : ∀ id ∈ ids, id < s₀.size) :
    splitClosing? s group depth ids = splitClosing? s₀ group depth ids := by
  induction ids generalizing depth with
  | nil => rfl
  | cons id rest ih =>
    obtain ⟨hid, hrest⟩ := List.forall_mem_cons.1 hids
    have hk : ∀ side, s.kind id = .delimiter group side ↔ s₀.kind id = .delimiter group side :=
      fun side => h.kind_eq_iff hid rfl
    by_cases hopen : s₀.kind id = .delimiter group .opening
    · rw [splitClosing?_opening hopen, splitClosing?_opening ((hk _).2 hopen), ih _ hrest]
    by_cases hclose : s₀.kind id = .delimiter group .closing
    · cases depth with
      | zero => simp [splitClosing?, hclose, (hk _).2 hclose]
      | succ depth =>
        rw [splitClosing?_closing hclose, splitClosing?_closing ((hk _).2 hclose), ih _ hrest]
    · have hother : ∀ side, s₀.kind id ≠ .delimiter group side := by
        intro side
        cases side with
        | opening => exact hopen
        | closing => exact hclose
      rw [splitClosing?_other hother, splitClosing?_other fun side hs => hother side ((hk _).1 hs),
        ih _ hrest]

/-- The group that an opening delimiter opens is one of the term as it was
    written. -/
theorem isGroup (h : Traced c s₀ term s) {group : Group} {opening : ElementId}
    {rest inner after : List ElementId} (hids : ∀ id ∈ opening :: rest, id < s₀.size)
    (hk : s.kind opening = .delimiter group .opening)
    (hsplit : splitClosing? s group 0 rest = some (inner, after)) :
    ∃ closing, rest = inner ++ closing :: after ∧ IsGroup s₀ group opening inner closing := by
  obtain ⟨hopening, hrest⟩ := List.forall_mem_cons.1 hids
  rw [h.splitClosing?_eq group 0 hrest] at hsplit
  obtain ⟨closing, hrest, -, hclosed⟩ := splitClosing?_closed hsplit fun _ _ => rfl
  exact ⟨closing, hrest, (h.kind_eq_iff hopening rfl).1 hk, hclosed⟩

/-! ### What changes -/

theorem push (h : Traced c s₀ term s) {e : Element}
    (he : e.kind.isComposite = true ∨ IsText c s₀ term e) : Traced c s₀ term (s.push e) where
  size_le := by
    rw [size_push]
    exact Nat.le_succ_of_le h.size_le
  retouched id hid := by
    rw [get_push_of_lt e (Nat.lt_of_lt_of_le hid h.size_le)]
    exact h.retouched id hid
  sign id hid := by
    rw [Store.kind, get_push_of_lt e (Nat.lt_of_lt_of_le hid h.size_le)]
    exact h.sign id hid
  new id hid hlt := by
    rw [size_push] at hlt
    rcases Nat.lt_succ_iff_lt_or_eq.1 hlt with hlt | rfl
    · rw [Store.kind, get_push_of_lt e hlt]
      exact h.new id hid hlt
    · rw [Store.kind, get_push_size]
      exact he

theorem modify (h : Traced c s₀ term s) {f : Element → Element}
    (hr : (s.get id).Retouched (f (s.get id)))
    (hs : (f (s.get id)).kind.isSign = true →
      (s.kind id).isSign = true ∨ SignsCell c.vocabulary s₀ term id) :
    Traced c s₀ term (s.modify id f) where
  size_le := by
    rw [size_modify]
    exact h.size_le
  retouched other hother := by
    by_cases hne : id = other
    · subst hne
      rw [get_modify_self f (Nat.lt_of_lt_of_le hother h.size_le)]
      exact (h.retouched id hother).trans hr
    · rw [get_modify_of_ne f hne]
      exact h.retouched other hother
  sign other hother := by
    by_cases hne : id = other
    · subst hne
      rw [Store.kind, get_modify_self f (Nat.lt_of_lt_of_le hother h.size_le)]
      exact fun hf => (hs hf).elim (h.sign id hother) Or.inr
    · rw [Store.kind, get_modify_of_ne f hne]
      exact h.sign other hother
  new other hother hlt := by
    rw [size_modify] at hlt
    -- A new element is no operator, so it stays.
    have hsame : (s.modify id f).get other = s.get other := by
      by_cases hne : id = other
      · subst hne
        have hold : (s₀.kind id).isOperator = false := by
          rw [Store.kind, get_of_size_le hother]
          rfl
        rw [get_modify_self f hlt, hr.eq_of_not_isOperator]
        rw [← Store.kind, h.isOperator_eq, hold]
      · exact get_modify_of_ne f hne
    rw [Store.kind, hsame]
    exact h.new other hother hlt

theorem withOperands (h : Traced c s₀ term s) {role : Role} (first second : Option ElementId)
    (hp : (s.get id).pendingRole? = some role) :
    Traced c s₀ term (s.modify id (·.withOperands first second)) := by
  have ho := Element.isOperator_of_pendingRole? hp
  refine h.modify (Element.retouched_withOperands ho first second) fun hs => Or.inl ?_
  obtain ⟨symbol, role, a, b, hk⟩ := Kind.isOperator_iff.1 ho
  simp only [Element.withOperands, hk] at hs
  rw [Store.kind, hk]
  cases role <;> simp_all [Kind.isSign]

theorem signOf (h : Traced c s₀ term s) (operand : ElementId)
    (hc : SignsCell c.vocabulary s₀ term id) :
    Traced c s₀ term (s.modify id (·.signOf operand)) := by
  have ho : (s.kind id).isOperator = true := by
    rw [h.isOperator_eq]
    exact hc.isOperator
  exact h.modify (Element.retouched_signOf ho operand) fun _ => Or.inr hc

theorem release (h : Traced c s₀ term s) (ids : List ElementId) :
    Traced c s₀ term (s.release ids) := by
  induction ids generalizing s with
  | nil => exact h
  | cons id ids ih =>
    refine ih (h.modify (Element.retouched_released _) fun hs => Or.inl ?_)
    unfold Element.released at hs
    rw [Store.kind]
    split at hs
    · rename_i symbol role _ _ hk
      rw [hk]
      cases role <;> simp_all [Kind.isSign]
    · exact hs

end Traced

/-! ## Array literals -/

/-- The inside of an array literal of the term. -/
def IsLiteral (s : Store) (term inner : List ElementId) : Prop :=
  ∃ opening closing, IsGroup s .bracket opening inner closing ∧
    opening :: (inner ++ [closing]) <:+: term

/-- Where the parts of an array literal stand. -/
def Item.IsIn (v : Vocabulary) (s : Store) (term : List ElementId) : Item → Prop
  | signed sign _ => SignsCell v s term sign
  | nested inner => IsLiteral s term inner
  | rowEnd | cell _ | unsupported _ | unclosed => True

theorem Traced.isIn_of_mem_items (h : Traced c s₀ term s) (hterm : ∀ id ∈ term, id < s₀.size)
    {rest : List ElementId} {item : Item} (hin : EndsLiteral s₀ term rest)
    (hm : item ∈ items c.vocabulary s rest) : item.IsIn c.vocabulary s₀ term := by
  have step : ∀ {first : Item} {rest : List Item}, item ∈ first :: rest →
      first.IsIn c.vocabulary s₀ term → (item ∈ rest → item.IsIn c.vocabulary s₀ term) →
      item.IsIn c.vocabulary s₀ term := by
    intro first rest hm hf hr
    rcases List.mem_cons.1 hm with rfl | hm
    · exact hf
    · exact hr hm
  fun_induction items c.vocabulary s rest with
  | case1 => cases hm
  | case2 id rest hk ih => exact step hm trivial (ih hin.tail)
  | case3 id rest hk ih => exact ih hin.tail hm
  | case4 => exact step hm trivial (by simp)
  | case5 opening rest hk nested after hs ih =>
    have hlt : ∀ id ∈ opening :: rest, id < s₀.size := fun id hid =>
      hterm id (hin.isInfix.subset hid)
    obtain ⟨closing, rfl, hg⟩ := h.isGroup hlt hk hs
    have hnested : opening :: (nested ++ [closing]) <:+: term :=
      List.IsInfix.trans ⟨[], after, by simp⟩ hin.isInfix
    exact step hm ⟨opening, closing, hg, hnested⟩ (ih hin.tail.append.tail)
  | case6 => exact step hm trivial (by simp)
  | case7 id symbol role first second hk operand after hc ih =>
    rw [Bool.and_eq_true] at hc
    have hid : id < s₀.size := hterm id (hin.isInfix.subset (by simp))
    have hoperand : operand < s₀.size := hterm operand (hin.isInfix.subset (by simp))
    obtain ⟨role', first', second', hk'⟩ : ∃ role' first' second',
        s₀.kind id = .operator symbol role' first' second' := by
      have hr := h.retouched id hid
      rw [Store.kind] at hk ⊢
      generalize s.get id = e at hr hk
      cases hr with
      | same => exact ⟨_, _, _, hk⟩
      | operator hk' => cases hk; exact ⟨_, _, _, hk'⟩
    have hsigned : canBeSigned (s₀.kind operand) = true := by
      have hplain : (s.kind operand).isOperator = false := by
        cases hkind : s.kind operand <;> simp_all [canBeSigned, Kind.isOperator]
      rw [h.isOperator_eq] at hplain
      rw [← h.kind_eq hoperand hplain]
      exact hc.2
    exact step hm (.intro hin hk' hc.1 hsigned) (ih hin.tail.tail)
  | case8 => exact step hm trivial (by simp)
  | case9 => exact step hm trivial (by simp)
  | case10 id rest _ _ _ _ _ ih => exact step hm trivial (ih hin.tail)

/-- A computation that leaves only what can be traced back to the term. -/
def Traces (c : Context) (s₀ : Store) (term : List ElementId) {α : Type} (x : Reducing α) : Prop :=
  ∀ {w : Workspace}, Traced c s₀ term w.store →
    x.Ensures w fun _ w' => Traced c s₀ term w'.store

theorem layout_traced {nested : List ElementId → Reducing ElementId} {parts : List Item}
    (hn : ∀ inner, .nested inner ∈ parts → Traces c s₀ term (nested inner))
    (hp : ∀ part ∈ parts, part.IsIn c.vocabulary s₀ term) (row col : Nat) :
    Traces c s₀ term (layout nested row col parts) := by
  intro w hw
  induction parts generalizing w row col with
  | nil => exact hw
  | cons part parts ih =>
    obtain ⟨hpart, hparts⟩ := List.forall_mem_cons.1 hp
    have ih' := ih (fun inner hm => hn inner (List.mem_cons_of_mem _ hm)) hparts
    have cons : ∀ {id : ElementId} {w' : Workspace}, Traced c s₀ term w'.store →
        (layout nested row (col + 1) parts >>= fun cells => pure (⟨id, row, col⟩ :: cells) :
          Reducing (List Cell)).Ensures w' fun _ w'' => Traced c s₀ term w''.store :=
      fun hw' => ensures_bind (ih' row (col + 1) hw') (fun _ _ h => h) fun _ _ h => h
    cases part with
    | rowEnd =>
      rw [layout]
      split
      · exact ih' _ _ hw
      · exact ih' _ _ hw
    | cell id =>
      rw [layout]
      exact cons hw
    | signed sign operand =>
      rw [layout, ensures_lift_bind, run_foldSign]
      exact cons (hw.signOf operand hpart)
    | nested inner =>
      rw [layout]
      exact ensures_bind (hn inner List.mem_cons_self hw) (fun _ _ h => cons h) fun _ _ h => h
    | unsupported id =>
      rw [layout, ensures_store_bind, ensures_throw]
      exact hw
    | unclosed =>
      rw [layout, ensures_throw]
      exact hw

theorem buildArray_traced (hterm : ∀ id ∈ term, id < s₀.size) {inner : List ElementId}
    (hin : IsLiteral s₀ term inner) : Traces c s₀ term (buildArray c inner) := by
  induction hl : inner.length using Nat.strongRecOn generalizing inner with
  | _ n ih =>
    intro w hw
    obtain ⟨opening, closing, hg, hinfix⟩ := hin
    have hends : EndsLiteral s₀ term inner := ⟨opening, [], closing, hg, hinfix⟩
    have hparts : ∀ part ∈ items c.vocabulary w.store inner, part.IsIn c.vocabulary s₀ term :=
      fun part hm => hw.isIn_of_mem_items hterm hends hm
    rw [buildArray_eq, ensures_store_bind]
    refine ensures_bind (layout_traced (fun nested hm => ?_) hparts 0 0 hw) (fun cells w' h => ?_)
      fun _ _ h => h
    · exact ih _ (hl ▸ length_lt_of_mem_items hm) (hparts _ hm) rfl
    · simp only [ensures_lift_bind, ensures_lift, run_store, run_buildNode,
        Workspace.store_withStore]
      exact h.push (Or.inl rfl)

/-! ## Calls -/

theorem Separated.isInfix {ids piece : List ElementId} {pieces : List (List ElementId)}
    (h : Separated s ids pieces) (hm : piece ∈ pieces) : piece <:+: ids := by
  induction h with
  | last => exact List.mem_singleton.1 hm ▸ List.infix_refl _
  | @comma first rest id pieces hk h ih =>
    rcases List.mem_cons.1 hm with rfl | hm
    · exact (List.prefix_append _ _).isInfix
    · exact List.IsInfix.trans (ih hm) ⟨first ++ [id], [], by simp⟩

theorem mapM_traced {reduce : List ElementId → Reducing ElementId}
    {pieces : List (List ElementId)} (hr : ∀ piece ∈ pieces, Traces c s₀ term (reduce piece)) :
    Traces c s₀ term (pieces.mapM reduce) := by
  intro w hw
  induction pieces generalizing w with
  | nil => exact hw
  | cons piece pieces ih =>
    rw [List.mapM_cons]
    refine ensures_bind (hr piece List.mem_cons_self hw) (fun _ w' h => ?_) fun _ _ h => h
    exact ensures_bind (ih (fun p hp => hr p (List.mem_cons_of_mem _ hp)) h) (fun _ _ h => h)
      fun _ _ h => h

theorem reduceArguments_traced {reduce : List ElementId → Reducing ElementId}
    {inner : List ElementId} (hr : ∀ piece, piece <:+: inner → Traces c s₀ term (reduce piece)) :
    Traces c s₀ term (reduceArguments reduce inner) := by
  intro w hw
  rw [reduceArguments, ensures_store_bind]
  refine mapM_traced (fun piece hm => hr piece ?_) hw
  rw [arguments] at hm
  split at hm
  · cases hm
  · exact (separated_splitArguments w.store 0 inner).isInfix hm

/-- A call adds its node, which is new. -/
theorem buildCall_traced {reduce : List ElementId → Reducing ElementId} {name : String}
    {callee opening closing : ElementId} {wrapped inner : List ElementId}
    (hterm : ∀ id ∈ term, id < s₀.size)
    (hr : ∀ piece, piece <:+: inner → Traces c s₀ term (reduce piece))
    (hw : Wrapped s₀ callee wrapped) (hname : s₀.kind callee = .name name)
    (hg : IsGroup s₀ .parenthesis opening inner closing)
    (hin : wrapped ++ opening :: (inner ++ [closing]) <:+: term) {w : Workspace}
    (h : Traced c s₀ term w.store) :
    (buildCall c reduce callee name inner).Ensures w fun r w' => Traced c s₀ term w'.store ∧
      ∀ node, r = .ok node → s₀.size ≤ node := by
  have hinner : ∀ id ∈ inner, id < s₀.size := fun id hid => hterm id (hin.subset (by simp [hid]))
  have hargs := reduceArguments_traced hr h
  have pushed : ∀ {s' : Store} {e : Element}, Traced c s₀ term s' →
      e.kind.isComposite = true ∨ IsText c s₀ term e →
      Traced c s₀ term (s'.push e) ∧
        ∀ node, (.ok s'.size : Except Fault ElementId) = .ok node → s₀.size ≤ node := by
    intro s' e h he
    refine ⟨h.push he, ?_⟩
    rintro node ⟨⟩
    exact h.size_le
  rw [buildCall, ensures_store_bind]
  split
  · refine ensures_bind hargs (fun indexes w' h => ?_) fun _ _ h => ⟨h, by simp⟩
    exact pushed h (Or.inl rfl)
  · refine ensures_bind hargs (fun arguments w' h => ?_) fun _ _ h => ⟨h, by simp⟩
    exact pushed h (Or.inl rfl)
  · rename_i hcallee
    rw [h.callee_eq] at hcallee
    refine pushed h (Or.inr ?_)
    have htext := IsText.intro (.intro hw hname hcallee hg hin)
    rw [← h.callText_eq hinner] at htext
    exact htext

/-! ## The three passes -/

/-- A root that is a name is all that its part of the term holds. -/
def ReadsName (s : Store) (part : List ElementId) (root : ElementId) : Prop :=
  ∀ name, s.kind root = .name name → Wrapped s root part

theorem readsName_of_size_le {part : List ElementId} {root : ElementId} (h : s.size ≤ root) :
    ReadsName s part root := by
  intro name hname
  rw [Store.kind, get_of_size_le h] at hname
  cases hname

/-- A reduction of a part of the term. -/
def TracesRoot (c : Context) (s₀ : Store) (term part : List ElementId) (x : Reducing ElementId) :
    Prop :=
  ∀ {w : Workspace}, Traced c s₀ term w.store → x.Ensures w fun r w' =>
    Traced c s₀ term w'.store ∧ ∀ root, r = .ok root → ReadsName s₀ part root

/-- The first pass reads a part of the term from left to right.  What it has read
    stands right before the rest. -/
theorem collapseGroups_traced (hterm : ∀ id ∈ term, id < s₀.size) {part rest : List ElementId}
    (hr : ∀ inner : List ElementId, inner.length < part.length → inner <:+: term →
      TracesRoot c s₀ term inner (reduce c inner))
    (hpart : part <:+: term) {slices : List (List ElementId)} {done : List ElementId}
    (hdone : List.Forall₂ (ReadsName s₀) slices done)
    (hrest : slices.reverse.flatten ++ rest = part)
    (hs : Traced c s₀ term s) {w : Workspace} (hw : Traced c s₀ term w.store) :
    (collapseGroups c (reduce c) done (segments s rest)).Ensures w fun r w' =>
      Traced c s₀ term w'.store ∧ ∀ work, r = .ok work →
        ∃ slices, List.Forall₂ (ReadsName s₀) slices work ∧ slices.flatten = part := by
  fun_induction segments s rest generalizing slices done w with
  | case1 =>
    rw [collapseGroups]
    refine ⟨hw, ?_⟩
    rintro work ⟨⟩
    exact ⟨slices.reverse, List.rel_reverse hdone, by simpa using hrest⟩
  | case2 => exact ⟨hw, fun work hwork => by cases hwork⟩
  | case3 => exact ⟨hw, fun work hwork => by cases hwork⟩
  | case4 opening rest g hk inner after hsplit ih =>
    have hlt : ∀ id ∈ opening :: rest, id < s₀.size := fun id hid => by
      refine hterm id (hpart.subset ?_)
      rw [← hrest]
      exact List.mem_append_right _ hid
    obtain ⟨closing, rfl, hg⟩ := hs.isGroup hlt hk hsplit
    have hslice : opening :: (inner ++ [closing]) <:+: term := by
      refine List.IsInfix.trans ⟨slices.reverse.flatten, after, ?_⟩ hpart
      simpa using hrest
    have hinner : inner.length < part.length ∧ inner <:+: term := by
      refine ⟨?_, List.IsInfix.trans ⟨[opening], [closing], by simp⟩ hslice⟩
      have hlength := congrArg List.length hrest
      simp only [List.length_append, List.length_cons] at hlength
      omega
    -- The group becomes one node, together with the slices that it takes in.
    have go : ∀ {kept taken : List (List ElementId)} {done : List ElementId}
        {x : Reducing ElementId}, List.Forall₂ (ReadsName s₀) kept done →
        slices = taken ++ kept → (x.Ensures w fun r w' => Traced c s₀ term w'.store ∧
          ∀ node, r = .ok node →
            ReadsName s₀ (taken.reverse.flatten ++ opening :: (inner ++ [closing])) node) →
        (x >>= fun node => collapseGroups c (reduce c) (node :: done) (segments s after)).Ensures w
          fun r w' => Traced c s₀ term w'.store ∧ ∀ work, r = .ok work →
            ∃ slices, List.Forall₂ (ReadsName s₀) slices work ∧ slices.flatten = part := by
      intro kept taken done x hkept hslices hx
      refine ensures_bind hx (fun node w' h => ?_) fun _ _ h => ⟨h.1, by simp⟩
      refine ih (.cons (h.2 node rfl) hkept) ?_ h.1
      rw [← hrest, hslices]
      simp
    cases g with
    | bracket =>
      rw [collapseGroups]
      refine @go slices [] done _ hdone rfl ?_
      refine (Ensures.and (buildArray_traced hterm ⟨opening, closing, hg, hslice⟩ hw)
        (buildArray_steps c inner w)).imp fun r w' h => ⟨h.1, fun node hnode => ?_⟩
      exact readsName_of_size_le (Nat.le_trans hw.size_le (h.2.2 node hnode).1)
    | parenthesis =>
      have group : TracesRoot c s₀ term (opening :: (inner ++ [closing])) (reduce c inner) := by
        intro w hw
        refine (hr inner hinner.1 hinner.2 hw).imp fun r w' h => ⟨h.1, fun root hroot => ?_⟩
        exact fun name hname => .group hg.opened (h.2 root hroot name hname) hg.closing
      cases hdone with
      | nil =>
        rw [collapseGroups]
        exact @go [] [] [] _ .nil rfl (group hw)
      | @cons slice previous slices done hprevious hdone =>
        rw [collapseGroups, ensures_store_bind]
        split
        · rename_i name hname
          rw [hw.name_iff] at hname
          refine @go slices [slice] done _ hdone rfl ?_
          have hcall : slice ++ opening :: (inner ++ [closing]) <:+: term := by
            refine List.IsInfix.trans ⟨slices.reverse.flatten, after, ?_⟩ hpart
            simpa using hrest
          refine (buildCall_traced hterm (fun piece hpiece w hw => ?_) (hprevious name hname) hname
            hg hcall hw).imp fun r w' h => ⟨h.1, fun node hnode => ?_⟩
          · have hlength := Nat.lt_of_le_of_lt hpiece.length_le hinner.1
            exact (hr piece hlength (List.IsInfix.trans hpiece hinner.2) hw).imp fun _ _ h => h.1
          · exact readsName_of_size_le (h.2 node hnode)
        · exact @go (slice :: slices) [] (previous :: done) _ (.cons hprevious hdone) rfl (group hw)
  | case5 id rest _ _ ih =>
    rw [collapseGroups]
    refine ih (.cons (fun name _ => .name) hdone) ?_ hw
    rw [List.reverse_cons, List.flatten_append]
    simpa using hrest

theorem bindFunctions_traced : ∀ {work : List ElementId} {w : Workspace},
    Traced c s₀ term w.store →
    (bindFunctions work).Ensures w fun r w' => Traced c s₀ term w'.store ∧
      ∀ work', r = .ok work' → work' = work ∨ ∃ id ∈ work', (s₀.kind id).isOperator = true
  | [], w, hw => ⟨hw, by rintro work' ⟨⟩; exact Or.inl rfl⟩
  | [id], w, hw => by
    rw [bindFunctions, ensures_store_bind]
    split
    · rw [ensures_lift_bind, ensures_throw_bind]
      exact ⟨hw, by simp⟩
    · exact ⟨hw, by rintro work' ⟨⟩; exact Or.inl rfl⟩
  | id :: next :: rest, w, hw => by
    rw [bindFunctions, ensures_store_bind]
    split
    · rename_i hp
      rw [ensures_lift_bind, run_giveOperands]
      refine ensures_bind (bindFunctions_traced (hw.withOperands (some next) none hp))
        (fun rest' w' h => ⟨h.1, ?_⟩) fun _ _ h => ⟨h.1, by simp⟩
      rintro work' ⟨⟩
      refine Or.inr ⟨id, List.mem_cons_self, ?_⟩
      rw [← hw.isOperator_eq]
      exact Element.isOperator_of_pendingRole? hp
    · refine ensures_bind (bindFunctions_traced hw) (fun rest' w' h => ⟨h.1, ?_⟩)
        fun _ _ h => ⟨h.1, by simp⟩
      rintro work' ⟨⟩
      rcases h.2 _ rfl with rfl | ⟨x, hx, ho⟩
      · exact Or.inl rfl
      · exact Or.inr ⟨x, List.mem_cons_of_mem _ hx, ho⟩

theorem bindOperators_traced : ∀ {before after : List ElementId} {w : Workspace},
    Traced c s₀ term w.store →
    (bindOperators before after).Ensures w fun r w' => Traced c s₀ term w'.store ∧
      ∀ work, r = .ok work → work = before.reverse ++ after ∨
        ∃ id ∈ work, (s₀.kind id).isOperator = true
  | [], after, w, hw => by
    rw [bindOperators]
    exact ⟨hw, by rintro work ⟨⟩; exact Or.inl rfl⟩
  | id :: before, after, w, hw => by
    rw [bindOperators, ensures_store_bind]
    -- An operator with its operands stays in the list.
    have bound : ∀ {role : Role} {before' after' : List ElementId}
        {first second : Option ElementId}, (w.store.get id).pendingRole? = some role →
        ((bindOperators before' (id :: after')).Ensures
            (w.withStore (w.store.modify id (·.withOperands first second))) fun r w' =>
          Traced c s₀ term w'.store ∧ ∀ work, r = .ok work →
            work = before'.reverse ++ id :: after' ∨
              ∃ id ∈ work, (s₀.kind id).isOperator = true) →
        (bindOperators before' (id :: after')).Ensures
            (w.withStore (w.store.modify id (·.withOperands first second))) fun r w' =>
          Traced c s₀ term w'.store ∧ ∀ work, r = .ok work →
            work = (id :: before).reverse ++ after ∨
              ∃ id ∈ work, (s₀.kind id).isOperator = true := by
      intro role before' after' first second hp h
      refine h.imp fun r w' h => ⟨h.1, fun work hwork => Or.inr ?_⟩
      rcases h.2 work hwork with rfl | hop
      · refine ⟨id, by simp, ?_⟩
        rw [← hw.isOperator_eq]
        exact Element.isOperator_of_pendingRole? hp
      · exact hop
    have failed : (liftM (missingOperand id) >>= fun fault => throw fault :
        Reducing (List ElementId)).Ensures w fun r w' => Traced c s₀ term w'.store ∧
          ∀ work, r = .ok work → work = (id :: before).reverse ++ after ∨
            ∃ id ∈ work, (s₀.kind id).isOperator = true := by
      rw [ensures_lift_bind, ensures_throw]
      exact ⟨hw, by simp⟩
    split
    · rename_i hp
      rw [ensures_lift_bind, run_giveOperands]
      exact bound hp (bindOperators_traced (hw.withOperands _ _ hp))
    · exact failed
    · rename_i hp
      rw [ensures_lift_bind, run_giveOperands]
      exact bound hp (bindOperators_traced (hw.withOperands _ _ hp))
    · exact failed
    · refine (bindOperators_traced hw).imp fun r w' h => ⟨h.1, fun work hwork => ?_⟩
      rw [List.reverse_cons, List.append_assoc, List.singleton_append]
      exact h.2 work hwork

/-! ## Terms -/

/-- **A reduction leaves only what can be traced back to its term**, whether it
    succeeds or fails. -/
theorem reduce_traced (hterm : ∀ id ∈ term, id < s₀.size) {part : List ElementId}
    (hpart : part <:+: term) : TracesRoot c s₀ term part (reduce c part) := by
  induction hl : part.length using Nat.strongRecOn generalizing part with
  | _ n ih =>
    intro w hw
    rw [reduce_eq]
    apply ensures_releasing
    have failed : ∀ {w' : Workspace} {fault : Fault}, Traced c s₀ term w'.store →
        Traced c s₀ term (w'.withStore (w'.store.release part)).store ∧
          ∀ root, (.error fault : Except Fault ElementId) = .ok root → ReadsName s₀ part root :=
      fun h => ⟨h.release part, by simp⟩
    rw [runPasses]
    split
    · rw [ensures_throw_bind]
      exact failed hw
    rw [ensures_store_bind]
    refine ensures_bind (collapseGroups_traced hterm
      (fun inner hlt hinner => ih _ (hl ▸ hlt) hinner rfl) hpart .nil rfl hw hw)
      (fun work w₁ h₁ => ?_) fun _ _ h => failed h.1
    refine ensures_bind (bindFunctions_traced h₁.1) (fun work' w₂ h₂ => ?_)
      fun _ _ h => failed h.1
    refine ensures_bind (bindOperators_traced h₂.1) (fun out w₃ h₃ => ?_) fun _ _ h => failed h.1
    split
    · rename_i root
      rw [ensures_store_bind]
      split
      · refine ⟨h₃.1, ?_⟩
        rintro root' ⟨⟩ name hname
        -- A list with an operator is not just a name.
        have hnone : ¬ ∃ id ∈ [root], (s₀.kind id).isOperator = true := by
          simp [hname, Kind.isOperator]
        have hout : work' = [root] := by
          have := (h₃.2 _ rfl).resolve_right hnone
          simpa using this.symm
        subst hout
        obtain rfl := (h₂.2 _ rfl).resolve_right hnone
        obtain ⟨slices, hreads, hflatten⟩ := h₁.2 _ rfl
        cases hreads with
        | cons hread hnil =>
          cases hnil
          rw [← hflatten, List.flatten_cons, List.flatten_nil, List.append_nil]
          exact hread name hname
      · exact failed h₃.1
    · exact failed h₃.1

end Term

end FormulaSheet
