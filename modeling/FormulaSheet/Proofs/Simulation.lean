/-
  Reading under a renaming: from corresponding stores the same lines do the same.

  * `x.Tracks ρ n f x' w w'`: run from `w` and `w'`, both computations end alike,
    with results that correspond by `f` and with stores that are renamed by `ρ`.
    The elements of the line that is read start at `n`.  What they note does not
    matter.
  * Every part of a reduction tracks itself.  Only the check of a finished tree
    looks at the size of the store, and on trees that share nothing its depth
    does not matter (`unfinished?_rename`); so reductions are followed along the
    pool of the first run.
  * `read_agree`: reading a line adds corresponding elements.
-/
import FormulaSheet.Proofs.Closed
import Mathlib.Data.List.Nodup

namespace FormulaSheet

open Store

variable {α β : Type} {ρ : Renaming} {n : Nat}

/-! ## Two runs -/

namespace Reducing

/-- If the reduction has failed, the source texts in its fault are as all others. -/
def TextsOf (ρ : Renaming) (r : Except Fault α) : Prop :=
  ∀ fault, r = .error fault → ∀ text ∈ fault.texts, ρ.text text

theorem textsOf_ok (a : α) : TextsOf ρ (.ok a) := by
  rintro _ ⟨⟩

/-- The two computations end alike, up to the renaming. -/
def Tracks (ρ : Renaming) (n : Nat) (f : α → α) (x x' : Reducing α) (w w' : Workspace) : Prop :=
  x.Ensures w fun r v => x'.Ensures w' fun r' v' =>
    r' = r.map f ∧ TextsOf ρ r ∧ v.store.Renames ρ n v'.store

variable {f : α → α} {x x' : Reducing α} {w w' : Workspace}

theorem tracks_pure {a a' : α} (ha : a' = f a) (hs : w.store.Renames ρ n w'.store) :
    Tracks ρ n f (pure a) (pure a') w w' :=
  ⟨congrArg Except.ok ha, textsOf_ok a, hs⟩

theorem tracks_throw {fault fault' : Fault} (hf : fault' = fault)
    (ht : ∀ text ∈ fault.texts, ρ.text text) (hs : w.store.Renames ρ n w'.store) :
    Tracks ρ n f (throw fault) (throw fault') w w' := by
  refine ⟨congrArg Except.error hf, ?_, hs⟩
  rintro _ ⟨⟩
  exact ht

/-- A fault without text. -/
theorem tracks_throw_of_texts {fault : Fault} (ht : fault.texts = [])
    (hs : w.store.Renames ρ n w'.store) : Tracks ρ n f (throw fault) (throw fault) w w' :=
  tracks_throw rfl (by simp [ht]) hs

@[simp] theorem tracks_store_bind {g g' : Store → Reducing α} :
    Tracks ρ n f (liftM Building.store >>= g) (liftM Building.store >>= g') w w' ↔
      Tracks ρ n f (g w.store) (g' w'.store) w w' :=
  Iff.rfl

/-- Steps that cannot fail are just run. -/
theorem tracks_lift_bind {b b' : Building β} {g g' : β → Reducing α} :
    Tracks ρ n f (liftM b >>= g) (liftM b' >>= g') w w' ↔
      Tracks ρ n f (g (StateT.run b w).1) (g' (StateT.run b' w').1) (StateT.run b w).2
        (StateT.run b' w').2 :=
  Iff.rfl

theorem tracks_lift {b b' : Building α} (h : (StateT.run b' w').1 = f (StateT.run b w).1)
    (hs : (StateT.run b w).2.store.Renames ρ n (StateT.run b' w').2.store) :
    Tracks ρ n f (liftM b) (liftM b') w w' :=
  ⟨congrArg Except.ok h, textsOf_ok _, hs⟩

/-- The order of the two runs does not matter. -/
theorem ensures_comm {y : Reducing β} {Q : Except Fault α → Workspace → Except Fault β →
    Workspace → Prop} : (x.Ensures w fun r v => y.Ensures w' fun r' v' => Q r v r' v') ↔
      y.Ensures w' fun r' v' => x.Ensures w fun r v => Q r v r' v' :=
  Iff.rfl

/-- What holds after the first part of one run can be used for the second. -/
theorem Tracks.bind {g g' : α → Reducing β} {f' : β → β} {P : α → Workspace → Prop}
    (hx : Tracks ρ n f x x' w w') (hP : x.Returns w P)
    (hg : ∀ a v v', P a v → v.store.Renames ρ n v'.store → Tracks ρ n f' (g a) (g' (f a)) v v') :
    Tracks ρ n f' (x >>= g) (x' >>= g') w w' := by
  refine ensures_bind (hx.and hP) ?_ ?_
  · rintro a v ⟨hx, hP⟩
    refine ensures_comm.2 (ensures_bind hx ?_ ?_)
    · rintro _ v' ⟨⟨⟩, -, hs⟩
      exact ensures_comm.1 (hg a v v' (hP a rfl) hs)
    · rintro _ v' ⟨⟨⟩, -⟩
  · rintro fault v ⟨hx, -⟩
    refine ensures_bind hx ?_ ?_
    · rintro _ v' ⟨⟨⟩, -⟩
    · rintro _ v' ⟨⟨⟩, ht, hs⟩
      refine ⟨rfl, ?_, hs⟩
      rintro _ ⟨⟩
      exact ht fault rfl

theorem returns_true : x.Returns w fun _ _ => True :=
  fun _ _ => trivial

end Reducing

namespace Building

/-- The two computations end alike, up to the renaming. -/
def Tracks (ρ : Renaming) (n : Nat) (f : α → α) (x x' : Building α) (w w' : Workspace) : Prop :=
  x.Ensures w fun a v => x'.Ensures w' fun a' v' => a' = f a ∧ v.store.Renames ρ n v'.store

variable {f : α → α} {w w' : Workspace}

theorem tracks_run {x x' : Reducing α} (h : Reducing.Tracks ρ n f x x' w w') :
    Tracks ρ n (Except.map f) x.run x'.run w w' :=
  ⟨h.1, h.2.2⟩

theorem ensures_textsOf {x x' : Reducing α} (h : Reducing.Tracks ρ n f x x' w w') :
    x.run.Ensures w fun r _ => Reducing.TextsOf ρ r :=
  h.2.1

/-- What holds after the first parts of both runs can be used for the second ones. -/
theorem ensures_bind_both {x x' : Building α} {g g' : α → Building β}
    {R : α → Workspace → Workspace → Prop} {Q : β → Workspace → β → Workspace → Prop}
    (hx : x.Ensures w fun a v => x'.Ensures w' fun a' v' => a' = f a ∧ R a v v')
    (hg : ∀ a v v', R a v v' →
      (g a).Ensures v fun b u => (g' (f a)).Ensures v' fun b' u' => Q b u b' u') :
    (x >>= g).Ensures w fun b u => (x' >>= g').Ensures w' fun b' u' => Q b u b' u' := by
  obtain ⟨ha, hR⟩ := hx
  have h := hg (StateT.run x w).1 (StateT.run x w).2 (StateT.run x' w').2 hR
  rw [← show (StateT.run x' w').1 = f (StateT.run x w).1 from ha] at h
  exact h

theorem Tracks.bind {x x' : Building α} {g g' : α → Building β} {f' : β → β}
    {P : α → Workspace → Prop} (hx : Tracks ρ n f x x' w w') (hP : x.Ensures w P)
    (hg : ∀ a v v', P a v → v.store.Renames ρ n v'.store →
      Tracks ρ n f' (g a) (g' (f a)) v v') :
    Tracks ρ n f' (x >>= g) (x' >>= g') w w' :=
  ensures_bind_both (R := fun a v v' => P a v ∧ v.store.Renames ρ n v'.store)
    ⟨hx.1, hP, hx.2⟩ fun a v v' h => hg a v v' h.1 h.2

theorem ensures_comm {x : Building α} {y : Building β} {Q : α → Workspace → β → Workspace → Prop} :
    (x.Ensures w fun a v => y.Ensures w' fun b v' => Q a v b v') ↔
      y.Ensures w' fun b v' => x.Ensures w fun a v => Q a v b v' :=
  Iff.rfl

theorem ensures_forall {x : Building α} {P : β → α → Workspace → Prop}
    (h : ∀ b, x.Ensures w (P b)) : x.Ensures w fun a v => ∀ b, P b a v :=
  h

theorem ensures_true {x : Building α} : x.Ensures w fun _ _ => True :=
  trivial

end Building

namespace Term

open Building Reducing

variable {c c' : Context} {w w' : Workspace}

theorem tracks_releasing {f : α → α} {x x' : Reducing α} {term : List ElementId}
    (h : Reducing.Tracks ρ n f x x' w w') :
    Reducing.Tracks ρ n f (releasing term x) (releasing (term.map ρ) x') w w' := by
  refine ensures_releasing (Reducing.Ensures.imp h fun r v hx => ?_)
  cases r with
  | ok a =>
    refine ensures_releasing (hx.imp ?_)
    rintro _ v' ⟨rfl, h⟩
    exact ⟨rfl, h⟩
  | error fault =>
    refine ensures_releasing (hx.imp ?_)
    rintro _ v' ⟨rfl, ht, hs⟩
    exact ⟨rfl, ht, hs.release term⟩

/-- New nodes correspond. -/
theorem tracks_buildNode (hc : c.Renames ρ c') (hs : w.store.Renames ρ n w'.store) (kind : Kind)
    (hk : kind.texts = []) {raw raw' : String} (hraw : raw' = raw ∧ ρ.text raw) :
    Reducing.Tracks ρ n ρ (liftM (buildNode c kind raw))
      (liftM (buildNode c' (kind.rename ρ) raw')) w w' := by
  refine ⟨congrArg Except.ok hs.size_eq.symm, textsOf_ok _, hs.push ?_⟩
  exact ⟨rfl, by simp [hk], fun _ => hraw, rfl, rfl, hc.line⟩

/-! ## Array literals -/

theorem layout_tracks {nested nested' : List ElementId → Reducing ElementId} {parts : List Item}
    (hn : ∀ inner, .nested inner ∈ parts → ∀ w w' : Workspace, w.store.Renames ρ n w'.store →
      Reducing.Tracks ρ n ρ (nested inner) (nested' (inner.map ρ)) w w')
    (hu : ∀ id, .unsupported id ∈ parts → n ≤ id) (row col : Nat)
    (hs : w.store.Renames ρ n w'.store) :
    Reducing.Tracks ρ n (List.map (Cell.rename ρ)) (layout nested row col parts)
      (layout nested' row col (parts.map (Item.rename ρ))) w w' := by
  induction parts generalizing w w' row col with
  | nil => exact tracks_pure rfl hs
  | cons part parts ih =>
    have ih' := fun {v v' : Workspace} => @ih v v'
      (fun inner hm => hn inner (List.mem_cons_of_mem _ hm))
      (fun id hm => hu id (List.mem_cons_of_mem _ hm))
    have rest : ∀ (id : ElementId) {v v' : Workspace}, v.store.Renames ρ n v'.store →
        Reducing.Tracks ρ n (List.map (Cell.rename ρ))
          (layout nested row (col + 1) parts >>= fun cells => pure (⟨id, row, col⟩ :: cells))
          (layout nested' row (col + 1) (parts.map (Item.rename ρ)) >>= fun cells =>
            pure (⟨ρ id, row, col⟩ :: cells)) v v' := by
      intro id v v' hs
      exact (ih' row (col + 1) hs).bind returns_true fun cells _ _ _ hs => tracks_pure rfl hs
    rw [List.map_cons]
    cases part with
    | rowEnd =>
      rw [Item.rename, layout, layout]
      split
      · exact ih' row col hs
      · exact ih' (row + 1) 0 hs
    | cell id =>
      rw [Item.rename, layout, layout]
      exact rest id hs
    | signed sign operand =>
      rw [Item.rename, layout, layout, tracks_lift_bind, run_foldSign, run_foldSign]
      exact rest sign (hs.modify (fun he => he.signOf operand) sign)
    | nested inner =>
      rw [Item.rename, layout, layout]
      exact (hn inner List.mem_cons_self w w' hs).bind returns_true fun id _ _ _ hs => rest id hs
    | unsupported id =>
      obtain ⟨hraw, htext⟩ := hs.raw (hu id List.mem_cons_self)
      rw [Item.rename, layout, layout, tracks_store_bind]
      exact tracks_throw (by rw [hraw]) (by simpa [Fault.texts] using htext) hs
    | unclosed =>
      rw [Item.rename, layout, layout]
      exact tracks_throw_of_texts rfl hs

theorem buildArray_tracks (hc : c.Renames ρ c') {inner : List ElementId}
    (hi : ∀ id ∈ inner, n ≤ id) (hs : w.store.Renames ρ n w'.store) :
    Reducing.Tracks ρ n ρ (buildArray c inner) (buildArray c' (inner.map ρ)) w w' := by
  have hP := ρ.joinable
  induction hl : inner.length using Nat.strongRecOn generalizing inner w w' with
  | _ length ih =>
    rw [buildArray_eq, buildArray_eq, tracks_store_bind, hc.vocabulary, items_rename hs]
    refine (layout_tracks (fun nested hm _ _ hs => ?_) (fun id hm => hi id (mem_of_unsupported hm))
      0 0 hs).bind returns_true fun cells v v' _ hs => ?_
    · exact ih _ (hl ▸ length_lt_of_mem_items hm) (fun id hid => hi id (subset_of_nested hm hid)) hs
        rfl
    · rw [tracks_store_bind]
      obtain ⟨hraw, htext⟩ := hs.rawText (hP.fixed " " (by simp)) hi
      refine tracks_buildNode hc hs (.array cells) rfl ⟨by rw [hraw], ?_⟩
      exact hP.append (hP.append (hP.fixed _ (by simp)) htext) (hP.fixed _ (by simp))

/-! ## Calls -/

theorem le_of_pool {s₀ s : Store} {P : Element → Prop} {term fresh roots : List ElementId}
    (h : Pool s₀ s P (n ≤ ·) (term ++ fresh) roots) : ∀ id ∈ term, n ≤ id :=
  fun _ hid => h.of_mem_fresh (List.mem_append_left _ hid)

/-- The reduction of `term` is followed from every pool that it is part of. -/
def Follows (ρ : Renaming) (n : Nat) (x x' : Reducing ElementId) (term : List ElementId) : Prop :=
  ∀ {s₀ : Store} {w w' : Workspace} {fresh roots : List ElementId},
    Pool s₀ w.store Element.Shaped (n ≤ ·) (term ++ fresh) roots →
      w.store.Renames ρ n w'.store → Reducing.Tracks ρ n ρ x x' w w'

variable {reduce reduce' : List ElementId → Reducing ElementId} {s₀ : Store}
  {fresh roots : List ElementId}

theorem mapM_tracks {pieces : List (List ElementId)}
    (hr : ∀ piece ∈ pieces, Yields Element.Shaped (n ≤ ·) (reduce piece) piece ∧
      Follows ρ n (reduce piece) (reduce' (piece.map ρ)) piece)
    (h : Pool s₀ w.store Element.Shaped (n ≤ ·) (pieces.flatten ++ fresh) roots)
    (hs : w.store.Renames ρ n w'.store) :
    Reducing.Tracks ρ n (List.map ρ) (pieces.mapM reduce) ((pieces.map (List.map ρ)).mapM reduce')
      w w' := by
  induction pieces generalizing w w' roots with
  | nil => exact tracks_pure rfl hs
  | cons piece pieces ih =>
    rw [List.flatten_cons, List.append_assoc] at h
    obtain ⟨⟨hyields, hfollows⟩, hrest⟩ := List.forall_mem_cons.1 hr
    rw [List.map_cons, List.mapM_cons, List.mapM_cons]
    refine (hfollows h hs).bind (hyields h) fun id v v' h hs => ?_
    exact (ih hrest h hs).bind returns_true fun ids _ _ _ hs => tracks_pure rfl hs

theorem reduceArguments_tracks {inner : List ElementId}
    (hr : ∀ term : List ElementId, term.length ≤ inner.length →
      Yields Element.Shaped (n ≤ ·) (reduce term) term ∧
        Follows ρ n (reduce term) (reduce' (term.map ρ)) term)
    (h : Pool s₀ w.store Element.Shaped (n ≤ ·) (inner ++ fresh) roots)
    (hs : w.store.Renames ρ n w'.store) :
    Reducing.Tracks ρ n (List.map ρ) (reduceArguments reduce inner)
      (reduceArguments reduce' (inner.map ρ)) w w' := by
  rw [reduceArguments, reduceArguments, tracks_store_bind, arguments_rename hs]
  have hsub := (flatten_arguments_sublist w.store inner).subperm.append (List.Subperm.refl fresh)
  exact mapM_tracks (fun piece hp => hr piece (length_le_of_mem_arguments hp))
    (h.sub hsub (List.Subperm.refl roots)) hs

theorem buildCall_tracks (hc : c.Renames ρ c') {inner : List ElementId}
    (hr : ∀ term : List ElementId, term.length ≤ inner.length →
      Yields Element.Shaped (n ≤ ·) (reduce term) term ∧
        Follows ρ n (reduce term) (reduce' (term.map ρ)) term)
    (id : ElementId) {name : String} (hname : ρ.text name)
    (h : Pool s₀ w.store Element.Shaped (n ≤ ·) (inner ++ fresh) roots)
    (hs : w.store.Renames ρ n w'.store) :
    Reducing.Tracks ρ n ρ (buildCall c reduce id name inner)
      (buildCall c' reduce' (ρ id) name (inner.map ρ)) w w' := by
  have hargs := reduceArguments_tracks hr h hs
  have hi := le_of_pool h
  rw [buildCall, buildCall, tracks_store_bind, callee_rename hs hc]
  cases callee c w.store name with
  | indexed =>
    refine hargs.bind returns_true fun indexes v v' _ hs => ?_
    rw [tracks_store_bind]
    exact tracks_buildNode hc hs (.access id indexes) rfl (callText_rename hs hname hi)
  | function f =>
    refine hargs.bind returns_true fun arguments v v' _ hs => ?_
    rw [tracks_lift_bind, run_note, run_note, tracks_store_bind]
    exact tracks_buildNode hc hs (.call f arguments) rfl (callText_rename hs hname hi)
  | unresolved =>
    dsimp only [Callee.rename]
    rw [tracks_lift_bind, run_note, run_note, tracks_store_bind]
    exact tracks_buildNode hc hs .passThrough rfl (callText_rename hs hname hi)

/-! ## The three passes -/

theorem collapseGroups_tracks (hc : c.Renames ρ c') {length : Nat}
    (hr : ∀ inner : List ElementId, inner.length < length →
      Yields Element.Shaped (n ≤ ·) (reduce inner) inner ∧
        Follows ρ n (reduce inner) (reduce' (inner.map ρ)) inner)
    {parts : List Segment}
    (hp : ∀ group inner, .group group inner ∈ parts → inner.length < length)
    (done : List ElementId)
    (h : Pool s₀ w.store Element.Shaped (n ≤ ·) (parts.flatMap Segment.ids ++ fresh)
      (done ++ roots))
    (hs : w.store.Renames ρ n w'.store) :
    Reducing.Tracks ρ n (List.map ρ) (collapseGroups c reduce done parts)
      (collapseGroups c' reduce' (done.map ρ) (parts.map (Segment.rename ρ))) w w' := by
  induction parts generalizing w w' done with
  | nil =>
    rw [List.map_nil, collapseGroups, collapseGroups]
    exact tracks_pure (by rw [List.map_reverse]) hs
  | cons part parts ih =>
    rw [List.flatMap_cons, List.append_assoc] at h
    rw [List.map_cons]
    have ih' := fun {v v' : Workspace} =>
      @ih v v' fun group inner hm => hp group inner (List.mem_cons_of_mem _ hm)
    cases part with
    | single id =>
      rw [Segment.rename, collapseGroups, collapseGroups]
      exact ih' (id :: done) (h.take (h.tokens id List.mem_cons_self).2.shaped) hs
    | unmatched group =>
      rw [Segment.rename, collapseGroups, collapseGroups]
      exact tracks_throw_of_texts rfl hs
    | group group inner =>
      have hlt := hp group inner List.mem_cons_self
      rw [Segment.rename]
      cases group with
      | bracket =>
        rw [collapseGroups, collapseGroups]
        exact (buildArray_tracks hc (le_of_pool h) hs).bind
          (buildArray_pool (fun _ => Element.Complete.shaped) inner h)
          fun node _ _ h hs => ih' (node :: done) h hs
      | parenthesis =>
        obtain ⟨hyields, hfollows⟩ := hr inner hlt
        cases done with
        | nil =>
          rw [List.map_nil, collapseGroups, collapseGroups]
          exact (hfollows h hs).bind (hyields h) fun node _ _ h hs => ih' [node] h hs
        | cons previous done =>
          rw [List.map_cons, collapseGroups, collapseGroups, tracks_store_bind, hs.kind]
          cases hk : w.store.kind previous with
          | name name =>
            have hname : ρ.text name := by
              have := (hs.get previous).texts name
              rw [← Store.kind, hk] at this
              exact this List.mem_cons_self
            have hshorter := fun (term : List ElementId) (ht : term.length ≤ inner.length) =>
              hr term (Nat.lt_of_le_of_lt ht hlt)
            refine (buildCall_tracks hc hshorter previous hname h hs).bind
              (buildCall_pool (c := c) (fun _ => Element.Complete.shaped)
                (fun term ht => (hshorter term ht).1) previous name h) ?_
            exact fun node _ _ h hs => ih' (node :: done) h hs
          | _ => exact (hfollows h hs).bind (hyields h) fun node _ _ h hs =>
              ih' (node :: previous :: done) h hs

theorem tracks_missingOperand {f : α → α} {id : ElementId} (hs : w.store.Renames ρ n w'.store)
    (h : (w.store.get id).pendingRole?.isSome) :
    Reducing.Tracks ρ n f (liftM (missingOperand id) >>= fun fault => throw fault)
      (liftM (missingOperand (ρ id)) >>= fun fault => throw fault) w w' := by
  obtain ⟨hraw, htext⟩ := hs.raw_of_pendingRole? h
  exact tracks_throw (congrArg Fault.missingOperand hraw) (by simpa [Fault.texts] using htext) hs

theorem bindFunctions_tracks : ∀ (work : List ElementId) {w w' : Workspace},
    w.store.Renames ρ n w'.store →
      Reducing.Tracks ρ n (List.map ρ) (bindFunctions work) (bindFunctions (work.map ρ)) w w'
  | [], w, w', hs => tracks_pure rfl hs
  | [id], w, w', hs => by
    rw [List.map_cons, List.map_nil, bindFunctions, bindFunctions, tracks_store_bind,
      (hs.get id).pendingRole?]
    split
    · exact tracks_missingOperand hs (by simp [*])
    · exact tracks_pure rfl hs
  | id :: next :: rest, w, w', hs => by
    rw [List.map_cons, List.map_cons, bindFunctions, bindFunctions, tracks_store_bind,
      (hs.get id).pendingRole?]
    split
    · rw [tracks_lift_bind, run_giveOperands, run_giveOperands]
      have hs' := hs.modify (fun he => he.withOperands (some next) none) id
      exact (bindFunctions_tracks rest hs').bind returns_true fun _ _ _ _ hs => tracks_pure rfl hs
    · exact (bindFunctions_tracks (next :: rest) hs).bind returns_true fun _ _ _ _ hs =>
        tracks_pure rfl hs

theorem bindOperators_tracks : ∀ (before after : List ElementId) {w w' : Workspace},
    w.store.Renames ρ n w'.store →
      Reducing.Tracks ρ n (List.map ρ) (bindOperators before after)
        (bindOperators (before.map ρ) (after.map ρ)) w w'
  | [], after, w, w', hs => by
    rw [List.map_nil, bindOperators, bindOperators]
    exact tracks_pure rfl hs
  | id :: before, after, w, w', hs => by
    rw [List.map_cons, bindOperators, bindOperators, tracks_store_bind, (hs.get id).pendingRole?]
    have given := fun first second => hs.modify (fun he => he.withOperands first second) id
    cases hrole : (w.store.get id).pendingRole? with
    | none => exact bindOperators_tracks before (id :: after) hs
    | some role =>
      have hmissing : (w.store.get id).pendingRole?.isSome := by rw [hrole]; rfl
      cases role with
      | function => exact bindOperators_tracks before (id :: after) hs
      | sign =>
        cases after with
        | nil => exact tracks_missingOperand hs hmissing
        | cons operand after =>
          exact bindOperators_tracks before (id :: after) (given (some operand) none)
      | binary =>
        cases before with
        | nil => exact tracks_missingOperand hs hmissing
        | cons left before =>
          cases after with
          | nil => exact tracks_missingOperand hs hmissing
          | cons right after =>
            exact bindOperators_tracks before (id :: after) (given (some left) (some right))

/-! ## Terms -/

/-- Once it is deeper than the tree, the depth of the check does not matter. -/
theorem unfinishedWithin_of_forest {s : Store} {roots all : List ElementId}
    (h : Forest s roots all) {depth depth' : Nat} (hd : all.length ≤ depth)
    (hd' : all.length ≤ depth') :
    ∀ id ∈ roots, unfinishedWithin s depth id = unfinishedWithin s depth' id := by
  induction h generalizing depth depth' with
  | nil => simp
  | @cons id roots below rest hb hr ihb ihr =>
    simp only [List.length_cons, List.length_append] at hd hd'
    refine List.forall_mem_cons.2 ⟨?_, ihr (by omega) (by omega)⟩
    obtain ⟨depth, rfl⟩ : ∃ d, depth = d + 1 := ⟨depth - 1, by omega⟩
    obtain ⟨depth', rfl⟩ : ∃ d, depth' = d + 1 := ⟨depth' - 1, by omega⟩
    have hchildren : (s.kind id).children.reverse.findSome? (unfinishedWithin s depth) =
        (s.kind id).children.reverse.findSome? (unfinishedWithin s depth') :=
      findSome?_congr fun child hm =>
        ihb (by omega) (by omega) child (List.mem_reverse.1 hm)
    rw [unfinishedWithin, unfinishedWithin]
    split
    · rfl
    split
    · rfl
    split
    · rfl
    · exact hchildren

/-- The check of a tree of the pool finds the same in both stores. -/
theorem unfinished?_rename {s s' : Store} (hs : s.Renames ρ n s') {root : ElementId}
    (h : Pool s₀ s Element.Shaped (n ≤ ·) fresh (root :: roots)) :
    unfinished? s' (ρ root) = unfinished? s root ∧
      ∀ fault, unfinished? s root = some fault → ∀ text ∈ fault.texts, ρ.text text := by
  obtain ⟨all, hall, hn, hA, -⟩ := h.trees
  have hnodup := (List.nodup_append.1 hn).2.1
  have hlt : ∀ id ∈ all, id < s.size := fun id hid => (hA id (List.mem_append_right _ hid)).1
  have hlen : all.length ≤ s.size := by
    have hsub : all ⊆ List.range s.size := fun id hid => List.mem_range.2 (hlt id hid)
    have := (List.subperm_of_subset hnodup hsub).length_le
    rwa [List.length_range] at this
  have hlen' : all.length ≤ s'.size := by
    have hsub : all.map ρ ⊆ List.range s'.size := by
      intro id' hid'
      obtain ⟨id, hid, rfl⟩ := List.mem_map.1 hid'
      exact List.mem_range.2 ((hs.lt_size_iff id).2 (hlt id hid))
    have := (List.subperm_of_subset (List.Nodup.map ρ.injective hnodup) hsub).length_le
    rwa [List.length_range, List.length_map] at this
  refine ⟨?_, (unfinishedWithin_rename hs _ root).2⟩
  rw [unfinished?, unfinished?, (unfinishedWithin_rename hs _ root).1]
  exact unfinishedWithin_of_forest hall (Nat.le_succ_of_le hlen') (Nat.le_succ_of_le hlen) root
    List.mem_cons_self

/-- **Terms are reduced alike.** -/
theorem reduce_tracks (hc : c.Renames ρ c') (term : List ElementId) :
    Follows ρ n (Term.reduce c term) (Term.reduce c' (term.map ρ)) term := by
  induction hl : term.length using Nat.strongRecOn generalizing term with
  | _ length ih =>
    intro s₀ w w' fresh roots h hs
    rw [reduce_eq, reduce_eq]
    apply tracks_releasing
    rw [runPasses, runPasses, List.isEmpty_map]
    split
    · exact tracks_throw_of_texts rfl hs
    rw [tracks_store_bind, segments_rename hs]
    have hparts : Pool s₀ w.store Element.Shaped (n ≤ ·)
        ((segments w.store term).flatMap Segment.ids ++ fresh) ([] ++ roots) :=
      h.sub ((ids_segments_sublist w.store term).subperm.append (List.Subperm.refl _))
        (List.Subperm.refl roots)
    have hinner : ∀ inner : List ElementId, inner.length < term.length →
        Yields Element.Shaped (n ≤ ·) (Term.reduce c inner) inner ∧
          Follows ρ n (Term.reduce c inner) (Term.reduce c' (inner.map ρ)) inner :=
      fun inner hi => ⟨fun h => (reduce_checked inner h).imp fun _ _ h => h.1,
        ih _ (hl ▸ hi) inner rfl⟩
    have hlt := fun group inner (hm : .group group inner ∈ segments w.store term) =>
      length_lt_of_mem_segments hm
    refine (collapseGroups_tracks hc hinner hlt [] hparts hs).bind
      (collapseGroups_pool (fun inner hi => (hinner inner hi).1) hlt hparts) fun work _ _ h hs => ?_
    refine (bindFunctions_tracks work hs).bind (bindFunctions_pool h) fun work _ _ h hs => ?_
    have hreversed := h.perm (work.reverse_perm.symm.append_right roots)
    rw [← List.map_reverse]
    refine (bindOperators_tracks work.reverse [] hs).bind (bindOperators_pool hreversed)
      fun out v v' h hs => ?_
    cases out with
    | nil => exact tracks_throw_of_texts rfl hs
    | cons root out =>
      cases out with
      | nil =>
        show Reducing.Tracks ρ n ρ (liftM store >>= _) (liftM store >>= _) v v'
        obtain ⟨heq, htexts⟩ := unfinished?_rename hs h
        rw [tracks_store_bind, heq]
        split
        · exact tracks_pure rfl hs
        · rename_i fault hf
          exact tracks_throw rfl (htexts fault hf) hs
      | cons next out => exact tracks_throw (by simp) (by simp [Fault.texts]) hs

theorem buildError_tracks (hc : c.Renames ρ c') {fault : Fault}
    (hf : ∀ text ∈ fault.texts, ρ.text text) {ids : List ElementId} (hi : ∀ id ∈ ids, n ≤ id)
    (hs : w.store.Renames ρ n w'.store) :
    Building.Tracks ρ n ρ (buildError c fault ids) (buildError c' fault (ids.map ρ)) w w' := by
  refine ⟨hs.size_eq.symm, hs.push ⟨rfl, hf, fun _ => ?_, rfl, rfl, hc.line⟩⟩
  exact hs.rawText (ρ.joinable.fixed " " (by simp)) hi

theorem reduceOrError_tracks (hc : c.Renames ρ c') {term : List ElementId}
    (h : Pool s₀ w.store Element.Shaped (n ≤ ·) (term ++ fresh) roots)
    (hs : w.store.Renames ρ n w'.store) :
    Building.Tracks ρ n ρ (reduceOrError c term) (reduceOrError c' (term.map ρ)) w w' := by
  have hreduce := reduce_tracks hc term h hs
  rw [reduceOrError, reduceOrError]
  refine (tracks_run hreduce).bind (ensures_textsOf hreduce) fun r v v' hf hs => ?_
  cases r with
  | ok root => exact ⟨rfl, hs⟩
  | error fault => exact buildError_tracks hc (hf fault rfl) (le_of_pool h) hs

/-! ## Functions -/

theorem withBody_like {known : Prop} {e e' : Element} (h : e.Like ρ known e') (body : ElementId) :
    (Term.withBody body e).Like ρ known (Term.withBody (ρ body) e') := by
  obtain ⟨raw', line', rfl⟩ := h.eq
  obtain ⟨kind, raw, line, isSealed, owner⟩ := e
  cases kind <;> exact ⟨rfl, h.texts, h.raw, rfl, rfl, h.line⟩

theorem opened_renames {s s' : Store} (hs : s.Renames ρ n s') (body : List ElementId) :
    (opened s body).Renames ρ n (opened s' (body.map ρ)) := by
  cases body with
  | nil => exact hs
  | cons first rest => exact hs.modify (fun he => he.openingSign) first

theorem filterMap_name?_rename {s s' : Store} (hs : s.Renames ρ n s') (ids : List ElementId) :
    ((ids.map ρ).filterMap fun id => (s'.kind id).name?) =
      ids.filterMap fun id => (s.kind id).name? := by
  rw [List.filterMap_map]
  refine congrArg (List.filterMap · ids) (funext fun id => ?_)
  rw [Function.comp_apply, hs.kind, Kind.name?_rename]

theorem text_of_name? {s s' : Store} (hs : s.Renames ρ n s') {id : ElementId} {name : String}
    (h : (s.kind id).name? = some name) : ρ.text name := by
  refine (hs.get id).texts name ?_
  rw [← Store.kind]
  cases hk : s.kind id with
  | name other =>
    rw [hk] at h
    obtain rfl : other = name := Option.some.inj h
    exact List.mem_cons_self
  | _ => simp [hk, Kind.name?] at h

theorem functionNode_like (hc : c.Renames ρ c') {s s' : Store} (hs : s.Renames ρ n s')
    (inner : List ElementId) {known : Prop} :
    (functionNode c s inner).Like ρ known (functionNode c' s' (inner.map ρ)) := by
  have hP := ρ.joinable
  refine ⟨?_, by simp [functionNode, Kind.texts], fun _ => ⟨?_, ?_⟩, rfl, rfl, hc.line⟩
  · have hfilter : ((inner.map ρ).filter fun id => (s'.kind id).name?.isSome) =
        (inner.filter fun id => (s.kind id).name?.isSome).map ρ := by
      rw [List.filter_map]
      refine congrArg (fun p => (inner.filter p).map ρ) (funext fun id => ?_)
      rw [Function.comp_apply, hs.kind, Kind.name?_rename]
    rw [functionNode, hfilter]
    rfl
  · rw [functionNode, functionNode]
    dsimp only
    rw [filterMap_name?_rename hs]
  · have hnames : ∀ text ∈ inner.filterMap fun id => (s.kind id).name?, ρ.text text := by
      intro text htext
      obtain ⟨id, -, hname⟩ := List.mem_filterMap.1 htext
      exact text_of_name? hs hname
    exact hP.append (hP.append (hP.fixed _ (by simp)) (hP.intercalate (hP.fixed _ (by simp))
      hnames)) (hP.fixed _ (by simp))

theorem buildFunctionBody_tracks (hc : c.Renames ρ c') (inner : List ElementId)
    {body : List ElementId}
    (h : Pool w.store w.store Element.Shaped (n ≤ ·) (body ++ fresh) []) (name : String)
    (hs : w.store.Renames ρ n w'.store) :
    Building.Tracks ρ n ρ (buildFunctionBody c name inner body)
      (buildFunctionBody c' name (inner.map ρ) (body.map ρ)) w w' := by
  have hnode := hs.push (functionNode_like hc hs inner)
  have hc' : Context.Renames ρ
      { c with function := some ⟨name, w.store.size,
        inner.filterMap fun id => (w.store.kind id).name?⟩ }
      { c' with function := some ⟨name, w'.store.size,
        (inner.map ρ).filterMap fun id => (w'.store.kind id).name?⟩ } := by
    refine ⟨hc.vocabulary, hc.registry, hc.line, ?_⟩
    rw [filterMap_name?_rename hs, ← hs.size_eq]
    rfl
  have hopened : Store.Renames ρ n
      (w.withStore (opened (w.store.push (functionNode c w.store inner)) body)).store
      (w'.withStore (opened (w'.store.push (functionNode c' w'.store (inner.map ρ)))
        (body.map ρ))).store := opened_renames hnode body
  have hreduce := reduceOrError_tracks hc'
    ((pool_opened h (functionNode c w.store inner)).weaken fun _ hid => hid.1) hopened
  refine ensures_buildFunctionBody (Building.Ensures.imp hreduce fun root v hroot => ?_)
  refine ensures_buildFunctionBody (hroot.imp ?_)
  rintro _ v' ⟨rfl, hs'⟩
  refine ⟨hs.size_eq.symm, ?_⟩
  have hmodify := hs'.modify (fun he => withBody_like he root) w.store.size
  rwa [hs.size_eq] at hmodify

theorem buildFunction_tracks (hc : c.Renames ρ c') {elements : List ElementId}
    (h : Pool w.store w.store Element.Shaped (n ≤ ·) (elements ++ fresh) []) (name : String)
    (hs : w.store.Renames ρ n w'.store) :
    Reducing.Tracks ρ n ρ (buildFunction c name elements) (buildFunction c' name (elements.map ρ))
      w w' := by
  rw [buildFunction, buildFunction, tracks_store_bind]
  cases elements with
  | nil => exact tracks_throw_of_texts rfl hs
  | cons first rest =>
    have hiff : w'.store.kind (ρ first) = .delimiter .parenthesis .opening ↔
        w.store.kind first = .delimiter .parenthesis .opening := hs.kind_eq_iff rfl first
    rw [List.map_cons]
    dsimp only
    by_cases hk : w.store.kind first = .delimiter .parenthesis .opening
    · rw [if_pos hk, if_pos (hiff.2 hk), splitClosing?_rename hs]
      cases hsplit : splitClosing? w.store .parenthesis 0 rest with
      | none => exact tracks_throw_of_texts rfl hs
      | some p =>
        obtain ⟨inner, body⟩ := p
        obtain ⟨close, rfl, -⟩ := eq_append_of_splitClosing? hsplit
        have hsub : (body ++ fresh).Sublist (first :: (inner ++ close :: body) ++ fresh) :=
          (((List.sublist_cons_self close body).trans (List.sublist_append_right inner _)).cons
            first).append (List.Sublist.refl _)
        obtain ⟨hid, hs'⟩ := buildFunctionBody_tracks hc inner
          (h.sub hsub.subperm (List.Subperm.refl _)) name hs
        exact tracks_lift hid hs'
    · rw [if_neg hk, if_neg fun hk' => hk (hiff.1 hk')]
      exact tracks_throw_of_texts rfl hs

/-! ## Right-hand sides -/

theorem readValue_tracks (hc : c.Renames ρ c') {rhs : List ElementId}
    (h : Pool w.store w.store Element.Shaped (n ≤ ·) (rhs ++ fresh) []) (name : String)
    (hs : w.store.Renames ρ n w'.store) :
    Reducing.Tracks ρ n (Prod.map ρ id) (readValue c name rhs) (readValue c' name (rhs.map ρ))
      w w' := by
  have formed : ∀ {x x' : Reducing ElementId} (form : Form), Reducing.Tracks ρ n ρ x x' w w' →
      Reducing.Tracks ρ n (Prod.map ρ id) (x >>= fun id => pure (id, form))
        (x' >>= fun id => pure (id, form)) w w' :=
    fun form hx => hx.bind returns_true fun _ _ _ _ hs => tracks_pure rfl hs
  rw [readValue, readValue, tracks_store_bind]
  cases rhs with
  | nil => exact tracks_throw_of_texts rfl hs
  | cons first rest =>
    have hiff : w'.store.kind (ρ first) = .functionMarker ↔
        w.store.kind first = .functionMarker := hs.kind_eq_iff rfl first
    rw [List.map_cons]
    dsimp only
    by_cases hk : w.store.kind first = .functionMarker
    · rw [if_pos hk, if_pos (hiff.2 hk)]
      have hrest := h.sub (List.sublist_cons_self first _).subperm (List.Subperm.refl _)
      exact formed .function (buildFunction_tracks hc hrest name hs)
    · rw [if_neg hk, if_neg fun hk' => hk (hiff.1 hk'), ← List.map_cons, wholeArray?_rename hs]
      cases ha : wholeArray? w.store (first :: rest) with
      | some inner =>
        obtain ⟨_, close, he⟩ := eq_of_wholeArray? ha
        exact formed .array (buildArray_tracks hc
          (fun id hid => le_of_pool h id (by simp [he, hid])) hs)
      | none => exact formed .plain (reduce_tracks hc (first :: rest) h hs)

theorem declarationValue_tracks (hc : c.Renames ρ c') {rhs : List ElementId}
    (h : Pool w.store w.store Element.Shaped (n ≤ ·) (rhs ++ fresh) []) (name : String)
    (hs : w.store.Renames ρ n w'.store) :
    Building.Tracks ρ n (Prod.map ρ id) (declarationValue c name rhs)
      (declarationValue c' name (rhs.map ρ)) w w' := by
  have hvalue := readValue_tracks hc h name hs
  rw [declarationValue, declarationValue]
  refine (tracks_run hvalue).bind (ensures_textsOf hvalue) fun r v v' hf hs => ?_
  cases r with
  | ok value => exact ⟨rfl, hs⟩
  | error fault =>
    have hreleased : Building.Tracks ρ n id (release rhs) (release (rhs.map ρ)) v v' := by
      rw [Building.Tracks, Building.Ensures, Building.Ensures, run_release, run_release]
      exact ⟨rfl, hs.release rhs⟩
    refine hreleased.bind ensures_true fun _ v v' _ hs => ?_
    exact (buildError_tracks hc (hf fault rfl) (le_of_pool h) hs).bind ensures_true
      fun _ _ _ _ hs => ⟨rfl, hs⟩

end Term

/-! ## Owners -/

namespace Store.Renames

variable {s s' : Store}

theorem isFree (h : s.Renames ρ n s') (root child : ElementId) :
    s'.isFree (ρ root) (ρ child) = s.isFree root child := by
  have hne : (ρ child != ρ root) = (child != root) := by
    by_cases he : child = root
    · rw [he, bne_self_eq_false, bne_self_eq_false]
    · rw [bne_iff_ne.2 he, bne_iff_ne.2 fun he' => he (ρ.injective he')]
  rw [Store.isFree, Store.isFree, (h.get child).owner, Option.isNone_map, hne,
    decide_eq_decide.2 (h.lt_size_iff child)]

theorem setOwner (h : s.Renames ρ n s') (child parent : ElementId) :
    (s.setOwner child parent).Renames ρ n (s'.setOwner (ρ child) (ρ parent)) := by
  refine h.modify (fun he => ?_) child
  exact ⟨he.kind, he.texts, he.raw, he.sealed, rfl, he.line⟩

theorem claim (root parent : ElementId) (children : List ElementId) (h : s.Renames ρ n s') :
    (Store.claim root parent children s).1.Renames ρ n
        (Store.claim (ρ root) (ρ parent) (children.map ρ) s').1 ∧
      (Store.claim (ρ root) (ρ parent) (children.map ρ) s').2 =
        (Store.claim root parent children s).2.map ρ := by
  induction children generalizing s s' with
  | nil => exact ⟨h, rfl⟩
  | cons child children ih =>
    rw [List.map_cons, Store.claim, Store.claim, h.isFree]
    split
    · obtain ⟨hs, hclaimed⟩ := ih (h.setOwner child parent)
      exact ⟨hs, congrArg (ρ child :: ·) hclaimed⟩
    · exact ih h

theorem claimAll (root : ElementId) (pending : List ElementId) (h : s.Renames ρ n s') :
    (Store.claimAll root pending s).Renames ρ n
      (Store.claimAll (ρ root) (pending.map ρ) s') := by
  revert s'
  fun_induction Store.claimAll root pending s with
  | case1 s =>
    intro s' h
    rw [List.map_nil, Store.claimAll]
    exact h
  | case2 s parent rest claimed =>
    rename_i ih
    intro s' h
    obtain ⟨hs, hclaimed⟩ := h.claim root parent (s.kind parent).children
    have hrest := ih hs
    rw [List.map_append, List.map_reverse, ← hclaimed, ← Kind.children_rename, ← h.kind] at hrest
    rw [List.map_cons, Store.claimAll]
    exact hrest

theorem setOwners (h : s.Renames ρ n s') (root : ElementId) :
    (s.setOwners root).Renames ρ n (s'.setOwners (ρ root)) :=
  h.claimAll root [root]

end Store.Renames

/-! ## Lines -/

theorem classify_like {line line' : Nat} (hl : ρ.line line line') (v : Vocabulary)
    (previous : Option Kind) {tokens : List String} (ht : ∀ token ∈ tokens, ρ.text token) :
    List.Forall₂ (Element.Like ρ True) (classify v line previous tokens)
      (classify v line' previous tokens) := by
  induction tokens generalizing previous with
  | nil => exact .nil
  | cons token tokens ih =>
    obtain ⟨htoken, htokens⟩ := List.forall_mem_cons.1 ht
    refine .cons ⟨?_, fun text hm => ?_, fun _ => ⟨rfl, htoken⟩, rfl, rfl, hl⟩ (ih _ htokens)
    · refine (Kind.rename_eq_self fun id hid => ?_).symm
      rw [Kind.links_of_isToken (Kind.isToken_ofToken v previous token)] at hid
      cases hid
    · rw [Kind.eq_of_mem_texts_ofToken hm]
      exact htoken

theorem place_tracks {elements elements' : List Element}
    (h : List.Forall₂ (Element.Like ρ True) elements elements') {w w' : Workspace}
    (hs : w.store.Renames ρ n w'.store) :
    Building.Tracks ρ n (List.map ρ) (place elements) (place elements') w w' := by
  induction h generalizing w w' with
  | nil => exact ⟨rfl, hs⟩
  | @cons e e' elements elements' he _ ih =>
    refine ensures_place_cons fun log => Building.ensures_comm.2 ?_
    refine ensures_place_cons fun log' => Building.ensures_comm.1 ?_
    have hrest := @ih ⟨w.store.push e, log⟩ ⟨w'.store.push e', log'⟩
      (hs.push (he.mono fun _ => trivial))
    refine Building.Ensures.imp hrest fun ids v hids => hids.imp ?_
    rintro _ v' ⟨rfl, hs'⟩
    exact ⟨congrArg (· :: ids.map ρ) hs.size_eq.symm, hs'⟩

theorem dropTerminator_rename {s s' : Store} (hs : s.Renames ρ n s') (ids : List ElementId) :
    Statement.dropTerminator s' (ids.map ρ) = (Statement.dropTerminator s ids).map ρ := by
  unfold Statement.dropTerminator
  rw [List.getLast?_map]
  cases ids.getLast? with
  | none => rfl
  | some last =>
    have hiff : s'.kind (ρ last) = .semicolon ↔ s.kind last = .semicolon :=
      hs.kind_eq_iff rfl last
    dsimp only [Option.map_some]
    by_cases hk : s.kind last = .semicolon
    · rw [if_pos hk, if_pos (hiff.2 hk), List.map_dropLast]
    · rw [if_neg hk, if_neg fun hk' => hk (hiff.1 hk')]

/-- Lines that may stand for each other: the tokens are the same and, unless the
    source texts of declarations may differ, so are the texts. -/
structure LogicalLine.Like (ρ : Renaming) (v : Vocabulary) (l l' : LogicalLine) : Prop where
  tokens : Token.tokenize v l'.text = Token.tokenize v l.text
  texts : ∀ token ∈ Token.tokenize v l.text, ρ.text token
  raw : ρ.verbatim → Text.trim l'.text = Text.trim l.text ∧ ρ.text (Text.trim l.text)
  line : ρ.line l.line l'.line

namespace Statement

variable {v : Vocabulary} {w w' : Workspace} {l l' : LogicalLine} {registry : Registry}

/-- The computations of two lines give corresponding statements. -/
def Agree (ρ : Renaming) (f : α → α) (x x' : Building α) (w w' : Workspace) : Prop :=
  x.Ensures w fun a u => x'.Ensures w' fun a' u' =>
    a' = f a ∧ u.store.Renames ρ u.store.size u'.store

theorem store_bind_agree {f : α → α} {g g' : Store → Building α} :
    Agree ρ f (Building.store >>= g) (Building.store >>= g') w w' ↔
      Agree ρ f (g w.store) (g' w'.store) w w' :=
  Iff.rfl

/-- A line without declaration. -/
theorem plain_agree (hs : w.store.Renames ρ n w'.store) {kind : Kind} (hk : kind.links = [])
    (ht : kind.texts = []) {raw raw' : String} (hraw : raw' = raw ∧ ρ.text raw)
    (hl : ρ.line l.line l'.line) :
    Agree ρ (Prod.map ρ id) (build kind raw l.line >>= fun id => pure (id, (none : Option String)))
      (build kind raw' l'.line >>= fun id => pure (id, (none : Option String))) w w' := by
  have hpush : Store.Renames ρ n (w.store.push { kind, raw, line := l.line, sealed := true })
      (w'.store.push { kind, raw := raw', line := l'.line, sealed := true }) :=
    hs.push ⟨((Kind.rename_eq_iff hk).2 rfl).symm, by simp [ht], fun _ => hraw, rfl, rfl, hl⟩
  exact ⟨congrArg (·, none) hs.size_eq.symm, hpush.current⟩

/-- The declaration itself is the only element whose source text may differ. -/
theorem buildDeclaration_agree (v : Vocabulary) (registry : Registry) (l l' : LogicalLine)
    (target : ElementId) (name : String) {rhs fresh : List ElementId}
    (h : Pool w.store w.store Element.Shaped (n ≤ ·) (rhs ++ fresh) [])
    (hraw : ρ.verbatim → Text.trim l'.text = Text.trim l.text ∧ ρ.text (Text.trim l.text))
    (hl : ρ.line l.line l'.line) (hs : w.store.Renames ρ n w'.store) :
    Agree ρ ρ (buildDeclaration v registry l target name rhs)
      (buildDeclaration v (registry.rename ρ) l' (ρ target) name (rhs.map ρ)) w w' := by
  have hc : Term.Context.Renames ρ { vocabulary := v, registry, line := l.line }
      { vocabulary := v, registry := registry.rename ρ, line := l'.line } := ⟨rfl, rfl, hl, rfl⟩
  rw [buildDeclaration, buildDeclaration]
  refine Building.ensures_bind_both (Term.declarationValue_tracks hc h name hs)
    fun value u u' hs => ?_
  obtain ⟨content, form⟩ := value
  have hnext : u.store.Renames ρ (u.store.size + 1) u'.store := hs.current.mono (Nat.le_succ _)
  have hpush : Store.Renames ρ (u.store.size + 1)
      (u.store.push ⟨.declaration target content form, Text.trim l.text, l.line, true, none⟩)
      (u'.store.push ⟨.declaration (ρ target) (ρ content) form, Text.trim l'.text, l'.line, true,
        none⟩) := by
    refine hnext.push ⟨rfl, by simp [Kind.texts], fun hknown => ?_, rfl, rfl, hl⟩
    rcases hknown with hv | hlt | hk
    · exact hraw hv
    · exact absurd hlt (Nat.not_succ_le_self _)
    · cases hk
  refine ⟨hs.size_eq.symm, ?_⟩
  show Store.Renames ρ _ (setOwners _ u.store.size) (setOwners _ u'.store.size)
  rw [← hs.size_eq]
  exact (hpush.setOwners u.store.size).current

/-- **Lines are read alike.** -/
theorem read_agree (hl : l.Like ρ v l') (hs : w.store.Renames ρ w.store.size w'.store) :
    Agree ρ (Prod.map ρ id) (read v registry l) (read v (registry.rename ρ) l') w w' := by
  have hP := ρ.joinable
  have hjoined : ρ.text (" ".intercalate (Token.tokenize v l.text)) :=
    hP.intercalate (hP.fixed " " (by simp)) hl.texts
  have hplaces : (place (classify v l.line none (Token.tokenize v l.text))).Ensures w
      fun ids u => Places w.store u.store ids :=
    place_places (fun e he => ⟨isToken_of_mem_classify he, hasPlainName_of_mem_classify he⟩) w
  rw [read, read, hl.tokens]
  obtain ⟨hids, hstore⟩ := place_tracks (classify_like hl.line v none hl.texts) hs
  refine Building.ensures_bind_both (R := fun ids u u' => Places w.store u.store ids ∧
    u.store.Renames ρ w.store.size u'.store) ⟨hids, hplaces, hstore⟩ ?_
  rintro ids u u' ⟨hplaces, hs⟩
  have hsub := dropTerminator_sublist u.store ids
  refine store_bind_agree.2 ?_
  rw [dropTerminator_rename hs]
  cases hd : dropTerminator u.store ids with
  | nil => exact plain_agree hs rfl rfl ⟨rfl, hP.fixed _ (by simp)⟩ hl.line
  | cons target rest =>
    rw [hd] at hsub
    cases rest with
    | nil =>
      have hle := (hplaces.apart.mem target (hsub.subset List.mem_cons_self)).2
      exact plain_agree hs rfl rfl (hs.raw hle) hl.line
    | cons second rhs =>
      rw [List.map_cons, List.map_cons]
      dsimp only
      rw [hs.kind, hs.kind]
      cases u.store.kind target with
      | name name =>
        cases u.store.kind second with
        | assignment =>
          have hpool :=
            hplaces.pool (((List.sublist_cons_self second rhs).cons_cons target).trans hsub)
          exact Building.ensures_bind_both (buildDeclaration_agree v registry l l' target name
            hpool hl.raw hl.line hs)
            fun _ _ _ hs => ⟨rfl, hs⟩
        | _ => exact plain_agree hs rfl rfl ⟨rfl, hjoined⟩ hl.line
      | _ => exact plain_agree hs rfl rfl ⟨rfl, hjoined⟩ hl.line

end Statement

end FormulaSheet
