/-
  A right-hand side that is one array literal.

  Such a declaration goes straight to the array, past the passes of a reduction
  and its check.  A reduction of the same elements does nothing else either:

  * `unfinished?_of_complete`: the check finds nothing in trees of complete
    elements, and arrays are such trees (`buildArray_finished`).
  * `run_reduce_literal` and `run_declarationValue_literal`: both do what
    `buildArray` does, and both release the operators if that fails.
  * `declarationValue_eq_reduce`: so they agree, on results and on faults.
-/
import FormulaSheet.Proofs.Trace

namespace FormulaSheet.Term

open Building Store

variable {c : Context} {s : Store} {w w' : Workspace} {opening closing id : ElementId}
  {inner all : List ElementId} {group : Group} {fault : Fault}

/-! ## The literal in its brackets -/

/-- The elements of a group with its delimiters. -/
def groupElements (opening : ElementId) (inner : List ElementId) (closing : ElementId) :
    List ElementId :=
  opening :: (inner ++ [closing])

theorem IsGroup.segments_eq (h : IsGroup s group opening inner closing) :
    segments s (groupElements opening inner closing) = [.group group inner] := by
  rw [groupElements, segments, h.opened]
  dsimp only
  split
  · rename_i hnone
    rw [h.closed] at hnone
    cases hnone
  · rename_i hsome
    rw [h.closed] at hsome
    cases hsome
    rw [segments]

theorem IsGroup.wholeArray?_eq (h : IsGroup s .bracket opening inner closing) :
    wholeArray? s (groupElements opening inner closing) = some inner := by
  rw [groupElements, wholeArray?, if_pos h.opened, h.closed]

/-! ## The check of a finished tree -/

theorem unfinishedWithin_of_complete {roots : List ElementId} (h : Forest s roots all)
    (hall : ∀ id ∈ all, (s.get id).Complete) (depth : Nat) (hid : id ∈ all) :
    unfinishedWithin s depth id = none := by
  induction depth generalizing id with
  | zero => rfl
  | succ depth ih =>
    have hcomplete := hall id hid
    have hpending : (s.get id).pendingRole? = none := by
      rw [Option.eq_none_iff_forall_ne_some]
      intro role hrole
      obtain ⟨symbol, first, second, hk, hsealed⟩ := Element.pendingRole?_eq_some_iff.1 hrole
      rw [(hcomplete.operands symbol role first second hk).1] at hsealed
      cases hsealed
    rw [unfinishedWithin, if_neg (by simp [hcomplete.notStructural]), if_neg (by simp [hpending])]
    split
    · rfl
    · rw [List.findSome?_eq_none_iff]
      intro child hchild
      exact ih (h.mem_of_below hid (Below.root.child (List.mem_reverse.1 hchild)))

theorem unfinished?_of_complete {s₀ : Store} {A : ElementId → Prop} {fresh roots : List ElementId}
    (h : Pool s₀ s Element.Complete A fresh (id :: roots)) : unfinished? s id = none := by
  obtain ⟨all, hforest, -, -, hall⟩ := h.trees
  exact unfinishedWithin_of_complete hforest hall _ (hforest.subset List.mem_cons_self)

/-- **The check finds nothing in an array** that is made from tokens. -/
theorem buildArray_finished (hn : inner.Nodup) (htoken : ∀ id ∈ inner, (w.store.get id).IsToken)
    (hrun : StateT.run (buildArray c inner).run w = (.ok id, w')) :
    unfinished? w'.store id = none := by
  have hpool : Pool w.store w.store Element.Complete (fun _ => True) (inner ++ []) [] := by
    rw [List.append_nil]
    exact .of_fresh (fun x hx => ⟨(htoken x hx).fresh, lt_size_of_isToken (htoken x hx), trivial⟩)
      hn fun _ _ => trivial
  have hbuilt := buildArray_pool (c := c) (fun _ h => h) inner hpool
  simp only [Reducing.Returns, Reducing.Ensures, hrun] at hbuilt
  exact unfinished?_of_complete (hbuilt id rfl)

/-! ## Both ways to the array -/

/-- What comes of a literal: the array, or the fault with the operators of `term`
    released. -/
def afterLiteral (term : List ElementId) :
    Except Fault ElementId × Workspace → Except Fault ElementId × Workspace
  | (.ok id, w) => (.ok id, w)
  | (.error fault, w) => (.error fault, w.withStore (w.store.release term))

/-- The second and the third pass leave an array alone. -/
theorem bind_array {cells : List Cell} (h : w.store.kind id = .array cells) :
    (bindFunctions [id]).Ensures w (fun r w' => r = .ok [id] ∧ w' = w) ∧
      (bindOperators [id] []).Ensures w fun r w' => r = .ok [id] ∧ w' = w := by
  have hpending : (w.store.get id).pendingRole? = none := by
    rw [Element.pendingRole?, ← kind, h]
  constructor
  · rw [bindFunctions, Reducing.ensures_store_bind, if_neg (by simp [hpending])]
    exact ⟨rfl, rfl⟩
  · rw [bindOperators, Reducing.ensures_store_bind, hpending]
    dsimp only
    rw [bindOperators]
    exact ⟨rfl, rfl⟩

theorem collapseGroups_literal {r : Except Fault ElementId}
    (hrun : StateT.run (buildArray c inner).run w = (r, w')) :
    (collapseGroups c (reduce c) [] [.group .bracket inner]).Ensures w fun r' w'' =>
      r' = r.map ([·]) ∧ w'' = w' := by
  have hbuild : (buildArray c inner).Ensures w fun r' w'' => (r', w'') = (r, w') := hrun
  rw [collapseGroups]
  refine Reducing.ensures_bind hbuild ?_ ?_
  · rintro node w'' ⟨⟩
    rw [collapseGroups]
    exact ⟨rfl, rfl⟩
  · rintro fault w'' ⟨⟩
    exact ⟨rfl, rfl⟩

theorem run_reduce_literal (h : IsGroup w.store .bracket opening inner closing)
    (hn : inner.Nodup) (htoken : ∀ id ∈ inner, (w.store.get id).IsToken) :
    StateT.run (reduce c (groupElements opening inner closing)).run w =
      afterLiteral (groupElements opening inner closing)
        (StateT.run (buildArray c inner).run w) := by
  obtain ⟨⟨r, w'⟩, hrun⟩ : ∃ p, StateT.run (buildArray c inner).run w = p := ⟨_, rfl⟩
  rw [hrun]
  suffices hreduce : (reduce c (groupElements opening inner closing)).Ensures w fun r' w'' =>
      (r', w'') = afterLiteral (groupElements opening inner closing) (r, w') from hreduce
  rw [reduce_eq]
  refine ensures_releasing ?_
  rw [runPasses, if_neg (by simp [groupElements])]
  show (liftM store >>= _ : Reducing ElementId).Ensures w _
  rw [Reducing.ensures_store_bind, h.segments_eq]
  refine Reducing.ensures_bind (collapseGroups_literal hrun) ?_ ?_
  · rintro work w'' ⟨hwork, rfl⟩
    cases r with
    | error fault => cases hwork
    | ok id =>
      cases hwork
      have hkind := buildArray_kind (c := c) inner w
      simp only [Reducing.Returns, Reducing.Ensures, hrun] at hkind
      obtain ⟨cells, hcells⟩ := hkind id rfl
      obtain ⟨hfunctions, hoperators⟩ := bind_array hcells
      refine Reducing.ensures_bind hfunctions ?_ (by simp)
      rintro work w'' ⟨⟨⟩, rfl⟩
      refine Reducing.ensures_bind hoperators ?_ (by simp)
      rintro work w'' ⟨⟨⟩, rfl⟩
      dsimp only
      rw [Reducing.ensures_store_bind, buildArray_finished hn htoken hrun]
      rfl
  · rintro fault w'' ⟨hfault, rfl⟩
    cases r with
    | error fault' =>
      cases hfault
      rfl
    | ok id => cases hfault

theorem readValue_literal (h : IsGroup w.store .bracket opening inner closing) (name : String)
    {r : Except Fault ElementId} (hrun : StateT.run (buildArray c inner).run w = (r, w')) :
    (readValue c name (groupElements opening inner closing)).Ensures w fun r' w'' =>
      r' = r.map (·, .array) ∧ w'' = w' := by
  have hbuild : (buildArray c inner).Ensures w fun r' w'' => (r', w'') = (r, w') := hrun
  rw [readValue, Reducing.ensures_store_bind]
  dsimp only [groupElements]
  rw [if_neg (by simp [h.opened])]
  have hwhole := h.wholeArray?_eq
  rw [groupElements] at hwhole
  rw [hwhole]
  refine Reducing.ensures_bind hbuild ?_ ?_
  · rintro node w'' ⟨⟩
    exact ⟨rfl, rfl⟩
  · rintro fault w'' ⟨⟩
    exact ⟨rfl, rfl⟩

/-- The error element that holds a term and its fault. -/
def errorElement (c : Context) (s : Store) (fault : Fault) (term : List ElementId) : Element where
  kind := .error fault term
  raw := s.rawText " " term
  line := c.line
  sealed := true

/-- The value of a declaration after its literal has been read: the array, or the
    error element. -/
def valueAfter (c : Context) (term : List ElementId) :
    Except Fault ElementId × Workspace → (ElementId × Form) × Workspace
  | (.ok id, w) => ((id, .array), w)
  | (.error fault, w) => ((w.store.size, .plain), (w.noting (.unreduced c.line fault)).withStore
      (w.store.push (errorElement c w.store fault term)))

theorem run_declarationValue_literal (h : IsGroup w.store .bracket opening inner closing)
    (name : String) :
    StateT.run (declarationValue c name (groupElements opening inner closing)) w =
      valueAfter c (groupElements opening inner closing)
        (afterLiteral (groupElements opening inner closing)
          (StateT.run (buildArray c inner).run w)) := by
  obtain ⟨⟨r, w'⟩, hrun⟩ : ∃ p, StateT.run (buildArray c inner).run w = p := ⟨_, rfl⟩
  rw [hrun]
  suffices hvalue : (declarationValue c name (groupElements opening inner closing)).Ensures w
      fun value w'' => (value, w'') = valueAfter c (groupElements opening inner closing)
        (afterLiteral (groupElements opening inner closing) (r, w')) from hvalue
  rw [declarationValue, Building.ensures_bind, Building.ensures_run]
  refine (readValue_literal h name hrun).imp ?_
  rintro r' w'' ⟨rfl, rfl⟩
  cases r with
  | ok id => rfl
  | error fault =>
    show (release (groupElements opening inner closing) >>= _ : Building _).Ensures w'' _
    rw [Building.ensures_bind, Building.Ensures, run_release]
    rfl

/-- **A declaration of one array literal agrees with the reduction of the literal.**  It has
    the value `id` and the form of an array exactly if the literal reduces to `id`, and the
    workspace is the same then.  If the reduction has a fault, the value is an error element
    with this fault and the whole literal, added to what the reduction leaves.  The check of a
    reduction never finds anything in the array. -/
theorem declarationValue_eq_reduce (c : Context) (name : String) (w : Workspace)
    (opening closing : ElementId) (inner : List ElementId)
    (hg : IsGroup w.store .bracket opening inner closing)
    (hn : (groupElements opening inner closing).Nodup)
    (htoken : ∀ id ∈ groupElements opening inner closing, (w.store.get id).IsToken) :
    let rhs := groupElements opening inner closing
    (∀ id w', StateT.run (declarationValue c name rhs) w = ((id, .array), w') ↔
      StateT.run (reduce c rhs).run w = (.ok id, w')) ∧
    (∀ fault w', StateT.run (reduce c rhs).run w = (.error fault, w') →
      StateT.run (declarationValue c name rhs) w =
        ((w'.store.size, .plain), (w'.noting (.unreduced c.line fault)).withStore
          (w'.store.push (errorElement c w'.store fault rhs)))) ∧
    ∀ id w', StateT.run (buildArray c inner).run w = (.ok id, w') →
      unfinished? w'.store id = none := by
  intro rhs
  have hsub : inner.Sublist rhs := (List.sublist_append_left inner [closing]).cons opening
  have hinner : ∀ id ∈ inner, (w.store.get id).IsToken := fun id hid => htoken id (hsub.subset hid)
  have hreduce : StateT.run (reduce c rhs).run w = _ :=
    run_reduce_literal hg (hsub.nodup hn) hinner
  have hvalue : StateT.run (declarationValue c name rhs) w =
      valueAfter c rhs (StateT.run (reduce c rhs).run w) := by
    rw [hreduce]
    exact run_declarationValue_literal hg name
  refine ⟨fun id w' => ?_, fun fault w' hfault => ?_, fun id w' hrun => ?_⟩
  · rw [hvalue]
    obtain ⟨r, w₁⟩ := StateT.run (reduce c rhs).run w
    cases r with
    | ok id' =>
      constructor <;>
      · rintro ⟨⟩
        rfl
    | error fault =>
      constructor <;>
      · rintro ⟨⟩
  · rw [hvalue, hfault, valueAfter]
  · exact buildArray_finished (hsub.nodup hn) hinner hrun

/-- `[1, -2; [3 +b 1.2.3] c]` becomes an array, with a token that is no number as a cell;
    `[1 -2; [b] *]` has a fault after a sign has been folded and a nested array built. -/
theorem declarationValue_eq_reduce_nested :
    let place (tokens : List String) : Workspace :=
      { store := { elements := (classify {} 1 none tokens).toArray } }
    let w := place ["[", "1", ",", "-", "2", ";", "[", "3", "+", "b", "1.2.3", "]", "c", "]"]
    let rhs := groupElements 0 (List.range' 1 12) 13
    let w₁ := place ["[", "1", "-", "2", ";", "[", "b", "]", "*", "]"]
    let rhs₁ := groupElements 0 (List.range' 1 8) 9
    (∃ w', StateT.run (declarationValue {} "M" rhs) w = ((15, .array), w') ∧
      StateT.run (reduce {} rhs).run w = (.ok 15, w')) ∧
    (∃ w', StateT.run (buildArray {} (List.range' 1 12)).run w = (.ok 15, w') ∧
      unfinished? w'.store 15 = none) ∧
    ∃ w', StateT.run (reduce {} rhs₁).run w₁ = (.error (.unsupportedCell "*"), w') ∧
      StateT.run (declarationValue {} "M" rhs₁) w₁ =
        ((11, .plain), (w'.noting (.unreduced 1 (.unsupportedCell "*"))).withStore
          (w'.store.push (errorElement {} w'.store (.unsupportedCell "*") rhs₁))) := by
  intro place w rhs w₁ rhs₁
  have hg : IsGroup w.store .bracket 0 (List.range' 1 12) 13 :=
    ⟨by decide +kernel, by decide +kernel⟩
  have hg₁ : IsGroup w₁.store .bracket 0 (List.range' 1 8) 9 :=
    ⟨by decide +kernel, by decide +kernel⟩
  obtain ⟨hvalue, -, hfinished⟩ := declarationValue_eq_reduce {} "M" w 0 13 _ hg (by decide)
    (by decide +kernel)
  obtain ⟨-, hfault, -⟩ := declarationValue_eq_reduce {} "M" w₁ 0 9 _ hg₁ (by decide)
    (by decide +kernel)
  have hreduce : StateT.run (reduce {} rhs).run w =
      (.ok 15, (StateT.run (reduce {} rhs).run w).2) := Prod.ext (by decide +kernel) rfl
  have hbuild : StateT.run (buildArray {} (List.range' 1 12)).run w =
      (.ok 15, (StateT.run (buildArray {} (List.range' 1 12)).run w).2) :=
    Prod.ext (by decide +kernel) rfl
  have hreduce₁ : StateT.run (reduce {} rhs₁).run w₁ =
      (.error (.unsupportedCell "*"), (StateT.run (reduce {} rhs₁).run w₁).2) :=
    Prod.ext (by decide +kernel) rfl
  have hsize : (StateT.run (reduce {} rhs₁).run w₁).2.store.size = 11 := by decide +kernel
  have hvalue₁ := hfault _ _ hreduce₁
  rw [hsize] at hvalue₁
  exact ⟨⟨_, (hvalue 15 _).2 hreduce, hreduce⟩, ⟨_, hbuild, hfinished 15 _ hbuild⟩,
    _, hreduce₁, hvalue₁⟩

end FormulaSheet.Term
