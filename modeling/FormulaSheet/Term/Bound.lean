/-
  The bounds of reductions do not show.

  Reductions of terms and of array literals are defined with a bound on the
  length of what they read.  Every group is shorter than the term around it, so
  any bound that is large enough gives the same reduction.

  * `buildArray_eq` and `reduce_eq` are the equations without bounds: an array
    literal is laid out with `buildArray` for the nested ones, and a term runs
    through the three passes with `reduce` for the groups.
-/
import FormulaSheet.Term.Reduce

namespace FormulaSheet.Term

open Building

/-! ## What is inside is shorter -/

/-- The inside of a group is shorter than the term around it. -/
theorem length_lt_of_mem_segments {s : Store} {term inner : List ElementId} {group : Group}
    (h : .group group inner ∈ segments s term) : inner.length < term.length := by
  fun_induction segments s term with
  | case1 => simp at h
  | case2 => simp at h
  | case3 => simp at h
  | case4 id rest g _ inner' after hs ih =>
    have hl := length_of_splitClosing? s hs
    rcases List.mem_cons.1 h with h | h
    · cases h
      simp only [List.length_cons]
      omega
    · have := ih h
      simp only [List.length_cons]
      omega
  | case5 id rest _ _ ih =>
    rcases List.mem_cons.1 h with h | h
    · cases h
    · have := ih h
      simp only [List.length_cons]
      omega

/-- No argument is longer than all arguments together. -/
theorem length_le_of_mem_splitArguments {s : Store} {depth : Nat} {ids piece : List ElementId}
    (h : piece ∈ splitArguments s depth ids) : piece.length ≤ ids.length := by
  have onHead : ∀ {id : ElementId} {rest piece : List ElementId} {pieces : List (List ElementId)},
      (∀ p ∈ pieces, p.length ≤ rest.length) → piece ∈ pieces.modifyHead (id :: ·) →
      piece.length ≤ (id :: rest).length := by
    intro id rest piece pieces hp hm
    cases pieces with
    | nil => simp at hm
    | cons p ps =>
      rw [List.modifyHead_cons] at hm
      rcases List.mem_cons.1 hm with rfl | hm
      · have := hp p List.mem_cons_self
        simp only [List.length_cons]
        omega
      · have := hp piece (List.mem_cons_of_mem _ hm)
        simp only [List.length_cons]
        omega
  induction ids generalizing depth piece with
  | nil => simp_all [splitArguments]
  | cons id rest ih =>
    rw [splitArguments] at h
    split at h
    · exact onHead (fun _ => ih) h
    · exact onHead (fun _ => ih) h
    · split at h
      · rcases List.mem_cons.1 h with rfl | h
        · simp
        · have := ih h
          simp only [List.length_cons]
          omega
      · exact onHead (fun _ => ih) h
    · exact onHead (fun _ => ih) h

theorem length_le_of_mem_arguments {s : Store} {inner piece : List ElementId}
    (h : piece ∈ arguments s inner) : piece.length ≤ inner.length := by
  rw [arguments] at h
  split at h
  · simp at h
  · exact length_le_of_mem_splitArguments h

/-- The inside of a nested array literal is shorter than the literal around
    it. -/
theorem length_lt_of_mem_items {v : Vocabulary} {s : Store} {ids inner : List ElementId}
    (h : .nested inner ∈ items v s ids) : inner.length < ids.length := by
  fun_induction items v s ids with
  | case1 => simp at h
  | case2 id rest _ ih =>
    have := ih (by simpa using h)
    simp only [List.length_cons]
    omega
  | case3 id rest _ ih =>
    have := ih h
    simp only [List.length_cons]
    omega
  | case4 => simp at h
  | case5 id rest _ nested after hs ih =>
    have hl := length_of_splitClosing? s hs
    rcases List.mem_cons.1 h with h | h
    · cases h
      simp only [List.length_cons]
      omega
    · have := ih h
      simp only [List.length_cons]
      omega
  | case6 => simp at h
  | case7 id _ _ _ _ _ operand after _ ih =>
    have := ih (by simpa using h)
    simp only [List.length_cons]
    omega
  | case8 => simp at h
  | case9 => simp at h
  | case10 id rest _ _ _ _ _ ih =>
    have := ih (by simpa using h)
    simp only [List.length_cons]
    omega

/-! ## Array literals -/

/-- A layout uses `nested` only on the nested literals. -/
theorem layout_congr {f g : List ElementId → Reducing ElementId} {parts : List Item}
    (h : ∀ inner, .nested inner ∈ parts → f inner = g inner) (row col : Nat) :
    layout f row col parts = layout g row col parts := by
  induction parts generalizing row col with
  | nil => simp [layout]
  | cons part parts ih =>
    have ih' := ih fun inner hm => h inner (List.mem_cons_of_mem _ hm)
    cases part with
    | nested inner => simp only [layout, ih', h inner List.mem_cons_self]
    | _ => simp only [layout, ih']

theorem buildArrayWithin_eq {c : Context} {bound bound' : Nat} {inner : List ElementId}
    (h : inner.length ≤ bound) (h' : inner.length ≤ bound') :
    buildArrayWithin c bound inner = buildArrayWithin c bound' inner := by
  have empty : ∀ bound, buildArrayWithin c bound [] = buildArrayWithin c 0 [] := by
    intro bound
    cases bound with
    | zero => rfl
    | succ bound =>
      simp only [buildArrayWithin, items]
      rfl
  induction bound generalizing bound' inner with
  | zero =>
    obtain rfl := List.length_eq_zero_iff.1 (Nat.le_zero.1 h)
    rw [empty bound']
  | succ bound ih =>
    cases bound' with
    | zero =>
      obtain rfl := List.length_eq_zero_iff.1 (Nat.le_zero.1 h')
      rw [empty]
    | succ bound' =>
      simp only [buildArrayWithin]
      congr 1
      funext s
      rw [layout_congr]
      intro nested hm
      have := length_lt_of_mem_items hm
      exact ih (by omega) (by omega)

/-- Array literals without a bound. -/
theorem buildArray_eq (c : Context) (inner : List ElementId) :
    buildArray c inner = (do
      let cells ← layout (buildArray c) 0 0 (items c.vocabulary (← store) inner)
      buildNode c (.array cells) ("[" ++ (← store).rawText " " inner ++ "]")) := by
  rw [buildArray, buildArrayWithin_eq (Nat.le_refl _) (Nat.le_succ _), buildArrayWithin]
  congr 1
  funext s
  rw [layout_congr]
  intro nested hm
  exact buildArrayWithin_eq (Nat.le_of_lt (length_lt_of_mem_items hm)) (Nat.le_refl _)

/-! ## Terms -/

theorem mapM_congr {m : Type → Type} [Monad m] [LawfulMonad m] {α β : Type} {f g : α → m β}
    {xs : List α} (h : ∀ x ∈ xs, f x = g x) : xs.mapM f = xs.mapM g := by
  induction xs with
  | nil => simp
  | cons x xs ih =>
    rw [List.mapM_cons, List.mapM_cons, h x List.mem_cons_self,
      ih fun y hy => h y (List.mem_cons_of_mem _ hy)]

theorem reduceArguments_congr {f g : List ElementId → Reducing ElementId} {inner : List ElementId}
    (h : ∀ term : List ElementId, term.length ≤ inner.length → f term = g term) :
    reduceArguments f inner = reduceArguments g inner := by
  unfold reduceArguments
  congr 1
  funext s
  exact mapM_congr fun piece hm => h piece (length_le_of_mem_arguments hm)

theorem buildCall_congr {f g : List ElementId → Reducing ElementId} {inner : List ElementId}
    (h : ∀ term : List ElementId, term.length ≤ inner.length → f term = g term)
    (c : Context) (id : ElementId) (name : String) :
    buildCall c f id name inner = buildCall c g id name inner := by
  simp only [buildCall, reduceArguments_congr h]

/-- The first pass uses `reduce` only inside groups. -/
theorem collapseGroups_congr {f g : List ElementId → Reducing ElementId} {n : Nat}
    (h : ∀ term : List ElementId, term.length < n → f term = g term) (c : Context)
    {parts : List Segment} (hp : ∀ group inner, .group group inner ∈ parts → inner.length < n)
    (done : List ElementId) :
    collapseGroups c f done parts = collapseGroups c g done parts := by
  induction parts generalizing done with
  | nil => simp [collapseGroups]
  | cons part parts ih =>
    have ih' := ih fun group inner hm => hp group inner (List.mem_cons_of_mem _ hm)
    cases part with
    | single id => simp only [collapseGroups, ih']
    | unmatched group => simp only [collapseGroups]
    | group group inner =>
      have hi := hp group inner List.mem_cons_self
      cases group with
      | bracket => simp only [collapseGroups, ih']
      | parenthesis =>
        cases done with
        | nil => simp only [collapseGroups, ih', h inner hi]
        | cons previous done =>
          have hc := buildCall_congr (fun term ht => h term (Nat.lt_of_le_of_lt ht hi)) c previous
          simp only [collapseGroups, ih', h inner hi, hc]

/-- The passes use `reduce` only on shorter terms. -/
theorem runPasses_congr {f g : List ElementId → Reducing ElementId} {term : List ElementId}
    (h : ∀ inner : List ElementId, inner.length < term.length → f inner = g inner)
    (c : Context) : runPasses c f term = runPasses c g term := by
  have hg : ∀ s, collapseGroups c f [] (segments s term) =
      collapseGroups c g [] (segments s term) :=
    fun s => collapseGroups_congr h c (fun _ _ hm => length_lt_of_mem_segments hm) []
  simp only [runPasses, hg]

theorem reduceWithin_eq {c : Context} {bound bound' : Nat} {term : List ElementId}
    (h : term.length ≤ bound) (h' : term.length ≤ bound') :
    reduceWithin c bound term = reduceWithin c bound' term := by
  have empty : ∀ bound, reduceWithin c bound [] = reduceWithin c 0 [] := by
    intro bound
    cases bound with
    | zero => rfl
    | succ bound => rfl
  induction bound generalizing bound' term with
  | zero =>
    obtain rfl := List.length_eq_zero_iff.1 (Nat.le_zero.1 h)
    rw [empty bound']
  | succ bound ih =>
    cases bound' with
    | zero =>
      obtain rfl := List.length_eq_zero_iff.1 (Nat.le_zero.1 h')
      rw [empty]
    | succ bound' =>
      rw [reduceWithin, reduceWithin, runPasses_congr]
      intro inner hi
      exact ih (by omega) (by omega)

/-- Reduction without a bound. -/
theorem reduce_eq (c : Context) (term : List ElementId) :
    reduce c term = releasing term (runPasses c (reduce c) term) := by
  rw [reduce, reduceWithin_eq (Nat.le_refl _) (Nat.le_succ _), reduceWithin, runPasses_congr]
  intro inner hi
  exact reduceWithin_eq (Nat.le_of_lt hi) (Nat.le_refl _)

end FormulaSheet.Term
