/-
  Reading the value of a declaration, step by step.

  * `Built c ids s s' root`: a term has been reduced to `root`, or wrapped in an
    error.
  * `Reads c name rhs s s' content form`: the value of `name = rhs` has been
    read.  A function is added before its body is built, and is then given the
    body.
  * `declarationValue_reads`: every right-hand side is read so, whatever it is.
  * `later_of_reading`: reading adds elements, and of those that are there it
    retouches only operators among the ones that it reads.
-/
import FormulaSheet.Proofs.Value

namespace FormulaSheet.Term

open Building Store

/-- A term has been reduced to `root`, or wrapped in an error. -/
inductive Built (c : Context) (ids : List ElementId) (s : Store) : Store → ElementId → Prop
  | term {s' : Store} {root : ElementId} (h : Steps c ids s s') (hr : Among ids s s' root) :
      Built c ids s s' root
  | error {s' : Store} {e : Element} {fault : Fault} (h : Steps c ids s s')
      (he : e.kind = .error fault ids) (ho : e.owner = none) : Built c ids s (s'.push e) s'.size

theorem Built.later {c : Context} {ids : List ElementId} {s s' : Store} {root : ElementId}
    (h : Built c ids s s' root) : Later ids s s' := by
  cases h with
  | term h hr => exact Steps.later h
  | error h he ho => exact (Steps.later h).push _

theorem Built.size_le {c : Context} {ids : List ElementId} {s s' : Store} {root : ElementId}
    (h : Built c ids s s' root) : s.size ≤ s'.size :=
  h.later.size_le

/-- The value of `name = rhs` has been read. -/
inductive Reads (c : Context) (name : String) (rhs : List ElementId) (s : Store) :
    Store → ElementId → Form → Prop
  | term {s' : Store} {content : ElementId} {form : Form} (hf : form ≠ .function)
      (h : Built c rhs s s' content) : Reads c name rhs s s' content form
  | function {s' : Store} {inner body : List ElementId} {root : ElementId}
      (hi : inner ⊆ rhs) (hb : body ⊆ rhs)
      (h : Built { c with function := some ⟨name, s.size,
          inner.filterMap fun id => (s.kind id).name?⟩ } body
        (opened (s.push (functionNode c s inner)) body) s' root) :
      Reads c name rhs s (s'.modify s.size (withBody root)) s.size .function

theorem Reads.later {c : Context} {name : String} {rhs : List ElementId} {s s' : Store}
    {content : ElementId} {form : Form} (h : Reads c name rhs s s' content form) :
    Later rhs s s' := by
  cases h with
  | term hf h => exact h.later
  | @function s' inner body root hi hb h =>
    -- The function itself is new, so its body is given to none of the elements of `s`.
    have hopened : Later rhs s (opened (s.push (functionNode c s inner)) body) :=
      ((Later.refl rhs s).push _).trans (later_opened _ body) hb
    refine (hopened.trans h.later hb).modify fun hlt => absurd hlt (Nat.lt_irrefl _)

variable {c : Context}

theorem reduceOrError_built (term : List ElementId) (w : Workspace) :
    (reduceOrError c term).Ensures w fun root w' => Built c term w.store w'.store root := by
  rw [reduceOrError, Building.ensures_bind, Building.ensures_run]
  refine (reduce_steps c term w).imp fun r w' h => ?_
  cases r with
  | ok root => exact .term h.1 (h.2 root rfl)
  | error fault => exact .error h.1 rfl rfl

theorem buildFunctionBody_reads {rhs inner body : List ElementId} (hi : inner ⊆ rhs)
    (hb : body ⊆ rhs) (name : String) (w : Workspace) :
    (buildFunctionBody c name inner body).Ensures w fun f w' =>
      Reads c name rhs w.store w'.store f .function := by
  refine ensures_buildFunctionBody ((reduceOrError_built body _).imp fun root w' h => ?_)
  exact .function hi hb h

/-- A function is read as a whole, or nothing is changed. -/
theorem buildFunction_reads {rhs elements : List ElementId} (hs : elements ⊆ rhs) (name : String)
    (w : Workspace) :
    (buildFunction c name elements).Ensures w fun r w' =>
      (∀ f, r = .ok f → Reads c name rhs w.store w'.store f .function) ∧
      ∀ fault, r = .error fault → w' = w := by
  rw [buildFunction, Reducing.ensures_store_bind]
  cases elements with
  | nil => exact ⟨by simp, fun _ _ => rfl⟩
  | cons opening rest =>
    dsimp only
    split
    · split
      · exact ⟨by simp, fun _ _ => rfl⟩
      · rename_i inner body hsplit
        obtain ⟨close, rfl, -⟩ := eq_append_of_splitClosing? hsplit
        rw [Reducing.ensures_lift]
        refine ⟨?_, by simp⟩
        rintro f ⟨⟩
        exact buildFunctionBody_reads (fun x hx => hs (by simp [hx])) (fun x hx => hs (by simp [hx]))
          name w
    · exact ⟨by simp, fun _ _ => rfl⟩

/-- What is read is a value; until a fault steps have been made. -/
theorem readValue_reads (name : String) (rhs : List ElementId) (w : Workspace) :
    (readValue c name rhs).Ensures w fun r w' =>
      (∀ value, r = .ok value → Reads c name rhs w.store w'.store value.1 value.2) ∧
      ∀ fault, r = .error fault → Steps c rhs w.store w'.store := by
  rw [readValue, Reducing.ensures_store_bind]
  cases rhs with
  | nil => exact ⟨by simp, fun _ _ => .refl⟩
  | cons first rest =>
    dsimp only
    split
    · have hfunction := buildFunction_reads (c := c) (List.subset_cons_self first rest) name w
      refine Reducing.ensures_bind hfunction (fun f w' h => ?_) (fun fault w' h => ?_)
      · refine ⟨?_, by simp⟩
        rintro value ⟨⟩
        exact h.1 f rfl
      · refine ⟨by simp, fun _ _ => ?_⟩
        rw [h.2 fault rfl]
    · split
      · rename_i inner hwhole
        obtain ⟨first', close, he⟩ := eq_of_wholeArray? hwhole
        have hmem : inner ⊆ first :: rest := fun id hid => by rw [he]; simp [hid]
        refine Reducing.ensures_bind (buildArray_steps c inner w) (fun root w' h => ?_)
          (fun fault w' h => ⟨by simp, fun _ _ => h.1.mono hmem⟩)
        refine ⟨?_, by simp⟩
        rintro value ⟨⟩
        exact .term (by simp) (.term (h.1.mono hmem) (Or.inr (h.2 root rfl)))
      · refine Reducing.ensures_bind (reduce_steps c (first :: rest) w) (fun root w' h => ?_)
          (fun fault w' h => ⟨by simp, fun _ _ => h.1⟩)
        refine ⟨?_, by simp⟩
        rintro value ⟨⟩
        exact .term (by simp) (.term h.1 (h.2 root rfl))

/-- **Reading a value**, whatever the right-hand side is. -/
theorem declarationValue_reads (name : String) (rhs : List ElementId) (w : Workspace) :
    (declarationValue c name rhs).Ensures w fun r w' =>
      Reads c name rhs w.store w'.store r.1 r.2 := by
  rw [declarationValue, Building.ensures_bind, Building.ensures_run]
  refine (readValue_reads name rhs w).imp fun r w' h => ?_
  cases r with
  | ok value => exact h.1 value rfl
  | error fault =>
    dsimp only
    rw [Building.ensures_bind, Building.Ensures, run_release]
    have hsteps : Steps c rhs w.store (w'.store.release rhs) :=
      (h.2 fault rfl).trans (Steps.release (List.Subset.refl _))
    exact .term (by simp) (.error hsteps rfl rfl)

/-- **The frame of reading.**  Whether it succeeds or fails, reading adds elements and
    keeps those that are there at their places.  Of these it retouches at most operators
    among the ones that it reads: their operands, their seal, and their role, which can
    only become that of a sign. -/
theorem later_of_reading (c : Context) (name : String) (ids : List ElementId) (w : Workspace) :
    (reduce c ids).Ensures w (fun _ w' => Later ids w.store w'.store) ∧
    (reduceOrError c ids).Ensures w (fun _ w' => Later ids w.store w'.store) ∧
    (buildArray c ids).Ensures w (fun _ w' => Later ids w.store w'.store) ∧
    (buildFunction c name ids).Ensures w (fun _ w' => Later ids w.store w'.store) ∧
    (declarationValue c name ids).Ensures w (fun _ w' => Later ids w.store w'.store) := by
  refine ⟨(reduce_steps c ids w).imp fun _ _ h => h.1.later,
    (reduceOrError_built ids w).imp fun _ _ h => h.later,
    (buildArray_steps c ids w).imp fun _ _ h => h.1.later,
    (buildFunction_reads (List.Subset.refl ids) name w).imp fun r w' h => ?_,
    (declarationValue_reads name ids w).imp fun _ _ h => h.later⟩
  cases r with
  | ok f => exact (h.1 f rfl).later
  | error fault =>
    rw [h.2 fault rfl]
    exact .refl _ _

end FormulaSheet.Term
