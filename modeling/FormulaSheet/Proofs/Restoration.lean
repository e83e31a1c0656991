/-
  Restoration: what a failed reduction leaves behind.

  A reduction that fails takes the operands from the operators of its term, but
  it does not give the signs of cells their role back.

  * `get_of_reduce_error`: every element is as it was, or it is the sign of a
    cell and has become a sign.
  * `get_ne_of_reduce_error`: the latter does happen.
-/
import FormulaSheet.Proofs.Trace
import FormulaSheet.Token

namespace FormulaSheet

namespace Element

/-- An operator as a sign, and nothing else changed. -/
def asSign (e : Element) : Element :=
  match e.kind with
  | .operator symbol _ first second => { e with kind := .operator symbol .sign first second }
  | _ => e

theorem operands_of_eq_released {e x : Element} {symbol : String} {role : Role}
    {first second : Option ElementId} (h : e = x.released)
    (hk : e.kind = .operator symbol role first second) :
    first = none ∧ second = none ∧ e.sealed = false := by
  subst h
  unfold released at hk ⊢
  split
  · rename_i hx
    rw [hx] at hk
    cases hk
    exact ⟨rfl, rfl, rfl⟩
  · rename_i hx
    split at hk
    · rename_i hx'
      exact absurd hx' (hx _ _ _ _)
    · exact absurd hk (hx symbol role first second)

theorem Retouched.eq_or_eq_asSign {e e' x : Element} (h : e.Retouched e') (he : e.IsToken)
    (hx : e' = x.released) :
    e' = e ∨ e'.kind.isSign = true ∧ e.kind.isSign = false ∧ e' = e.asSign := by
  cases h with
  | same => exact Or.inl rfl
  | @operator symbol role role' first second first' second' sealed' hk hr =>
    obtain ⟨rfl, rfl⟩ : first = none ∧ second = none :=
      (he.fresh.shaped.operands symbol role first second hk).2 he.unsealed
    obtain ⟨rfl, rfl, rfl⟩ := operands_of_eq_released hx rfl
    by_cases hrole : role' = role
    · left
      rw [hrole, ← hk, ← he.unsealed]
    · right
      obtain rfl := hr.resolve_left hrole
      refine ⟨rfl, ?_, ?_⟩
      · rw [hk]
        cases role <;> simp_all [Kind.isSign]
      · simp only [asSign, hk]
        rw [← he.unsealed]

end Element

open Term

/-- **What a failed reduction leaves behind.**  It only adds elements, and all those
    that were there are as they were, but for the signs of cells: a binary operator
    among these may stay a sign. -/
theorem get_of_reduce_error (c : Context) (w w' : Workspace) (term : List ElementId)
    (fault : Fault) (htoken : ∀ id ∈ term, (w.store.get id).IsToken)
    (hrun : StateT.run (reduce c term).run w = (.error fault, w')) :
    w.store.size ≤ w'.store.size ∧ ∀ id < w.store.size,
      w'.store.get id = w.store.get id ∨
        SignsCell c.vocabulary w.store term id ∧ w'.store.get id = (w.store.get id).asSign := by
  have hterm : ∀ id ∈ term, id < w.store.size := fun id hid => lt_size_of_isToken (htoken id hid)
  have htraced := reduce_traced (c := c) hterm (List.infix_refl term) (.refl c w.store term)
  have hlater := reduce_later c term w
  have hreleased := reduce_released (c := c) term w
  simp only [Reducing.Ensures, hrun] at htraced hlater hreleased
  refine ⟨hlater.size_le, fun id hid => ?_⟩
  by_cases hmem : id ∈ term
  · obtain ⟨x, hx⟩ := hreleased fault rfl id hmem
    refine ((hlater.retouched id hid).eq_or_eq_asSign (htoken id hmem) hx).imp_right ?_
    rintro ⟨hsign, hnot, heq⟩
    refine ⟨(htraced.1.sign id hid hsign).resolve_left ?_, heq⟩
    rw [Store.kind, hnot]
    exact Bool.false_ne_true
  · exact Or.inl (hlater.kept id hid hmem)

/-- In `sqrt a - [1 -2; [3 +b] *]` the cells `-2` and `+b` are read before `*` turns
    out to be none, so the two operators in front of them stay signs. -/
theorem get_of_reduce_error_cells :
    let tokens := ["sqrt", "a", "-", "[", "1", "-", "2", ";", "[", "3", "+", "b", "]", "*", "]"]
    let c : Context := {}
    let w : Workspace := { store := { elements := (classify {} 1 none tokens).toArray } }
    let term := List.range tokens.length
    (∀ id ∈ term, (w.store.get id).IsToken) ∧
      ∃ w', StateT.run (reduce c term).run w = (.error (.unsupportedCell "*"), w') ∧
        w.store.size ≤ w'.store.size ∧ ∀ id < w.store.size,
          w'.store.get id = w.store.get id ∨ SignsCell c.vocabulary w.store term id ∧
            w'.store.get id = (w.store.get id).asSign := by
  intro tokens c w term
  have htoken : ∀ id ∈ term, (w.store.get id).IsToken := by decide +kernel
  have hfault : (StateT.run (reduce c term).run w).1 = .error (.unsupportedCell "*") := by
    decide +kernel
  have hrun : StateT.run (reduce c term).run w =
      (.error (.unsupportedCell "*"), (StateT.run (reduce c term).run w).2) := Prod.ext hfault rfl
  exact ⟨htoken, _, hrun, get_of_reduce_error c w _ term _ htoken hrun⟩

/-- **A failed reduction does not restore all elements**: after `[1 -2 *]` has failed,
    the binary operator `-` is a sign. -/
theorem get_ne_of_reduce_error :
    let tokens := Token.tokenize {} "[1 -2 *]"
    let w : Workspace := { store := { elements := (classify {} 1 none tokens).toArray } }
    let term := List.range tokens.length
    term.Nodup ∧ (∀ id ∈ term, (w.store.get id).IsToken) ∧
      ∃ fault w', StateT.run (reduce {} term).run w = (.error fault, w') ∧ 2 < w.store.size ∧
        w.store.kind 2 = .operator "-" .binary none none ∧
        w'.store.kind 2 = .operator "-" .sign none none := by
  have htokens : Token.tokenize {} "[1 -2 *]" = ["[", "1", "-", "2", "*", "]"] := by decide +kernel
  simp only [htokens]
  refine ⟨List.nodup_range, by decide +kernel, .unsupportedCell "*", _, Prod.ext ?_ rfl, ?_⟩
  · decide +kernel
  · decide +kernel

end FormulaSheet
