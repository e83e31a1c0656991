/-
  Elements carry the texts of their children.

  Without inlining an element writes each of its children once, and what it
  writes around a child does not depend on the text of the child.

  * `Carries f`: `f` writes a text once, between texts that do not depend on it.
  * `Gap`: rows of texts with one text left open.  `exists_gap`: the text of a
    request that is made once can be changed on its own.
  * `nodup_plan`, `parent_of_mem_plan`: every child is asked for once, with the
    element as its parent.
  * `carries_finish`: an element carries the text of each child.
-/
import FormulaSheet.Proofs.Inlining
import Mathlib.Data.List.Nodup

namespace FormulaSheet

open Render Rendering

/-! ## Texts around a text -/

/-- The text is written once, and what stands around it does not depend on it. -/
def Carries (f : String → String) : Prop :=
  ∃ before after, ∀ text, f text = before ++ text ++ after

namespace Carries

variable {f : String → String}

theorem self : Carries fun text => text :=
  ⟨"", "", fun text => by simp⟩

theorem append_left (h : Carries f) (first : String) : Carries fun text => first ++ f text := by
  obtain ⟨before, after, h⟩ := h
  exact ⟨first ++ before, after, fun text => by simp only [h, String.append_assoc]⟩

theorem append_right (h : Carries f) (last : String) : Carries fun text => f text ++ last := by
  obtain ⟨before, after, h⟩ := h
  exact ⟨before, after ++ last, fun text => by simp only [h, String.append_assoc]⟩

theorem join (h : Carries f) (first last : List String) :
    Carries fun text => String.join (first ++ f text :: last) := by
  simp only [String.join_append, String.join_cons]
  exact (h.append_right _).append_left _

theorem intercalate (h : Carries f) (separator : String) (first last : List String) :
    Carries fun text => separator.intercalate (first ++ f text :: last) := by
  have hlast : Carries fun text => separator.intercalate (f text :: last) := by
    cases last with
    | nil => simpa only [String.intercalate_singleton] using h
    | cons next last =>
      simp only [String.intercalate_cons_cons]
      exact (h.append_right _).append_right _
  cases first with
  | nil => exact hlast
  | cons head first =>
    have hsplit : ∀ text, separator.intercalate (head :: first ++ f text :: last) =
        separator.intercalate (head :: first) ++ separator ++
          separator.intercalate (f text :: last) := fun text =>
      String.intercalate_append_of_ne_nil (List.cons_ne_nil _ _) (List.cons_ne_nil _ _)
    simp only [hsplit]
    exact hlast.append_left _

end Carries

/-- Rows of texts with one text left open. -/
structure Gap where
  above : List (List String)
  before : List String
  after : List String
  below : List (List String)

namespace Gap

/-- The rows with the open text. -/
def put (gap : Gap) (text : String) : List (List String) :=
  gap.above ++ (gap.before ++ text :: gap.after) :: gap.below

theorem flatten_put (gap : Gap) (text : String) : (gap.put text).flatten =
    (gap.above.flatten ++ gap.before) ++ text :: (gap.after ++ gap.below.flatten) := by
  simp [put]

/-- The gap is in the first row or in one of the others. -/
theorem head_or_tail (gap : Gap) :
    (∃ tail, ∀ text, gap.put text = (gap.before ++ text :: gap.after) :: tail) ∨
      ∃ (head : List String) (inner : Gap), ∀ text, gap.put text = head :: inner.put text := by
  obtain ⟨above, before, after, below⟩ := gap
  cases above with
  | nil => exact Or.inl ⟨below, fun _ => rfl⟩
  | cons head above => exact Or.inr ⟨head, ⟨above, before, after, below⟩, fun _ => rfl⟩

end Gap

theorem exists_split {α β : Type} {R : α → β → Prop} {xs : List α} {ys : List β}
    (h : List.Forall₂ R xs ys) {x : α} (hx : x ∈ xs) :
    ∃ xs₁ xs₂ ys₁ y ys₂, xs = xs₁ ++ x :: xs₂ ∧ ys = ys₁ ++ y :: ys₂ ∧
      List.Forall₂ R xs₁ ys₁ ∧ R x y ∧ List.Forall₂ R xs₂ ys₂ := by
  induction h with
  | nil => cases hx
  | @cons x' y' xs ys hxy hys ih =>
    rcases List.mem_cons.1 hx with rfl | hx
    · exact ⟨[], xs, [], y', ys, rfl, rfl, .nil, hxy, hys⟩
    · obtain ⟨xs₁, xs₂, ys₁, y, ys₂, rfl, rfl, h₁, hy, h₂⟩ := ih hx
      exact ⟨x' :: xs₁, xs₂, y' :: ys₁, y, ys₂, rfl, rfl, .cons hxy h₁, hy, h₂⟩

/-- The text of a request that is made once can be changed on its own. -/
theorem exists_gap {R : Request → String → Prop} {rows : List (List Request)}
    {texts : List (List String)} (h : List.Forall₂ (List.Forall₂ R) rows texts)
    (hn : rows.flatten.Nodup) {row : List Request} (hrow : row ∈ rows) {r : Request}
    (hr : r ∈ row) :
    ∃ (gap : Gap) (text : String), texts = gap.put text ∧ R r text ∧
      ∀ (S : Request → String → Prop) (other : String), S r other →
        (∀ r' t, r' ≠ r → R r' t → S r' t) →
        List.Forall₂ (List.Forall₂ S) rows (gap.put other) := by
  obtain ⟨above, below, texts₁, _, texts₂, rfl, rfl, habove, hrow, hbelow⟩ := exists_split h hrow
  obtain ⟨before, after, ts₁, text, ts₂, rfl, rfl, hbefore, hrt, hafter⟩ := exists_split hrow hr
  refine ⟨⟨texts₁, ts₁, ts₂, texts₂⟩, text, rfl, hrt, fun S other hs hother => ?_⟩
  have hflat : (above ++ (before ++ r :: after) :: below).flatten =
      (above.flatten ++ before) ++ r :: (after ++ below.flatten) := by simp
  rw [hflat, List.nodup_middle, List.nodup_cons] at hn
  simp only [List.mem_append, List.mem_flatten, not_or, not_exists, not_and] at hn
  obtain ⟨⟨⟨hna, hnb⟩, hnc, hnd⟩, -⟩ := hn
  have keep : ∀ {row texts}, List.Forall₂ R row texts → r ∉ row → List.Forall₂ S row texts := by
    intro row texts h hnot
    refine ((List.forall₂_and_left row texts).2 ⟨fun _ hm => hm, h⟩).imp fun r' t hrt => ?_
    exact hother r' t (fun he => hnot (he ▸ hrt.1)) hrt.2
  have keepAll : ∀ {rows texts}, List.Forall₂ (List.Forall₂ R) rows texts →
      (∀ row ∈ rows, r ∉ row) → List.Forall₂ (List.Forall₂ S) rows texts := by
    intro rows texts h hnot
    refine ((List.forall₂_and_left rows texts).2 ⟨fun _ hm => hm, h⟩).imp fun row t hrt => ?_
    exact keep hrt.2 (hnot row hrt.1)
  have hmiddle := List.rel_append (keep hbefore hnb) (.cons hs (keep hafter hnc))
  exact List.rel_append (keepAll habove hna) (.cons hmiddle (keepAll hbelow hnd))

theorem forall₂_mem_rows {R : Request → String → Prop} {rows : List (List Request)}
    {texts : List (List String)} (h : List.Forall₂ (List.Forall₂ R) rows texts) :
    List.Forall₂ (List.Forall₂ fun r t => (∃ row ∈ rows, r ∈ row) ∧ R r t) rows texts := by
  refine ((List.forall₂_and_left rows texts).2 ⟨fun _ hm => hm, h⟩).imp fun row t hrow => ?_
  refine ((List.forall₂_and_left row t).2 ⟨fun _ hm => hm, hrow.2⟩).imp fun r t hr => ?_
  exact ⟨⟨row, hrow.1, hr.1⟩, hr.2⟩

variable {script : Script} {options : RenderOptions} {id : ElementId} {parent : Option ElementId}

/-! ## What an element asks for -/

theorem nodup_below {ids : List ElementId} (h : ids.Nodup) (scope : Scope) :
    (below id scope ids).Nodup :=
  h.map fun _ _ he => (Request.mk.inj he).1

theorem nodup_two_rows {first second : List ElementId} (h : (first ++ second).Nodup) :
    [below id [] first, below id [] second].flatten.Nodup := by
  have hflat : [below id [] first, below id [] second].flatten = below id [] (first ++ second) := by
    simp [below]
  rw [hflat]
  exact nodup_below h []

/-- Cells with different values stand in different rows, or apart in one. -/
theorem nodup_array_rows {cells : List Cell} (h : (cells.map Cell.value).Nodup) :
    ((List.range (rowCount cells)).map fun row =>
      below id [] ((rowCells cells row).map Cell.value)).flatten.Nodup := by
  rw [← List.flatMap_def, List.nodup_flatMap]
  constructor
  · intro row _
    refine nodup_below ?_ []
    rw [rowCells_eq, ((List.mergeSort_perm _ _).map Cell.value).nodup_iff]
    exact (List.filter_sublist.map Cell.value).nodup h
  · refine List.nodup_range.imp fun {row row'} hne r hr hr' => ?_
    obtain ⟨_, hv, rfl⟩ := List.mem_map.1 hr
    obtain ⟨_, hv', he⟩ := List.mem_map.1 hr'
    obtain ⟨cell, hcell, rfl⟩ := List.mem_map.1 hv
    obtain ⟨cell', hcell', rfl⟩ := List.mem_map.1 hv'
    obtain rfl : cell' = cell :=
      List.inj_on_of_nodup_map h (mem_rowCells.1 hcell').1 (mem_rowCells.1 hcell).1
        (Request.mk.inj he).1
    exact hne ((mem_rowCells.1 hcell).2.symm.trans (mem_rowCells.1 hcell').2)

/-- Nothing is asked for twice. -/
theorem nodup_plan (hoff : options.inlining = false)
    (h : (script.store.kind id).children.Nodup) (parent : Option ElementId) :
    (plan script options id parent []).rows.flatten.Nodup := by
  unfold plan
  dsimp only
  rw [← Store.kind]
  generalize script.store.kind id = kind at h
  cases kind with
  | operator | access | declaration => exact nodup_two_rows h
  | array cells => exact nodup_array_rows h
  | function parameters body =>
    cases body with
    | none => exact .nil
    | some body => exact nodup_two_rows h
  | call function arguments =>
    dsimp only [planCall]
    split
    · simp only [hoff, Bool.not_false, Bool.true_or, if_true]
      split
      · exact .nil
      · rw [List.flatten_singleton]
        exact nodup_below h []
    · exact .nil
  | name name => exact .nil
  | _ => exact .nil

/-- Every branch hands itself down as the parent. -/
theorem parent_of_mem_plan (hoff : options.inlining = false) {row : List Request} {r : Request}
    (hrow : row ∈ (plan script options id parent []).rows) (hr : r ∈ row) :
    r.parent = some id := by
  have child : ∀ {ids : List ElementId}, r ∈ below id [] ids → r.parent = some id := by
    intro ids h
    obtain ⟨x, -, rfl⟩ := List.mem_map.1 h
    rfl
  have two : ∀ {first second : List ElementId}, row ∈ [below id [] first, below id [] second] →
      r.parent = some id := by
    intro first second h
    rcases List.mem_pair.1 h with rfl | rfl <;> exact child hr
  unfold plan at hrow
  dsimp only at hrow
  generalize (script.store.get id).kind = kind at hrow
  cases kind with
  | operator | access | declaration => exact two hrow
  | array cells =>
    obtain ⟨i, -, rfl⟩ := List.mem_map.1 hrow
    exact child hr
  | function parameters body =>
    cases body with
    | none => cases hrow
    | some body => exact two hrow
  | call function arguments =>
    dsimp only [planCall] at hrow
    split at hrow
    · simp only [hoff, Bool.not_false, Bool.true_or, if_true] at hrow
      split at hrow
      · cases hrow
      · rw [List.mem_singleton.1 hrow] at hr
        exact child hr
    · cases hrow
  | _ => cases hrow

/-! ## One child of an element -/

/-- A gap in the operands of an operator is one of the operands. -/
theorem put_operands {P : Request → String → Prop} {x : ElementId} {second : Option ElementId}
    {gap : Gap} (h : List.Forall₂ (List.Forall₂ P)
      [below id [] [x], below id [] second.toList] (gap.put "")) :
    (∃ last, last.length = second.toList.length ∧ ∀ text, gap.put text = [[text], last]) ∨
      second.isSome = true ∧ ∃ text', ∀ text, gap.put text = [[text'], [text]] := by
  obtain ⟨above, before, after, below⟩ := gap
  cases above with
  | nil =>
    obtain _ | ⟨hfirst, _ | ⟨hlast, _ | _⟩⟩ := h
    have hone := hfirst.length_eq
    simp only [Render.below, List.length_append, List.length_cons, List.map_cons, List.map_nil,
      List.length_nil] at hone
    obtain rfl : before = [] := List.eq_nil_of_length_eq_zero (by omega)
    obtain rfl : after = [] := List.eq_nil_of_length_eq_zero (by omega)
    exact Or.inl ⟨_, by simpa [Render.below] using hlast.length_eq.symm, fun _ => rfl⟩
  | cons row above =>
    have hrows := h.length_eq
    simp only [Gap.put, List.length_append, List.length_cons, List.length_nil] at hrows
    obtain _ | ⟨hfirst, hrest⟩ := h
    obtain ⟨text', rfl⟩ := head?_of_below hfirst
    obtain rfl : above = [] := List.eq_nil_of_length_eq_zero (by omega)
    obtain rfl : below = [] := List.eq_nil_of_length_eq_zero (by omega)
    obtain _ | ⟨hlast, -⟩ := hrest
    have hone := hlast.length_eq
    simp only [Render.below, List.length_map, List.length_append, List.length_cons] at hone
    cases second with
    | none => simp at hone
    | some y =>
      simp only [Option.toList_some, List.length_singleton] at hone
      obtain rfl : before = [] := List.eq_nil_of_length_eq_zero (by omega)
      obtain rfl : after = [] := List.eq_nil_of_length_eq_zero (by omega)
      exact Or.inr ⟨rfl, text', fun _ => rfl⟩

/-- An operator writes each of its operands once. -/
theorem carries_operatorText {P : Request → String → Prop} {symbol : String} {role : Role}
    {first second : Option ElementId} (hfirst : first.isSome = true)
    (hsecond : second.isSome = true ↔ role = .binary) {gap : Gap}
    (h : List.Forall₂ (List.Forall₂ P)
      [below id [] first.toList, below id [] second.toList] (gap.put ""))
    (style : Style) (nested : Bool) :
    ∃ f, Carries f ∧ ∀ text, operatorText style symbol role nested
      ((gap.put text).headD []).head? ((gap.put text).tail.headD []).head? = .ok (f text) := by
  have parens : ∀ {f : String → String}, Carries f →
      Carries fun text => if nested then "(" ++ f text ++ ")" else f text := by
    intro f hf
    cases nested with
    | true => exact (hf.append_left _).append_right _
    | false => exact hf
  obtain ⟨x, rfl⟩ := Option.isSome_iff_exists.1 hfirst
  rcases put_operands h with ⟨last, hlast, hput⟩ | ⟨hsome, text', hput⟩
  · simp only [hput, operatorText, List.headD_cons, List.tail_cons, List.head?_cons]
    by_cases hs : symbol = "/"
    · simp only [hs, if_true, Option.getD_some]
      exact ⟨_, (((Carries.self.append_left _).append_right _).append_right _).append_right _,
        fun _ => rfl⟩
    · simp only [hs, if_false]
      cases role with
      | binary =>
        obtain ⟨y, rfl⟩ := Option.isSome_iff_exists.1 (hsecond.2 rfl)
        obtain ⟨text', rfl⟩ := List.length_eq_one_iff.1 hlast
        exact ⟨_, parens (((Carries.self.append_right _).append_right _).append_right _
          |>.append_right _), fun _ => rfl⟩
      | function => exact ⟨_, (Carries.self.append_left _).append_right _, fun _ => rfl⟩
      | sign => exact ⟨_, Carries.self.append_left _, fun _ => rfl⟩
  · obtain rfl := hsecond.1 hsome
    simp only [hput, operatorText, List.headD_cons, List.tail_cons, List.head?_cons]
    by_cases hs : symbol = "/"
    · simp only [hs, if_true, Option.getD_some]
      exact ⟨_, (Carries.self.append_left _).append_right _, fun _ => rfl⟩
    · simp only [hs, if_false]
      exact ⟨_, parens (Carries.self.append_left _), fun _ => rfl⟩

/-- An element writes the text of a child once, and the rest does not depend on
    it. -/
theorem carries_finish (hs : script.Sound) (hoff : options.inlining = false)
    (hr : script.Reaches id) {P : Request → String → Prop} {gap : Gap}
    (h : List.Forall₂ (List.Forall₂ P) (plan script options id parent []).rows (gap.put "")) :
    ∃ f, Carries f ∧ ∀ text,
      (plan script options id parent []).finish (gap.put text) = .ok (f text) := by
  have hwf := hs.wellFormed hr
  have none : ¬ List.Forall₂ (List.Forall₂ P) [] (gap.put "") := by
    intro hnil
    have hput := List.forall₂_nil_left_iff.1 hnil
    simp [Gap.put] at hput
  unfold plan at h ⊢
  dsimp only at h ⊢
  rw [← Store.kind] at h ⊢
  generalize hk : script.store.kind id = kind at h ⊢
  cases kind with
  | operator symbol role first second =>
    obtain ⟨-, hfirst, hsecond⟩ := hwf.operands symbol role first second hk
    exact carries_operatorText hfirst hsecond h _ _
  | array cells =>
    refine ⟨_, ?_, fun _ => rfl⟩
    simp only [arrayText, Gap.put, List.map_append, List.map_cons]
    exact (((Carries.self.intercalate _ _ _).intercalate _ _ _).append_left _
      |>.append_right _ |>.append_right _ |>.append_right _)
  | access target indexes =>
    refine ⟨_, ?_, fun _ => rfl⟩
    rcases gap.head_or_tail with ⟨tail, hput⟩ | ⟨head, inner, hput⟩
    · simp only [listText, hput, List.headD_cons, List.tail_cons]
      exact (Carries.self.join _ _).append_right _ |>.append_right _ |>.append_right _
    · simp only [listText, hput, List.headD_cons, List.tail_cons, Gap.flatten_put]
      exact (Carries.self.intercalate _ _ _).append_left _ |>.append_right _
  | function parameters body =>
    obtain ⟨b, rfl⟩ := Option.isSome_iff_exists.1 (hwf.body parameters body hk)
    refine ⟨_, ?_, fun _ => rfl⟩
    rcases gap.head_or_tail with ⟨tail, hput⟩ | ⟨head, inner, hput⟩
    · simp only [hput, List.headD_cons, List.tail_cons]
      exact (Carries.self.intercalate _ _ _).append_left _ |>.append_right _ |>.append_right _
    · simp only [hput, List.headD_cons, List.tail_cons, Gap.flatten_put]
      exact (Carries.self.join _ _).append_left _
  | call function arguments =>
    obtain ⟨parameters, body, name, hf, hname⟩ := hs.callee hr hk
    have hname : script.declaredName? function = some name := hname _ (.refl _)
    simp only [planCall, hf, hname, hoff, Bool.not_false, Bool.true_or, if_true]
    refine ⟨_, ?_, fun _ => rfl⟩
    simp only [listText, Gap.flatten_put]
    exact (Carries.self.intercalate _ _ _).append_left _ |>.append_right _
  | declaration target content form =>
    refine ⟨_, ?_, fun _ => rfl⟩
    rcases gap.head_or_tail with ⟨tail, hput⟩ | ⟨head, inner, hput⟩
    · simp only [hput, List.headD_cons, List.tail_cons]
      exact (Carries.self.join _ _).append_right _ |>.append_right _
    · simp only [hput, List.headD_cons, List.tail_cons, Gap.flatten_put]
      exact (Carries.self.join _ _).append_left _
  | name name => exact absurd h none
  | _ => exact absurd h none

end FormulaSheet
