/-
  Array literals and the arrays they become.

  * `Lists v s .literal ids rows`: the elements are a literal, rows of cells with
    a semicolon after each row but the last.  Commas do not count, and a cell may
    be a literal in brackets.
  * `lists_iff`: these are the elements all of whose `items` can be read.
  * `Shows v s₀ s item id`: the cell `item` of `s₀` has become the element `id`
    of `s`.
  * `layout_lays`: what is laid out from a position on; `buildArray_builds`: a
    literal becomes an array without gaps, and nothing else becomes an array.
-/
import FormulaSheet.Proofs.Conservation
import FormulaSheet.Proofs.Grid

namespace FormulaSheet.Term

/-! ## The grammar -/

/-- The symbols of the grammar of array literals. -/
inductive ArraySymbol where
  | cell
  | row
  | literal
  deriving DecidableEq, Repr

/-- The elements derive from the symbol and list the given rows. -/
inductive Lists (v : Vocabulary) (s : Store) :
    ArraySymbol → List ElementId → List (List Item) → Prop
  /-- A value, a name or a token that is not recognized. -/
  | plain {id : ElementId} (h : (s.kind id).isAtom = true) : Lists v s .cell [id] [[.cell id]]
  /-- A dual operator right before a value or a name. -/
  | signed {sign operand : ElementId} {symbol : String} {role : Role}
      {first second : Option ElementId} (hk : s.kind sign = .operator symbol role first second)
      (hd : v.isDual symbol = true) (ho : canBeSigned (s.kind operand) = true) :
      Lists v s .cell [sign, operand] [[.signed sign operand]]
  | nested {opening closing : ElementId} {inner : List ElementId} {rows : List (List Item)}
      (ho : s.kind opening = .delimiter .bracket .opening) (h : Lists v s .literal inner rows)
      (hc : s.kind closing = .delimiter .bracket .closing) :
      Lists v s .cell (opening :: (inner ++ [closing])) [[.nested inner]]
  | nil : Lists v s .row [] [[]]
  | comma {id : ElementId} {rest : List ElementId} {row : List Item} (hk : s.kind id = .comma)
      (h : Lists v s .row rest [row]) : Lists v s .row (id :: rest) [row]
  | cons {front rest : List ElementId} {item : Item} {row : List Item}
      (hc : Lists v s .cell front [[item]]) (h : Lists v s .row rest [row]) :
      Lists v s .row (front ++ rest) [item :: row]
  | last {ids : List ElementId} {row : List Item} (h : Lists v s .row ids [row]) :
      Lists v s .literal ids [row]
  | semicolon {front rest : List ElementId} {id : ElementId} {row : List Item}
      {rows : List (List Item)} (h : Lists v s .row front [row]) (hk : s.kind id = .semicolon)
      (hr : Lists v s .literal rest rows) : Lists v s .literal (front ++ id :: rest) (row :: rows)

variable {v : Vocabulary} {s s₀ : Store} {symbol : ArraySymbol}
  {ids ids' inner front rest : List ElementId} {id : ElementId} {item : Item} {row : List Item}
  {rows : List (List Item)}

/-- The brackets among the elements close each other. -/
def Balanced (s : Store) (ids : List ElementId) : Prop :=
  ∀ depth rest, splitClosing? s .bracket depth (ids ++ rest) =
    (splitClosing? s .bracket depth rest).map fun p => (ids ++ p.1, p.2)

theorem Balanced.append (h : Balanced s ids) (h' : Balanced s ids') : Balanced s (ids ++ ids') := by
  intro depth rest
  rw [List.append_assoc, h, h', Option.map_map]
  simp only [Function.comp_def, List.append_assoc]

theorem Balanced.single (h : ∀ side, s.kind id ≠ .delimiter .bracket side) : Balanced s [id] :=
  fun depth rest => splitClosing?_other h depth rest

theorem Balanced.bracketed {opening closing : ElementId} (h : Balanced s inner)
    (ho : s.kind opening = .delimiter .bracket .opening)
    (hc : s.kind closing = .delimiter .bracket .closing) :
    Balanced s (opening :: (inner ++ [closing])) := by
  intro depth rest
  rw [List.cons_append, List.append_assoc, splitClosing?_opening ho, h, List.singleton_append,
    splitClosing?_closing hc, Option.map_map, Option.map_map]
  simp only [Function.comp_def, List.cons_append, List.append_assoc, List.nil_append]

theorem Lists.balanced (h : Lists v s symbol ids rows) : Balanced s ids := by
  induction h with
  | plain h => exact .single fun side hk => by simp [hk, Kind.isAtom] at h
  | signed hk _ ho =>
    refine .append (.single fun side hs => ?_) (.single fun side hs => ?_)
    · rw [hk] at hs
      cases hs
    · rw [hs] at ho
      cases ho
  | nested ho _ hc ih => exact ih.bracketed ho hc
  | nil => exact fun depth rest => by simp
  | comma hk _ ih => exact .append (.single fun side => by simp [hk]) ih
  | cons _ _ ihc ih => exact ihc.append ih
  | last _ ih => exact ih
  | semicolon _ hk _ ih ihr => exact ih.append (.append (.single fun side => by simp [hk]) ihr)

/-! ## Items -/

/-- The part can be read: a nested literal is one. -/
def Item.IsSound (v : Vocabulary) (s : Store) : Item → Prop
  | nested inner => ∃ rows, Lists v s .literal inner rows
  | unsupported _ | unclosed => False
  | rowEnd | cell _ | signed _ _ => True

theorem Lists.ne_nil (h : Lists v s symbol ids rows) : rows ≠ [] := by
  cases h <;> simp

theorem Lists.isSound (h : Lists v s symbol ids rows) :
    ∀ row ∈ rows, ∀ item ∈ row, item.IsSound v s ∧ item ≠ .rowEnd := by
  induction h with
  | plain => simp [Item.IsSound]
  | signed => simp [Item.IsSound]
  | nested _ h => simpa [Item.IsSound] using ⟨_, h⟩
  | nil => simp
  | comma _ _ ih => exact ih
  | cons _ _ ihc ih =>
    rw [List.forall_mem_singleton, List.forall_mem_cons]
    rw [List.forall_mem_singleton] at ihc ih
    exact ⟨ihc _ List.mem_cons_self, ih⟩
  | last _ ih => exact ih
  | semicolon _ _ _ ih ihr =>
    exact List.forall_mem_cons.2 ⟨ih _ List.mem_cons_self, ihr⟩

/-- The items are those of the rows, with the row ends between them. -/
theorem Lists.items_append (h : Lists v s symbol ids rows) (rest : List ElementId) :
    items v s (ids ++ rest) = [.rowEnd].intercalate rows ++ items v s rest := by
  induction h generalizing rest with
  | @plain id h =>
    rw [List.singleton_append, items, List.intercalate_singleton]
    cases hk : s.kind id <;> simp_all [Kind.isAtom, Kind.isStructural]
  | signed hk hd ho =>
    rw [List.cons_append, items, hk, List.intercalate_singleton]
    simp [hd, ho]
  | @nested opening closing inner rows ho h hc =>
    have hsplit : splitClosing? s .bracket 0 (inner ++ closing :: rest) = some (inner, rest) := by
      rw [h.balanced, splitClosing?]
      simp [hc]
    rw [List.cons_append, List.append_assoc, List.singleton_append, items, ho,
      List.intercalate_singleton]
    dsimp only
    rw [hsplit]
    rfl
  | nil => rfl
  | comma hk _ ih =>
    rw [List.cons_append, items, hk]
    exact ih rest
  | cons _ _ ihc ih =>
    rw [List.append_assoc, ihc, ih, List.intercalate_singleton, List.intercalate_singleton,
      List.intercalate_singleton, List.cons_append]
    rfl
  | last _ ih => exact ih rest
  | @semicolon front after id row rows _ hk hr ih ihr =>
    have hrest : items v s (id :: (after ++ rest)) = .rowEnd :: items v s (after ++ rest) := by
      rw [items, hk]
    rw [List.append_assoc, List.cons_append, ih, hrest, ihr, List.intercalate_singleton,
      List.intercalate_cons_of_ne_nil hr.ne_nil]
    simp

theorem mem_intercalate (h : item ∈ [.rowEnd].intercalate rows) :
    item = .rowEnd ∨ ∃ row ∈ rows, item ∈ row := by
  induction rows with
  | nil => cases h
  | cons row rows ih =>
    cases rows with
    | nil =>
      rw [List.intercalate_singleton] at h
      exact Or.inr ⟨row, List.mem_cons_self, h⟩
    | cons next rows =>
      rw [List.intercalate_cons_cons, List.append_assoc, List.mem_append, List.mem_append] at h
      rcases h with h | h | h
      · exact Or.inr ⟨row, List.mem_cons_self, h⟩
      · exact Or.inl (List.mem_singleton.1 h)
      · exact (ih h).imp_right fun ⟨row', hrow, hm⟩ => ⟨row', List.mem_cons_of_mem _ hrow, hm⟩

theorem splitOn_rowEnd (parts : List Item) :
    (Item.rowEnd :: parts).splitOn .rowEnd = [] :: parts.splitOn .rowEnd := by
  rw [List.splitOn, List.splitOnP_cons_eq_if_modifyHead]
  rfl

theorem splitOn_cons (h : item ≠ .rowEnd) (parts : List Item) :
    (item :: parts).splitOn .rowEnd = (parts.splitOn .rowEnd).modifyHead (item :: ·) := by
  rw [List.splitOn, List.splitOnP_cons_eq_if_modifyHead, if_neg (by simpa using h)]
  rfl

theorem Lists.onHead (hc : Lists v s .cell front [[item]]) (h : Lists v s .literal rest rows) :
    Lists v s .literal (front ++ rest) (rows.modifyHead (item :: ·)) := by
  cases h with
  | last h => exact .last (.cons hc h)
  | semicolon h hk hr =>
    rw [← List.append_assoc]
    exact .semicolon (.cons hc h) hk hr

theorem Lists.skip (hk : s.kind id = .comma) (h : Lists v s .literal rest rows) :
    Lists v s .literal (id :: rest) rows := by
  cases h with
  | last h => exact .last (.comma hk h)
  | semicolon h hk' hr => exact .semicolon (.comma hk h) hk' hr

/-- Elements all of whose items can be read are a literal. -/
theorem lists_of_isSound (ht : ∀ id ∈ ids, (s.get id).IsToken)
    (h : ∀ item ∈ items v s ids, item.IsSound v s) :
    Lists v s .literal ids ((items v s ids).splitOn .rowEnd) := by
  fun_induction items v s ids with
  | case1 => exact .last .nil
  | case2 id rest hk ih =>
    rw [splitOn_rowEnd]
    exact .semicolon .nil hk (ih (List.forall_mem_cons.1 ht).2 (List.forall_mem_cons.1 h).2)
  | case3 id rest hk ih => exact (ih (List.forall_mem_cons.1 ht).2 h).skip hk
  | case4 => exact (h _ List.mem_cons_self).elim
  | case5 opening _ hk nested after hs ih =>
    obtain ⟨closing, rfl, hclosing⟩ := eq_append_of_splitClosing? hs
    obtain ⟨⟨rows, hnested⟩, hafter⟩ := List.forall_mem_cons.1 h
    have hliteral := ih (fun id hm => ht id (by simp [hm])) hafter
    rw [splitOn_cons (by simp)]
    simpa using Lists.onHead (.nested hk hnested hclosing) hliteral
  | case6 => exact (h _ List.mem_cons_self).elim
  | case7 sign symbol role first second hk operand after hc ih =>
    rw [Bool.and_eq_true] at hc
    have hliteral := ih (fun id hm => ht id (by simp [hm])) (List.forall_mem_cons.1 h).2
    rw [splitOn_cons (by simp)]
    exact Lists.onHead (.signed hk hc.1 hc.2) hliteral
  | case8 => exact (h _ List.mem_cons_self).elim
  | case9 => exact (h _ List.mem_cons_self).elim
  | case10 id after hsemi hcomma hopen hop hst ih =>
    have hliteral := ih (List.forall_mem_cons.1 ht).2 (List.forall_mem_cons.1 h).2
    have hpending : (s.get id).pendingRole? = none := by
      unfold Element.pendingRole?
      split
      · rename_i hk
        exact absurd hk (hop _ _ _ _)
      · rfl
    have hplain : (s.kind id).isStructural = false := by simpa using hst
    have hatom := isAtom_of_isToken (ht id List.mem_cons_self) hplain hpending
    rw [splitOn_cons (by simp)]
    exact Lists.onHead (.plain hatom) hliteral

/-- **Literals are what can be read item by item.** -/
theorem lists_iff (ht : ∀ id ∈ ids, (s.get id).IsToken) :
    Lists v s .literal ids rows ↔
      (∀ item ∈ items v s ids, item.IsSound v s) ∧ (items v s ids).splitOn .rowEnd = rows := by
  constructor
  · intro h
    have hitems : items v s ids = [.rowEnd].intercalate rows := by
      simpa [items] using h.items_append []
    have hrows := List.splitOn_intercalate .rowEnd
      (fun row hrow hm => (h.isSound row hrow _ hm).2 rfl) h.ne_nil
    refine ⟨fun item hm => ?_, by rw [hitems, hrows]⟩
    rcases mem_intercalate (hitems ▸ hm) with rfl | ⟨row, hrow, hm⟩
    · trivial
    · exact (h.isSound row hrow item hm).1
  · rintro ⟨h, rfl⟩
    exact lists_of_isSound ht h

/-! ## Laying out cells -/

/-- What has become of a cell. -/
inductive Shows (v : Vocabulary) (s₀ s : Store) : Item → ElementId → Prop
  | plain {id : ElementId} (h : s.get id = s₀.get id) : Shows v s₀ s (.cell id) id
  /-- The operator has become a sign and holds what it stands before. -/
  | signed {sign operand : ElementId} {symbol : String} {role : Role}
      {first second : Option ElementId} (hk : s₀.kind sign = .operator symbol role first second)
      (hs : s.kind sign = .operator symbol .sign (some operand) none)
      (ho : s.get operand = s₀.get operand) : Shows v s₀ s (.signed sign operand) sign
  /-- A new array holds the rows of the nested literal that are not empty. -/
  | nested {inner : List ElementId} {rows : List (List Item)} {id : ElementId}
      {values : List (List ElementId)} (h : Lists v s₀ .literal inner rows) (hnew : s₀.size ≤ id)
      (hk : s.kind id = .array (grid values))
      (hv : List.Forall₂ (List.Forall₂ (Shows v s₀ s)) (rows.filter fun row => !row.isEmpty)
        values) : Shows v s₀ s (.nested inner) id

/-- The store `s'` has what was made in `s` of the elements `ids` of `s₀`. -/
def Retains (s₀ s s' : Store) (ids : List ElementId) : Prop :=
  ∀ id < s.size, (id < s₀.size → id ∈ ids) → s'.get id = s.get id

theorem Retains.mono {s' : Store} (h : Retains s₀ s s' ids) (hi : inner ⊆ ids) :
    Retains s₀ s s' inner :=
  fun id hlt hm => h id hlt fun hold => hi (hm hold)

/-- What was made of the first elements is not changed by steps on others. -/
theorem Retains.first {s' s'' : Store} (h : Retains s₀ s'' s' (front ++ rest))
    (hs : Store.Later rest s s'') (hrest : ∀ id ∈ rest, id < s₀.size ∧ id ∉ front) :
    Retains s₀ s s' front := by
  intro id hlt hm
  have hother : id ∉ rest := fun hr => (hrest id hr).2 (hm (hrest id hr).1)
  rw [h id (Nat.lt_of_lt_of_le hlt hs.size_le) fun hold => List.mem_append_left _ (hm hold),
    hs.kept id hlt hother]

theorem Retains.of_push {s' : Store} {e : Element} (h : Retains s₀ (s.push e) s' ids) :
    Retains s₀ s s' ids := by
  intro id hlt hm
  rw [h id (by rw [Store.size_push]; omega) hm, Store.get_push_of_lt e hlt]

/-- The cells of rows from a position on; an empty row takes up no place. -/
def placeRows : (row col : Nat) → List (List ElementId) → List Cell
  | _, _, [] => []
  | row, col, ids :: rows =>
    placeRow row col ids ++ placeRows (if col = 0 ∧ ids = [] then row else row + 1) 0 rows

theorem placeRows_zero (k : Nat) (values : List (List ElementId)) :
    placeRows k 0 values = gridFrom k (values.filter fun row => !row.isEmpty) := by
  induction values generalizing k with
  | nil => rfl
  | cons ids values ih =>
    cases ids with
    | nil => simp [placeRows, ih]
    | cons id ids => simp [placeRows, ih]

theorem placeRows_cons (k j : Nat) (id : ElementId) (ids : List ElementId)
    (values : List (List ElementId)) :
    placeRows k j ((id :: ids) :: values) = ⟨id, k, j⟩ :: placeRows k (j + 1) (ids :: values) := by
  simp [placeRows]

variable {c : Context} {parts : List Item} {w w' : Workspace}

/-- What laying out parts comes to: their cells in their places if all can be
    read, and a fault otherwise.  The cells are looked at in any store that has
    what was made of the parts, so that steps on later parts do not matter. -/
def LaidOut (c : Context) (s₀ : Store) (parts : List Item) (k j : Nat)
    (r : Except Fault (List Cell)) (w : Workspace) : Prop :=
  match r with
  | .ok cells => (∀ item ∈ parts, item.IsSound c.vocabulary s₀) ∧
      ∃ values, cells = placeRows k j values ∧
        ∀ s', Retains s₀ w.store s' (parts.flatMap Item.ids) →
          List.Forall₂ (List.Forall₂ (Shows c.vocabulary s₀ s')) (parts.splitOn .rowEnd) values
  | .error _ => ¬ ∀ item ∈ parts, item.IsSound c.vocabulary s₀

/-- What reading a literal comes to. -/
def BuildsGrid (c : Context) (s₀ : Store) (inner : List ElementId) (r : Except Fault ElementId)
    (w : Workspace) : Prop :=
  match r with
  | .ok id => ∃ rows, Lists c.vocabulary s₀ .literal inner rows ∧
      ∃ values, w.store.kind id = .array (grid values) ∧ [] ∉ values ∧
        ∀ s', Retains s₀ w.store s' inner →
          List.Forall₂ (List.Forall₂ (Shows c.vocabulary s₀ s'))
            (rows.filter fun row => !row.isEmpty) values
  | .error _ => ∀ rows, ¬ Lists c.vocabulary s₀ .literal inner rows

theorem LaidOut.rowEnd {k j k' j' : Nat} {r : Except Fault (List Cell)}
    (h : LaidOut c s₀ parts k' j' r w)
    (hskip : ∀ values, placeRows k' j' values = placeRows k j ([] :: values)) :
    LaidOut c s₀ (.rowEnd :: parts) k j r w := by
  cases r with
  | error fault => exact fun hall => h (List.forall_mem_cons.1 hall).2
  | ok cells =>
    obtain ⟨hall, values, rfl, hvalues⟩ := h
    refine ⟨List.forall_mem_cons.2 ⟨trivial, hall⟩, [] :: values, hskip values, ?_⟩
    intro s' hs'
    rw [splitOn_rowEnd]
    exact .cons .nil (hvalues s' hs')

theorem shows_cell {s' : Store} (h : Untouched c s₀ s (id :: rest))
    (hs' : Retains s₀ s s' [id]) : Shows v s₀ s' (.cell id) id := by
  have hlt := Nat.lt_of_lt_of_le (h.lt_size List.mem_cons_self) h.size_le
  exact .plain ((hs' id hlt fun _ => List.mem_cons_self).trans (h.same id List.mem_cons_self))

theorem shows_signed {s' : Store} {sign operand : ElementId}
    (h : Untouched c s₀ s (sign :: operand :: rest)) (ho : (s₀.kind sign).isOperator = true)
    (hs' : Retains s₀ (s.modify sign (·.signOf operand)) s' [sign, operand]) :
    Shows v s₀ s' (.signed sign operand) sign := by
  obtain ⟨symbol, role, first, second, hk⟩ := Kind.isOperator_iff.1 ho
  have hget : ∀ id ∈ [sign, operand],
      s'.get id = (s.modify sign (·.signOf operand)).get id := fun id hm => by
    refine hs' id ?_ fun _ => hm
    rw [Store.size_modify]
    exact Nat.lt_of_lt_of_le (h.lt_size (List.mem_append_left rest hm)) h.size_le
  refine .signed hk ?_ ((hget operand (by simp)).trans h.get_signOf)
  rw [Store.kind, hget sign List.mem_cons_self]
  exact h.kind_signOf hk

/-- The first cell is read, and the others are laid out after it. -/
theorem ensures_cell (h : Untouched c s₀ w.store (item.ids ++ parts.flatMap Item.ids))
    (hw : Steps c item.ids w.store w'.store) (hsound : item.IsSound c.vocabulary s₀)
    (hne : item ≠ .rowEnd)
    (hshows : ∀ s', Retains s₀ w'.store s' item.ids → Shows c.vocabulary s₀ s' item id)
    (hs : ∀ sign operand, .signed sign operand ∈ parts → (s₀.kind sign).isOperator = true)
    {k j : Nat}
    (hrest : (layout (buildArray c) k (j + 1) parts).Ensures w' (LaidOut c s₀ parts k (j + 1))) :
    (layout (buildArray c) k (j + 1) parts >>= fun cells =>
      pure (⟨id, k, j⟩ :: cells) : Reducing (List Cell)).Ensures w'
        (LaidOut c s₀ (item :: parts) k j) := by
  have hparts := h.steps hw
  have hop : ∀ sign operand, .signed sign operand ∈ parts →
      (w'.store.kind sign).isOperator = true := fun sign operand hm => by
    rw [hparts.kind (List.mem_flatMap.2 ⟨_, hm, List.mem_cons_self⟩)]
    exact hs sign operand hm
  refine Reducing.ensures_bind
    (hrest.and (layout_parts_steps (List.Subset.refl _) hop k (j + 1)))
    (fun cells w'' hc => ?_) fun fault w'' hc hall => hc.1 (List.forall_mem_cons.1 hall).2
  obtain ⟨⟨hall, values, rfl, hvalues⟩, hsteps⟩ := hc
  obtain ⟨ids, values, rfl⟩ : ∃ ids rest, values = ids :: rest := by
    have := (hvalues w''.store fun _ _ _ => rfl).length_eq
    cases values with
    | nil => simp at this
    | cons ids rest => exact ⟨ids, rest, rfl⟩
  refine ⟨List.forall_mem_cons.2 ⟨hsound, hall⟩, (id :: ids) :: values, ?_, fun s' hs' => ?_⟩
  · rw [placeRows_cons]
  · rw [List.flatMap_cons] at hs'
    have hitem := hshows s' (hs'.first hsteps.later h.apart)
    rw [splitOn_cons hne]
    cases hrows : parts.splitOn .rowEnd with
    | nil => simp at hrows
    | cons row rows =>
      have hrest := hvalues s' (hs'.mono (List.subset_append_right _ _))
      rw [hrows, List.forall₂_cons] at hrest
      exact .cons (.cons hitem hrest.1) hrest.2

/-- **Parts are laid out one after another.** -/
theorem layout_lays (h : Untouched c s₀ w.store (parts.flatMap Item.ids))
    (hs : ∀ sign operand, .signed sign operand ∈ parts → (s₀.kind sign).isOperator = true)
    (hn : ∀ inner, .nested inner ∈ parts → ∀ {w : Workspace}, Untouched c s₀ w.store inner →
      (buildArray c inner).Ensures w (BuildsGrid c s₀ inner)) (k j : Nat) :
    (layout (buildArray c) k j parts).Ensures w (LaidOut c s₀ parts k j) := by
  induction parts generalizing w k j with
  | nil => exact ⟨by simp, [[]], by simp [placeRows], fun s' _ => .cons .nil .nil⟩
  | cons item parts ih =>
    rw [List.flatMap_cons] at h
    have hs' : ∀ sign operand, .signed sign operand ∈ parts → (s₀.kind sign).isOperator = true :=
      fun sign operand hm => hs sign operand (List.mem_cons_of_mem _ hm)
    have ih' {w : Workspace} (h : Untouched c s₀ w.store (parts.flatMap Item.ids)) (k j : Nat) :=
      ih h hs' (fun inner hm => hn inner (List.mem_cons_of_mem _ hm)) k j
    cases item with
    | rowEnd =>
      rw [layout]
      split
      · rename_i hj
        exact (ih' h k j).imp fun r w' hr => hr.rowEnd fun values => by simp [placeRows, hj]
      · rename_i hj
        exact (ih' h (k + 1) 0).imp fun r w' hr => hr.rowEnd fun values => by simp [placeRows, hj]
    | cell id =>
      rw [layout]
      exact ensures_cell h .refl trivial (by simp) (fun s' hs' => shows_cell h hs') hs'
        (ih' (h.steps .refl) k (j + 1))
    | signed sign operand =>
      have hop := hs sign operand List.mem_cons_self
      have hsteps : Steps c [sign, operand] w.store
          (w.withStore (w.store.modify sign (·.signOf operand))).store :=
        .single (.sign List.mem_cons_self (by rwa [h.kind List.mem_cons_self]) (by simp))
      rw [layout, Reducing.ensures_lift_bind, run_foldSign]
      exact ensures_cell h hsteps trivial (by simp) (fun s' hs' => shows_signed h hop hs') hs'
        (ih' (h.steps hsteps) k (j + 1))
    | nested inner =>
      rw [layout]
      have hinner : Untouched c s₀ w.store inner := h.sublist (List.sublist_append_left _ _)
      refine Reducing.ensures_bind ((hn inner List.mem_cons_self hinner).and
        (buildArray_steps c inner w)) (fun id w' hb => ?_) fun fault w' hb hall => ?_
      · obtain ⟨⟨rows, hrows, values, hk, -, hvalues⟩, hsteps, hid⟩ := hb
        refine ensures_cell h hsteps ⟨rows, hrows⟩ (by simp) (fun s' hc => ?_) hs'
          (ih' (h.steps hsteps) k (j + 1))
        obtain ⟨hnew, hlt⟩ := hid id rfl
        have hold := Nat.le_trans h.size_le hnew
        refine .nested hrows hold ?_ (hvalues s' hc)
        rw [Store.kind, hc id hlt fun hm => absurd hm (Nat.not_lt.2 hold)]
        exact hk
      · obtain ⟨rows, hrows⟩ := hall _ List.mem_cons_self
        exact hb.1 rows hrows
    | unsupported id =>
      rw [layout, Reducing.ensures_store_bind]
      exact fun hall => hall _ List.mem_cons_self
    | unclosed => exact fun hall => hall _ List.mem_cons_self

/-- **A literal becomes a grid, and nothing else does.** -/
theorem buildArray_builds (inner : List ElementId) {w : Workspace}
    (h : Untouched c s₀ w.store inner) :
    (buildArray c inner).Ensures w (BuildsGrid c s₀ inner) := by
  induction hl : inner.length using Nat.strongRecOn generalizing inner w with
  | _ n ih =>
    have hsub := ids_items_sublist c.vocabulary s₀ inner
    have hlaid := layout_lays (h.sublist hsub)
      (fun sign operand hm => (fits_of_mem_items hm).1)
      (fun nested hm w hw => ih _ (hl ▸ length_lt_of_mem_items hm) nested hw rfl) 0 0
    rw [buildArray_eq, Reducing.ensures_store_bind, items_congr fun id hid => h.kind hid]
    have hliteral := @lists_iff c.vocabulary s₀ inner
    refine Reducing.ensures_bind hlaid (fun cells w' hw => ?_) fun fault w' hw rows hrows =>
      hw ((hliteral h.token).1 hrows).1
    obtain ⟨hsound, values, rfl, hvalues⟩ := hw
    simp only [Reducing.ensures_lift_bind, Reducing.ensures_lift, Building.run_store,
      run_buildNode]
    refine ⟨_, (hliteral h.token).2 ⟨hsound, rfl⟩, values.filter fun row => !row.isEmpty, ?_,
      by simp, fun s' hc => ?_⟩
    · rw [Workspace.store_withStore, Store.kind, Store.get_push_size, placeRows_zero, gridFrom_zero]
    · refine List.rel_filter (fun row ids hrow => ?_) (hvalues s' (hc.of_push.mono hsub.subset))
      cases hrow <;> simp

/-- **Array literals have the reference layout.**  Tokens become an array exactly if they are
    a literal.  Then the cells of its rows that are not empty have become a grid, so their
    positions have no gaps, and the array is written row by row. -/
theorem buildArray_ok_iff (c : Context) {inner : List ElementId} {w : Workspace}
    (hn : inner.Nodup) (ht : ∀ id ∈ inner, (w.store.get id).IsToken) :
    (buildArray c inner).Ensures w fun r w' =>
      ((∃ id, r = .ok id) ↔ ∃ rows, Lists c.vocabulary w.store .literal inner rows) ∧
      ∀ id rows, r = .ok id → Lists c.vocabulary w.store .literal inner rows →
        ∃ values, w'.store.kind id = .array (grid values) ∧
          List.Forall₂ (List.Forall₂ (Shows c.vocabulary w.store w'.store))
            (rows.filter fun row => !row.isEmpty) values ∧
          Dense (grid values) ∧
          ∀ (script : Script) (options : RenderOptions) (render : Render.Renderer)
            (parent : Option ElementId) (scope : Render.Scope),
            script.store.kind id = w'.store.kind id →
            Render.renderNode script options render id parent scope = do
              let texts ← values.mapM fun row => do
                return "&".intercalate (← row.mapM fun cell => render cell (some id) scope)
              return "\\begin\x7b" ++ options.style.matrix.name ++ "\x7d" ++
                "\\\\".intercalate texts ++
                "\\end\x7b" ++ options.style.matrix.name ++ "\x7d" := by
  have h : Untouched c w.store w.store inner :=
    ⟨hn, ht, fun _ _ => rfl, Nat.le_refl _, fun _ => rfl⟩
  refine (buildArray_builds inner h).imp fun r w' hr => ?_
  cases r with
  | error fault =>
    refine ⟨⟨by simp, fun ⟨rows, hrows⟩ => absurd hrows (hr rows)⟩, by simp⟩
  | ok id =>
    obtain ⟨rows, hrows, values, hk, hne, hvalues⟩ := hr
    refine ⟨⟨fun _ => ⟨rows, hrows⟩, fun _ => ⟨id, rfl⟩⟩, ?_⟩
    rintro _ rows' ⟨⟩ hrows'
    obtain rfl : rows = rows' := ((lists_iff ht).1 hrows).2.symm.trans ((lists_iff ht).1 hrows').2
    refine ⟨values, hk, hvalues w'.store fun _ _ _ => rfl, dense_grid hne, ?_⟩
    intro script options render parent scope hscript
    exact Render.renderNode_grid hne (hscript.trans hk) options render parent scope

/-- The literal `[; 1, -x;; [2; 3 1.2.3] y,]` has two rows that are not empty.  With an
    operator that is no sign there is no literal. -/
theorem buildArray_ok_iff_nested :
    let workspace (tokens : List String) : Workspace :=
      { store := { elements := (classify {} 1 none tokens).toArray } }
    let tokens := [";", "1", ",", "-", "x", ";", ";", "[", "2", ";", "3", "1.2.3", "]", "y", ","]
    let w := workspace tokens
    let inner := List.range tokens.length
    inner.Nodup ∧ (∀ id ∈ inner, (w.store.get id).IsToken) ∧
      (∃ w', StateT.run (buildArray {} inner).run w = (.ok 16, w') ∧ ∃ rows values,
        Lists {} w.store .literal inner rows ∧
        List.Forall₂ (List.Forall₂ (Shows {} w.store w'.store))
          (rows.filter fun row => !row.isEmpty) values ∧
        grid values = [⟨1, 0, 0⟩, ⟨3, 0, 1⟩, ⟨15, 1, 0⟩, ⟨13, 1, 1⟩]) ∧
      ∀ rows, ¬ Lists {} (workspace ["1", "*", "x"]).store .literal [0, 1, 2] rows := by
  intro workspace tokens w inner
  have hn : inner.Nodup := List.nodup_range
  have ht : ∀ id ∈ inner, (w.store.get id).IsToken := by decide +kernel
  have hok : (StateT.run (buildArray {} inner).run w).1 = .ok 16 := by decide +kernel
  have hcells : (StateT.run (buildArray {} inner).run w).2.store.kind 16 =
      .array [⟨1, 0, 0⟩, ⟨3, 0, 1⟩, ⟨15, 1, 0⟩, ⟨13, 1, 1⟩] := by decide +kernel
  refine ⟨hn, ht, ⟨_, Prod.ext hok rfl, ?_⟩, fun rows hrows => ?_⟩
  · have hlayout := buildArray_ok_iff {} hn ht
    obtain ⟨rows, hrows⟩ := hlayout.1.1 ⟨16, hok⟩
    obtain ⟨values, hk, hvalues, -⟩ := hlayout.2 16 rows hok hrows
    exact ⟨rows, values, hrows, hvalues, Kind.array.inj (hk.symm.trans hcells)⟩
  · have hlayout := @buildArray_ok_iff {} [0, 1, 2] (workspace ["1", "*", "x"]) (by decide)
      (by decide +kernel)
    obtain ⟨id, hid⟩ := hlayout.1.2 ⟨rows, hrows⟩
    have hfails : (StateT.run (buildArray {} [0, 1, 2]).run (workspace ["1", "*", "x"])).1 =
      .error (.unsupportedCell "*") := by decide +kernel
    rw [hfails] at hid
    cases hid

end FormulaSheet.Term
