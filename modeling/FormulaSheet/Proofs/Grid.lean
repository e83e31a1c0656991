/-
  Arrays without gaps.

  * `grid rows`: the cells of the array with the given rows; the `j`-th element
    of the `k`-th row stands in row `k` and column `j`.
  * `Dense cells`: no two cells have the same position, and no row and no
    column is left out.  This holds of a grid whose rows are not empty
    (`dense_grid`).
  * `renderNode_grid`: such an array is written row by row, each row in its
    order.
-/
import FormulaSheet.Proofs.Depth

namespace FormulaSheet

/-! ## Grids -/

/-- Elements side by side in a row, from a column on. -/
def placeRow (row col : Nat) (ids : List ElementId) : List Cell :=
  ids.mapIdx fun j id => ⟨id, row, col + j⟩

/-- Rows below each other, from a row on. -/
def gridFrom (row : Nat) (rows : List (List ElementId)) : List Cell :=
  (rows.mapIdx fun k ids => placeRow (row + k) 0 ids).flatten

/-- The cells of the array with the given rows. -/
def grid (rows : List (List ElementId)) : List Cell :=
  (rows.mapIdx fun k ids => ids.mapIdx fun j id => (⟨id, k, j⟩ : Cell)).flatten

variable {row col : Nat} {ids : List ElementId} {rows : List (List ElementId)}

theorem gridFrom_zero (rows : List (List ElementId)) : gridFrom 0 rows = grid rows := by
  simp only [gridFrom, grid, placeRow, Nat.zero_add]

@[simp] theorem placeRow_nil : placeRow row col [] = [] := rfl

@[simp] theorem placeRow_cons (id : ElementId) :
    placeRow row col (id :: ids) = ⟨id, row, col⟩ :: placeRow row (col + 1) ids := by
  simp only [placeRow, List.mapIdx_cons, Nat.add_zero, Nat.add_comm, Nat.add_left_comm]

theorem map_value_placeRow : (placeRow row col ids).map Cell.value = ids := by
  induction ids generalizing col with
  | nil => rfl
  | cons id ids ih => rw [placeRow_cons, List.map_cons, ih]

@[simp] theorem gridFrom_nil : gridFrom row [] = [] := rfl

@[simp] theorem gridFrom_cons :
    gridFrom row (ids :: rows) = placeRow row 0 ids ++ gridFrom (row + 1) rows := by
  simp only [gridFrom, List.mapIdx_cons, List.flatten_cons, Nat.add_zero, Nat.add_comm,
    Nat.add_left_comm]

theorem mem_grid {cell : Cell} :
    cell ∈ grid rows ↔ ∃ ids, rows[cell.row]? = some ids ∧ ids[cell.col]? = some cell.value := by
  simp only [grid, List.mem_flatten, List.mem_mapIdx, List.getElem?_eq_some_iff]
  constructor
  · rintro ⟨_, ⟨k, hk, rfl⟩, hm⟩
    obtain ⟨j, hj, rfl⟩ := List.mem_mapIdx.1 hm
    exact ⟨rows[k], ⟨hk, rfl⟩, hj, rfl⟩
  · rintro ⟨ids, ⟨hk, rfl⟩, hj, hv⟩
    exact ⟨_, ⟨cell.row, hk, rfl⟩, List.mem_mapIdx.2 ⟨cell.col, hj, by rw [hv]⟩⟩

/-! ## Density -/

/-- The cells have different positions, and no row and no column of a row is
    left out. -/
structure Dense (cells : List Cell) : Prop where
  unique : (cells.map fun cell => (cell.row, cell.col)).Nodup
  rows : ∀ cell ∈ cells, ∀ row ≤ cell.row, ∃ other ∈ cells, other.row = row
  cols : ∀ cell ∈ cells, ∀ col ≤ cell.col, ∃ other ∈ cells, other.row = cell.row ∧ other.col = col

/-- The positions of a grid are in order. -/
theorem nodup_positions (rows : List (List ElementId)) :
    ((grid rows).map fun cell => (cell.row, cell.col)).Nodup := by
  rw [List.Nodup, List.pairwise_map, grid, List.pairwise_flatten]
  constructor
  · intro cells hm
    obtain ⟨k, hk, rfl⟩ := List.mem_mapIdx.1 hm
    rw [List.pairwise_iff_getElem]
    intro i j hi hj hlt heq
    simp only [List.getElem_mapIdx, Prod.mk.injEq] at heq
    omega
  · rw [List.pairwise_iff_getElem]
    intro i j hi hj hlt a ha b hb heq
    rw [List.getElem_mapIdx] at ha hb
    obtain ⟨_, _, rfl⟩ := List.mem_mapIdx.1 ha
    obtain ⟨_, _, rfl⟩ := List.mem_mapIdx.1 hb
    simp only [Prod.mk.injEq] at heq
    omega

/-- A row that is not empty has a first cell. -/
theorem exists_mem_grid (h : [] ∉ rows) (hrow : row < rows.length) :
    ∃ cell ∈ grid rows, cell.row = row := by
  cases hids : rows[row] with
  | nil => exact absurd (hids ▸ List.getElem_mem hrow) h
  | cons id ids =>
    refine ⟨⟨id, row, 0⟩, mem_grid.2 ⟨id :: ids, ?_, rfl⟩, rfl⟩
    rw [List.getElem?_eq_getElem hrow, hids]

theorem dense_grid (h : [] ∉ rows) : Dense (grid rows) where
  unique := nodup_positions rows
  rows := by
    intro cell hm row hle
    obtain ⟨ids, hids, -⟩ := mem_grid.1 hm
    have hlt := (List.getElem?_eq_some_iff.1 hids).1
    exact exists_mem_grid h (Nat.lt_of_le_of_lt hle hlt)
  cols := by
    intro cell hm col hle
    obtain ⟨ids, hids, hcell⟩ := mem_grid.1 hm
    have hlt := Nat.lt_of_le_of_lt hle (List.getElem?_eq_some_iff.1 hcell).1
    exact ⟨⟨ids[col], cell.row, col⟩, mem_grid.2 ⟨ids, hids, List.getElem?_eq_getElem hlt⟩,
      rfl, rfl⟩

/-! ## Rendering -/

namespace Render

/-- The rows that are counted are those of the grid. -/
theorem rowCount_grid (h : [] ∉ rows) : rowCount (grid rows) = rows.length := by
  refine Nat.le_antisymm (rowCount_le_iff.2 fun cell hm => ?_) (Nat.le_of_not_lt fun hlt => ?_)
  · obtain ⟨ids, hids, -⟩ := mem_grid.1 hm
    exact (List.getElem?_eq_some_iff.1 hids).1
  · obtain ⟨cell, hm, hrow⟩ := exists_mem_grid h hlt
    have := rowCount_le_iff.1 (Nat.le_refl _) cell hm
    omega

theorem filter_placeRow (k : Nat) :
    (placeRow row col ids).filter (fun cell => cell.row == k) =
      if row = k then placeRow row col ids else [] := by
  split
  · rename_i heq
    refine List.filter_eq_self.2 fun cell hm => ?_
    obtain ⟨_, _, rfl⟩ := List.mem_mapIdx.1 hm
    exact beq_iff_eq.2 heq
  · rename_i hne
    refine List.filter_eq_nil_iff.2 fun cell hm => ?_
    obtain ⟨_, _, rfl⟩ := List.mem_mapIdx.1 hm
    rwa [beq_iff_eq]

theorem filter_gridFrom (k : Nat) :
    (gridFrom row rows).filter (fun cell => cell.row == row + k) =
      placeRow (row + k) 0 (rows[k]?.getD []) := by
  induction rows generalizing row k with
  | nil => rfl
  | cons ids rows ih =>
    rw [gridFrom_cons, List.filter_append, filter_placeRow]
    cases k with
    | zero =>
      have hrest : (gridFrom (row + 1) rows).filter (fun cell => cell.row == row + 0) = [] := by
        refine List.filter_eq_nil_iff.2 fun cell hm => ?_
        obtain ⟨_, hcells, hm⟩ := List.mem_flatten.1 hm
        obtain ⟨_, _, rfl⟩ := List.mem_mapIdx.1 hcells
        obtain ⟨_, _, rfl⟩ := List.mem_mapIdx.1 hm
        simp only [beq_iff_eq]
        omega
      rw [if_pos (Nat.add_zero row).symm, hrest, List.append_nil]
      rfl
    | succ k =>
      have hk : row + (k + 1) = row + 1 + k := by omega
      rw [if_neg (by omega), List.nil_append, hk, ih]
      rfl

/-- The elements of a row of a grid are found in their order. -/
theorem rowCells_grid (k : Nat) :
    (rowCells (grid rows) k).map Cell.value = rows[k]?.getD [] := by
  have hfilter := @filter_gridFrom 0 rows k
  rw [gridFrom_zero, Nat.zero_add] at hfilter
  have hsorted : (placeRow k 0 (rows[k]?.getD [])).Pairwise fun a b => a.col ≤ b.col := by
    rw [List.pairwise_iff_getElem]
    intro i j hi hj hlt
    simp only [placeRow, List.getElem_mapIdx]
    omega
  rw [rowCells, hfilter, if_pos hsorted, map_value_placeRow]

/-- **A grid is written row by row.** -/
theorem renderNode_grid {script : Script} {id : ElementId} (h : [] ∉ rows)
    (hk : script.store.kind id = .array (grid rows)) (options : RenderOptions) (render : Renderer)
    (parent : Option ElementId) (scope : Scope) :
    renderNode script options render id parent scope = do
      let texts ← rows.mapM fun row => do
        return "&".intercalate (← row.mapM fun cell => render cell (some id) scope)
      return "\\begin\x7b" ++ options.style.matrix.name ++ "\x7d" ++ "\\\\".intercalate texts ++
        "\\end\x7b" ++ options.style.matrix.name ++ "\x7d" := by
  have hrows : (List.range (rowCount (grid rows))).map
      (fun k => (rowCells (grid rows) k).map Cell.value) = rows := by
    refine List.ext_getElem (by simp [rowCount_grid h]) fun k hk hk' => ?_
    rw [List.getElem_map, List.getElem_range, rowCells_grid, List.getElem?_eq_getElem hk',
      Option.getD_some]
  have htexts : (List.range (rowCount (grid rows))).mapM (fun k =>
      renderList render "&" id scope ((rowCells (grid rows) k).map Cell.value)) =
      rows.mapM fun row => do
        return "&".intercalate (← row.mapM fun cell => render cell (some id) scope) := by
    conv_rhs => rw [← hrows, List.mapM_map]
    rfl
  rw [Store.kind] at hk
  simp only [renderNode, hk, renderArray, htexts]

end Render

end FormulaSheet
