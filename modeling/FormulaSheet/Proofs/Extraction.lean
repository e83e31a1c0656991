/-
  Extracting the declarations block is an exact cut.

  * `IsLast marker lines i`: the last line that is `marker` between blanks stands at
    position `i`.  That is what the backward search finds (`lastLine?_eq_some_iff`).
  * `IsCut tag block after`: `block`, with `after` behind it, goes from the last begin line
    to the last end line.  It is what the two positions enclose (`isCut_of_isLast`), and
    every cut comes from such positions (`IsCut.isLast_first`, `IsCut.isLast_last`).
  * `extract_eq_iff`: so extracting takes a cut out of the lines, or leaves the lines
    as they are if there is none.
-/
import FormulaSheet.DeclarationsBlock

namespace FormulaSheet.DeclarationsBlock

open Text (trim)

variable {marker tag : String} {lines : List String} {i j : Nat}

/-! ## The last line of a marker -/

/-- The line at position `i` is `marker` between blanks, and no later line is. -/
structure IsLast (marker : String) (lines : List String) (i : Nat) : Prop where
  line : ∃ line ∈ lines[i]?, trim line = marker
  after : ∀ line ∈ lines.drop (i + 1), trim line ≠ marker

theorem IsLast.lt_length (h : IsLast marker lines i) : i < lines.length := by
  obtain ⟨line, hline, -⟩ := h.line
  exact (List.getElem?_eq_some_iff.1 hline).1

/-- A line is the last one only if it is not followed by another. -/
theorem lastLine?_cons (marker line : String) (lines : List String) :
    lastLine? marker (line :: lines) =
      ((lastLine? marker lines).map (· + 1)).or (if trim line = marker then some 0 else none) := by
  unfold lastLine?
  rw [List.reverse_cons, List.findIdx?_append]
  cases hfound : lines.reverse.findIdx? fun line => trim line == marker with
  | some k =>
    have hk : k < lines.length := by
      obtain ⟨hk, -⟩ := List.findIdx?_eq_some_iff_getElem.1 hfound
      rwa [List.length_reverse] at hk
    simp only [Option.some_or, Option.map_some, List.length_cons, Option.some.injEq]
    omega
  | none => by_cases hline : trim line = marker <;> simp [hline]

theorem lastLine?_eq_none_iff :
    lastLine? marker lines = none ↔ ∀ line ∈ lines, trim line ≠ marker := by
  simp [lastLine?]

theorem isLast_cons_zero {line : String} :
    IsLast marker (line :: lines) 0 ↔ trim line = marker ∧ ∀ line ∈ lines, trim line ≠ marker :=
  ⟨fun h => ⟨by simpa using h.line, by simpa using h.after⟩,
    fun h => ⟨by simpa using h.1, by simpa using h.2⟩⟩

theorem isLast_cons_succ {line : String} :
    IsLast marker (line :: lines) (i + 1) ↔ IsLast marker lines i :=
  ⟨fun h => ⟨h.line, h.after⟩, fun h => ⟨h.line, h.after⟩⟩

/-- **The backward search** finds the last line of the marker. -/
theorem lastLine?_eq_some_iff : lastLine? marker lines = some i ↔ IsLast marker lines i := by
  induction lines generalizing i with
  | nil =>
    refine ⟨fun h => (by cases h), fun h => ?_⟩
    exact absurd h.lt_length (Nat.not_lt_zero i)
  | cons line lines ih =>
    rw [lastLine?_cons]
    cases i with
    | zero =>
      rw [isLast_cons_zero, ← lastLine?_eq_none_iff]
      cases lastLine? marker lines <;> simp
    | succ i =>
      rw [isLast_cons_succ, ← ih]
      cases lastLine? marker lines <;> simp

/-! ## Cuts -/

/-- Where `after` is all that follows, `block` starts at the last begin line and ends at
    the last end line. -/
structure IsCut (tag : String) (block after : List String) : Prop where
  first : ∃ line ∈ block.head?, trim line = beginMarker tag
  noBegin : ∀ line ∈ block.tail ++ after, trim line ≠ beginMarker tag
  last : ∃ line ∈ block.getLast?, trim line = endMarker
  noEnd : ∀ line ∈ after, trim line ≠ endMarker

variable {before block after : List String}

theorem IsCut.ne_nil (h : IsCut tag block after) : block ≠ [] := by
  rintro rfl
  obtain ⟨line, hline, -⟩ := h.first
  cases hline

theorem IsCut.isLast_first (h : IsCut tag block after) (before : List String) :
    IsLast (beginMarker tag) (before ++ block ++ after) before.length := by
  obtain ⟨first, block, rfl⟩ := List.exists_cons_of_ne_nil h.ne_nil
  refine ⟨?_, ?_⟩
  · simpa using h.first
  · have hdrop : (before ++ first :: block ++ after).drop (before.length + 1) = block ++ after := by
      rw [List.append_assoc, ← List.drop_drop, List.drop_left]
      rfl
    rw [hdrop]
    exact h.noBegin

theorem IsCut.isLast_last (h : IsCut tag block after) (before : List String) :
    IsLast endMarker (before ++ block ++ after) (before.length + block.length - 1) := by
  have hpos := List.length_pos_iff.2 h.ne_nil
  have hlength : (before ++ block).length = before.length + block.length - 1 + 1 := by
    rw [List.length_append]
    omega
  refine ⟨?_, ?_⟩
  · have hget : (before ++ block ++ after)[before.length + block.length - 1]? =
        block.getLast? := by
      rw [List.getElem?_append_left (by omega), List.getElem?_append_right (by omega),
        List.getLast?_eq_getElem?]
      congr 1
      omega
    rw [hget]
    exact h.last
  · rw [← hlength, List.drop_left]
    exact h.noEnd

theorem take_append_drop_of_le (hle : i ≤ j) (lines : List String) :
    (lines.drop i).take (j - i) ++ lines.drop j = lines.drop i := by
  have hdrop : lines.drop j = (lines.drop i).drop (j - i) := by
    rw [List.drop_drop, Nat.add_sub_cancel' hle]
  rw [hdrop, List.take_append_drop]

/-- What the last begin line and a later last end line enclose is cut out. -/
theorem isCut_of_isLast (hi : IsLast (beginMarker tag) lines i) (hj : IsLast endMarker lines j)
    (hle : i ≤ j) : IsCut tag ((lines.drop i).take (j + 1 - i)) (lines.drop (j + 1)) := by
  have hlt := hj.lt_length
  have hcount : j + 1 - i = j - i + 1 := by omega
  refine ⟨?_, fun line hline => hi.after line ?_, ?_, hj.after⟩
  · rw [hcount, List.head?_take, if_neg (Nat.succ_ne_zero _), List.head?_drop]
    exact hi.line
  · have hsplit := take_append_drop_of_le (Nat.add_le_add_right hle 1) lines
    rw [Nat.add_sub_add_right] at hsplit
    rwa [hcount, ← List.drop_one, List.drop_take, Nat.add_sub_cancel, List.drop_drop,
      hsplit] at hline
  · have hget : ((lines.drop i).take (j + 1 - i)).getLast? = lines[j]? := by
      rw [List.getLast?_eq_getElem?, List.length_take, List.length_drop,
        List.getElem?_take, if_pos (by omega), List.getElem?_drop]
      congr 1
      omega
    rw [hget]
    exact hj.line

/-- The three parts are all of the lines. -/
theorem take_append_block (hle : i ≤ j) :
    lines.take i ++ (lines.drop i).take (j + 1 - i) ++ lines.drop (j + 1) = lines := by
  rw [List.append_assoc, take_append_drop_of_le (Nat.le_succ_of_le hle), List.take_append_drop]

/-! ## Extraction -/

/-- Nothing to cut: a marker is missing, or the last end line stands before the last
    begin line. -/
def NoCut (tag : String) (lines : List String) : Prop :=
  (∀ line ∈ lines, trim line ≠ beginMarker tag) ∨ (∀ line ∈ lines, trim line ≠ endMarker) ∨
    ∃ i j, IsLast endMarker lines i ∧ IsLast (beginMarker tag) lines j ∧ i < j

theorem extract_of_noCut (h : NoCut tag lines) : extract tag lines = ⟨[], lines, none⟩ := by
  unfold extract
  rcases h with hbegin | hend | ⟨i, j, hi, hj, hlt⟩
  · rw [lastLine?_eq_none_iff.2 hbegin]
  · rw [lastLine?_eq_none_iff.2 hend]
    cases lastLine? (beginMarker tag) lines <;> rfl
  · rw [lastLine?_eq_some_iff.2 hi, lastLine?_eq_some_iff.2 hj]
    exact if_neg (Nat.not_le.2 hlt)

theorem extract_of_isCut (h : IsCut tag block after) (before : List String) :
    extract tag (before ++ block ++ after) =
      ⟨block, before ++ after, some (before.length + 1, before.length + block.length)⟩ := by
  have hpos := List.length_pos_iff.2 h.ne_nil
  have hlast : before.length + block.length - 1 + 1 = before.length + block.length := by omega
  unfold extract
  rw [lastLine?_eq_some_iff.2 (h.isLast_first before),
    lastLine?_eq_some_iff.2 (h.isLast_last before)]
  dsimp only
  rw [if_pos (by omega), hlast, Nat.add_sub_cancel_left, List.append_assoc, List.drop_left,
    List.take_left, List.take_left, ← List.append_assoc, ← List.length_append, List.drop_left]

/-- There is nothing to cut, or there is a cut. -/
theorem noCut_or_isCut (tag : String) (lines : List String) : NoCut tag lines ∨
    ∃ before block after, lines = before ++ block ++ after ∧ IsCut tag block after := by
  cases hbegin : lastLine? (beginMarker tag) lines with
  | none => exact .inl (.inl (lastLine?_eq_none_iff.1 hbegin))
  | some i =>
    cases hend : lastLine? endMarker lines with
    | none => exact .inl (.inr (.inl (lastLine?_eq_none_iff.1 hend)))
    | some j =>
      rw [lastLine?_eq_some_iff] at hbegin hend
      rcases Nat.lt_or_ge j i with hlt | hle
      · exact .inl (.inr (.inr ⟨j, i, hend, hbegin, hlt⟩))
      · exact .inr ⟨_, _, _, (take_append_block hle).symm, isCut_of_isLast hbegin hend hle⟩

/-- **Extraction is an exact cut.**  Either nothing is cut out, and a marker is missing or
    the last end line stands before the last begin line; or the lines fall into three
    parts of which the middle one is cut out, from the last begin line to the last end
    line. -/
theorem extract_eq_iff (tag : String) (lines declarations remaining : List String)
    (span : Option (Nat × Nat)) :
    extract tag lines = ⟨declarations, remaining, span⟩ ↔
      (declarations = [] ∧ remaining = lines ∧ span = none ∧
        ((∀ line ∈ lines, trim line ≠ "% begin - " ++ tag) ∨
          (∀ line ∈ lines, trim line ≠ "% end") ∨
          ∃ i j, IsLast "% end" lines i ∧ IsLast ("% begin - " ++ tag) lines j ∧ i < j)) ∨
      (declarations ≠ [] ∧ ∃ before after, lines = before ++ declarations ++ after ∧
        remaining = before ++ after ∧
        span = some (before.length + 1, before.length + declarations.length) ∧
        (∃ line ∈ declarations.head?, trim line = "% begin - " ++ tag) ∧
        (∀ line ∈ declarations.tail ++ after, trim line ≠ "% begin - " ++ tag) ∧
        (∃ line ∈ declarations.getLast?, trim line = "% end") ∧
        ∀ line ∈ after, trim line ≠ "% end") := by
  constructor
  · intro h
    rcases noCut_or_isCut tag lines with hno | ⟨before, block, after, rfl, hcut⟩
    · rw [extract_of_noCut hno] at h
      cases h
      exact .inl ⟨rfl, rfl, rfl, hno⟩
    · rw [extract_of_isCut hcut] at h
      cases h
      exact .inr ⟨hcut.ne_nil, before, after, rfl, rfl, rfl, hcut.first, hcut.noBegin, hcut.last,
        hcut.noEnd⟩
  · rintro (⟨rfl, rfl, rfl, hno⟩ |
      ⟨-, before, after, rfl, rfl, rfl, hfirst, hbegin, hlast, hend⟩)
    · exact extract_of_noCut hno
    · exact extract_of_isCut ⟨hfirst, hbegin, hlast, hend⟩ before

end FormulaSheet.DeclarationsBlock
