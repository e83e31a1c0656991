/-
  Delimiters: where a group is closed, and where arguments are cut.

  * `delimiters s groups side ids`: how many delimiters of the groups stand on that side
    among the elements; `SameCount s groups ids`: as many open as close.
  * `ClosesAt s group work opening j`: `j` is the first position behind `opening` up to
    which the delimiters of the group are balanced.  That is where a group is closed
    (`splitClosing?_eq_some_iff_closesAt`).
  * `cuts pieces`: where the pieces have been cut apart.  Arguments are cut at the commas
    at which `depthAfter`, a counter that never falls below 0, is at 0
    (`mem_cuts_splitArguments`).
  * `Nested s ids`: all delimiters are properly nested.  Then the counter is the number
    of groups that are open (`Nested.depthAfter_eq_zero_iff`).
  * `closing_and_arguments`: so groups are closed at the first balance, and the arguments
    of properly nested elements are cut at the commas outside of all groups.
-/
import FormulaSheet.Proofs.Conservation

namespace FormulaSheet

/-- A parenthesis or a bracket. -/
def Kind.isDelimiter : Kind → Bool
  | delimiter _ _ => true
  | _ => false

theorem Kind.ne_delimiter {kind : Kind} (h : kind.isDelimiter = false) (group : Group)
    (side : Side) : kind ≠ .delimiter group side := by
  rintro rfl
  cases h

namespace Term

open Building

variable {s : Store} {group : Group} {groups : List Group} {side : Side} {id : ElementId}
  {ids : List ElementId} {depth : Nat}

/-! ## Counting delimiters -/

/-- The number of delimiters of some groups on one side. -/
def delimiters (s : Store) (groups : List Group) (side : Side) (ids : List ElementId) : Nat :=
  ids.countP fun id => groups.any fun group => s.kind id == .delimiter group side

@[simp] theorem delimiters_nil : delimiters s groups side [] = 0 := rfl

@[simp] theorem delimiters_append (front back : List ElementId) :
    delimiters s groups side (front ++ back) =
      delimiters s groups side front + delimiters s groups side back :=
  List.countP_append

theorem delimiters_cons_self (h : s.kind id = .delimiter group side) (hg : group ∈ groups) :
    delimiters s groups side (id :: ids) = delimiters s groups side ids + 1 :=
  List.countP_cons_of_pos (List.any_eq_true.2 ⟨group, hg, beq_iff_eq.2 h⟩)

theorem delimiters_cons_of_ne (h : ∀ group ∈ groups, s.kind id ≠ .delimiter group side) :
    delimiters s groups side (id :: ids) = delimiters s groups side ids := by
  refine List.countP_cons_of_neg ?_
  simpa using h

/-- As many delimiters of the groups open as close. -/
def SameCount (s : Store) (groups : List Group) (ids : List ElementId) : Prop :=
  delimiters s groups .opening ids = delimiters s groups .closing ids

instance (s : Store) (groups : List Group) (ids : List ElementId) :
    Decidable (SameCount s groups ids) :=
  inferInstanceAs (Decidable (_ = _))

/-! ## Closing a group -/

/-- The elements close the groups that are open inside a group, and the group itself. -/
def Closes (s : Store) (group : Group) (depth : Nat) (ids : List ElementId) : Prop :=
  depth + 1 + delimiters s [group] .opening ids = delimiters s [group] .closing ids

theorem not_closes_nil : ¬ Closes s group depth [] := by
  simp [Closes]

/-- An element closes the group, or only changes what is open inside. -/
theorem splitClosing?_step (s : Store) (group : Group) (depth : Nat) (id : ElementId) :
    (depth = 0 ∧ s.kind id = .delimiter group .closing) ∨
      ∃ depth', (∀ rest, splitClosing? s group depth (id :: rest) =
          (splitClosing? s group depth' rest).map fun p => (id :: p.1, p.2)) ∧
        ∀ front, Closes s group depth (id :: front) ↔ Closes s group depth' front := by
  have hgroup := List.mem_singleton_self group
  by_cases hopening : s.kind id = .delimiter group .opening
  · refine .inr ⟨depth + 1, splitClosing?_opening hopening depth, fun front => ?_⟩
    rw [Closes, delimiters_cons_self hopening hgroup,
      delimiters_cons_of_ne (by simp [hopening]), Closes]
    omega
  by_cases hclosing : s.kind id = .delimiter group .closing
  · cases depth with
    | zero => exact .inl ⟨rfl, hclosing⟩
    | succ depth =>
      refine .inr ⟨depth, splitClosing?_closing hclosing depth, fun front => ?_⟩
      rw [Closes, delimiters_cons_self hclosing hgroup,
        delimiters_cons_of_ne (by simp [hclosing]), Closes]
      omega
  · have hother : ∀ side, s.kind id ≠ .delimiter group side := by
      intro side
      cases side with
      | opening => exact hopening
      | closing => exact hclosing
    refine .inr ⟨depth, splitClosing?_other hother depth, fun front => ?_⟩
    rw [Closes, delimiters_cons_of_ne (by simpa using hother _),
      delimiters_cons_of_ne (by simpa using hother _), Closes]

theorem splitClosing?_zero (h : s.kind id = .delimiter group .closing) (rest : List ElementId) :
    splitClosing? s group 0 (id :: rest) = some ([], rest) := by
  simp [splitClosing?, h]

theorem closes_zero (h : s.kind id = .delimiter group .closing) : Closes s group 0 [id] := by
  rw [Closes, delimiters_cons_self h (List.mem_singleton_self group),
    delimiters_cons_of_ne (by simp [h])]
  rfl

/-- The elements up to position `k` close the group, and fewer do not. -/
def FirstCloses (s : Store) (group : Group) (depth : Nat) (ids : List ElementId) (k : Nat) : Prop :=
  Closes s group depth (ids.take (k + 1)) ∧ ∀ m ≤ k, ¬ Closes s group depth (ids.take m)

/-- **A group is closed** by the first elements that close it. -/
theorem splitClosing?_eq_some_iff {inner after : List ElementId} :
    splitClosing? s group depth ids = some (inner, after) ↔
      ∃ k < ids.length, FirstCloses s group depth ids k ∧ inner = ids.take k ∧
        after = ids.drop (k + 1) := by
  induction ids generalizing depth inner with
  | nil => simp [splitClosing?]
  | cons id rest ih =>
    rcases splitClosing?_step s group depth id with ⟨rfl, hclosing⟩ | ⟨depth', hsplit, hcloses⟩
    · rw [splitClosing?_zero hclosing, Option.some.injEq, Prod.mk.injEq]
      constructor
      · rintro ⟨rfl, rfl⟩
        refine ⟨0, Nat.zero_lt_succ _, ⟨closes_zero hclosing, fun m hm => ?_⟩, rfl, rfl⟩
        rw [Nat.le_zero.1 hm]
        exact not_closes_nil
      · rintro ⟨k, -, ⟨-, hfirst⟩, rfl, rfl⟩
        cases k with
        | zero => exact ⟨rfl, rfl⟩
        | succ k => exact absurd (closes_zero hclosing) (hfirst 1 (Nat.le_add_left 1 k))
    · -- The element is in front of the inside, and changes the depth behind it.
      have hfirst : ∀ k, FirstCloses s group depth (id :: rest) (k + 1) ↔
          FirstCloses s group depth' rest k := by
        intro k
        refine and_congr (hcloses _) ⟨fun h m hm => ?_, fun h m hm => ?_⟩
        · rw [← hcloses]
          exact h (m + 1) (Nat.succ_le_succ hm)
        · cases m with
          | zero => exact not_closes_nil
          | succ m =>
            rw [List.take_succ_cons, hcloses]
            exact h m (Nat.le_of_succ_le_succ hm)
      rw [hsplit, Option.map_eq_some_iff]
      constructor
      · rintro ⟨⟨inner', after'⟩, hrest, he⟩
        obtain ⟨rfl, rfl⟩ := Prod.mk.inj he
        obtain ⟨k, hk, hfirst', rfl, rfl⟩ := ih.1 hrest
        exact ⟨k + 1, Nat.succ_lt_succ hk, (hfirst k).2 hfirst', rfl, rfl⟩
      · rintro ⟨k, hk, hfirst', rfl, rfl⟩
        cases k with
        | zero => exact absurd ((hcloses _).1 hfirst'.1) not_closes_nil
        | succ k =>
          exact ⟨_, ih.2 ⟨k, Nat.lt_of_succ_lt_succ hk, (hfirst k).1 hfirst', rfl, rfl⟩, rfl⟩

theorem splitClosing?_eq_none_iff :
    splitClosing? s group depth ids = none ↔
      ∀ k < ids.length, ¬ Closes s group depth (ids.take (k + 1)) := by
  induction ids generalizing depth with
  | nil => simp [splitClosing?]
  | cons id rest ih =>
    rcases splitClosing?_step s group depth id with ⟨rfl, hclosing⟩ | ⟨depth', hsplit, hcloses⟩
    · rw [splitClosing?_zero hclosing]
      refine ⟨fun h => (by cases h), fun h => ?_⟩
      exact absurd (closes_zero hclosing) (h 0 (Nat.zero_lt_succ _))
    · rw [hsplit, Option.map_eq_none_iff, ih]
      constructor
      · intro h k hk
        rw [List.take_succ_cons, hcloses]
        cases k with
        | zero => exact not_closes_nil
        | succ k => exact h k (Nat.lt_of_succ_lt_succ hk)
      · intro h k hk
        rw [← hcloses]
        exact h (k + 1) (Nat.succ_lt_succ hk)

/-! ## Positions in a term -/

/-- From `opening` up to `j`, as many delimiters of the group open as close. -/
def BalancedTo (s : Store) (group : Group) (work : List ElementId) (opening j : Nat) : Prop :=
  SameCount s [group] ((work.take (j + 1)).drop opening)

instance (s : Store) (group : Group) (work : List ElementId) (opening j : Nat) :
    Decidable (BalancedTo s group work opening j) :=
  inferInstanceAs (Decidable (SameCount ..))

/-- The first position behind `opening` up to which the group is balanced. -/
structure ClosesAt (s : Store) (group : Group) (work : List ElementId) (opening j : Nat) :
    Prop where
  behind : opening < j
  lt_length : j < work.length
  balanced : BalancedTo s group work opening j
  first : ∀ k, opening < k → k < j → ¬ BalancedTo s group work opening k

section Positions

variable {before rest : List ElementId}

theorem drop_behind (before rest : List ElementId) (id : ElementId) (k : Nat) :
    (before ++ id :: rest).drop (before.length + (k + 1)) = rest.drop k := by
  rw [← List.drop_drop, List.drop_left, List.drop_succ_cons]

/-- Behind an opening delimiter, what balances is what closes. -/
theorem balancedTo_iff (h : s.kind id = .delimiter group .opening) (k : Nat) :
    BalancedTo s group (before ++ id :: rest) before.length (before.length + k) ↔
      Closes s group 0 (rest.take k) := by
  have htake : ((before ++ id :: rest).take (before.length + k + 1)).drop before.length =
      id :: rest.take k := by
    rw [List.drop_take, List.drop_left, Nat.add_assoc, Nat.add_sub_cancel_left,
      List.take_succ_cons]
  rw [BalancedTo, SameCount, htake, delimiters_cons_self h (List.mem_singleton_self group),
    delimiters_cons_of_ne (by simp [h]), Closes]
  omega

theorem closesAt_iff (h : s.kind id = .delimiter group .opening) (j : Nat) :
    ClosesAt s group (before ++ id :: rest) before.length j ↔
      ∃ k < rest.length, FirstCloses s group 0 rest k ∧ j = before.length + (k + 1) := by
  constructor
  · rintro ⟨hbehind, hlt, hbalanced, hfirst⟩
    obtain ⟨k, rfl⟩ := Nat.exists_eq_add_of_lt hbehind
    rw [Nat.add_assoc, balancedTo_iff h] at hbalanced
    refine ⟨k, ?_, ⟨hbalanced, fun m hm => ?_⟩, Nat.add_assoc _ _ _⟩
    · rw [List.length_append, List.length_cons] at hlt
      omega
    · cases m with
      | zero => exact not_closes_nil
      | succ m =>
        rw [← balancedTo_iff h]
        exact hfirst _ (by omega) (by omega)
  · rintro ⟨k, hk, ⟨hcloses, hfirst⟩, rfl⟩
    refine ⟨by omega, ?_, (balancedTo_iff h _).2 hcloses, fun m hm hmk => ?_⟩
    · rw [List.length_append, List.length_cons]
      omega
    · obtain ⟨m, rfl⟩ := Nat.exists_eq_add_of_lt hm
      rw [Nat.add_assoc, balancedTo_iff h]
      exact hfirst _ (by omega)

end Positions

/-- The element at a position opens a group. -/
def OpensAt (s : Store) (group : Group) (work : List ElementId) (opening : Nat) : Prop :=
  ∃ id ∈ work[opening]?, s.kind id = .delimiter group .opening

variable {work : List ElementId} {opening : Nat}

theorem OpensAt.exists_split (h : OpensAt s group work opening) :
    ∃ before id rest, work = before ++ id :: rest ∧ before.length = opening ∧
      s.kind id = .delimiter group .opening := by
  obtain ⟨id, hid, hk⟩ := h
  obtain ⟨hlt, rfl⟩ := List.getElem?_eq_some_iff.1 hid
  refine ⟨work.take opening, work[opening], work.drop (opening + 1), ?_, ?_, hk⟩
  · rw [List.getElem_cons_drop, List.take_append_drop]
  · rw [List.length_take, Nat.min_eq_left (Nat.le_of_lt hlt)]

/-- **A group is closed at the first balance behind its opening.** -/
theorem splitClosing?_eq_some_iff_closesAt (h : OpensAt s group work opening)
    {inner after : List ElementId} :
    splitClosing? s group 0 (work.drop (opening + 1)) = some (inner, after) ↔
      ∃ j, ClosesAt s group work opening j ∧ inner = (work.take j).drop (opening + 1) ∧
        after = work.drop (j + 1) := by
  obtain ⟨before, id, rest, rfl, rfl, hid⟩ := h.exists_split
  have hrest : (before ++ id :: rest).drop (before.length + 1) = rest :=
    drop_behind before rest id 0
  have hinner : ∀ k, ((before ++ id :: rest).take (before.length + (k + 1))).drop
      (before.length + 1) = rest.take k := by
    intro k
    rw [List.drop_take, hrest]
    congr 1
    omega
  rw [hrest, splitClosing?_eq_some_iff]
  constructor
  · rintro ⟨k, hk, hfirst, rfl, rfl⟩
    exact ⟨_, (closesAt_iff hid _).2 ⟨k, hk, hfirst, rfl⟩, (hinner k).symm,
      (drop_behind before rest id (k + 1)).symm⟩
  · rintro ⟨j, hj, rfl, rfl⟩
    obtain ⟨k, hk, hfirst, rfl⟩ := (closesAt_iff hid j).1 hj
    exact ⟨k, hk, hfirst, hinner k, drop_behind before rest id (k + 1)⟩

theorem splitClosing?_eq_none_iff_not_balancedTo (h : OpensAt s group work opening) :
    splitClosing? s group 0 (work.drop (opening + 1)) = none ↔
      ∀ j, opening < j → j < work.length → ¬ BalancedTo s group work opening j := by
  obtain ⟨before, id, rest, rfl, rfl, hid⟩ := h.exists_split
  have hrest : (before ++ id :: rest).drop (before.length + 1) = rest :=
    drop_behind before rest id 0
  rw [hrest, splitClosing?_eq_none_iff, List.length_append, List.length_cons]
  constructor
  · intro h j hbehind hlt
    obtain ⟨k, rfl⟩ := Nat.exists_eq_add_of_lt hbehind
    rw [Nat.add_assoc, balancedTo_iff hid]
    exact h k (by omega)
  · intro h k hk
    rw [← balancedTo_iff hid]
    exact h _ (by omega) (by omega)

/-- The elements start with a delimiter that is never closed: a term, a parameter list and
    an array literal all stop there, and change nothing. -/
structure Unclosed (c : Context) (w : Workspace) (group : Group) (ids : List ElementId) :
    Prop where
  term : ∀ reduce done, StateT.run (collapseGroups c reduce done (segments w.store ids)).run w =
    (.error (.unmatched group), w)
  parameters : group = .parenthesis → ∀ name,
    StateT.run (buildFunction c name ids).run w = (.error (.unmatched group), w)
  cells : group = .bracket → ∀ nested row col,
    StateT.run (layout nested row col (items c.vocabulary w.store ids)).run w =
      (.error (.unmatched group), w)

/-- A group that is not closed is the fault of whoever reads it. -/
theorem unclosed_of_splitClosing? {c : Context} {w : Workspace}
    (ho : w.store.kind id = .delimiter group .opening)
    (h : splitClosing? w.store group 0 ids = none) : Unclosed c w group (id :: ids) where
  term reduce done := by
    have hsegments : segments w.store (id :: ids) = [.unmatched group] := by
      rw [segments]
      split
      · rename_i hk
        cases ho.symm.trans hk
      · rename_i hk
        cases ho.symm.trans hk
        split
        · rfl
        · rename_i hs
          rw [h] at hs
          cases hs
      · rename_i hk
        exact absurd ho (hk group)
    rw [hsegments]
    cases done <;> rfl
  parameters hg name := by
    subst hg
    have hfails : (buildFunction c name (id :: ids)).Ensures w fun r w' =>
        r = .error (.unmatched .parenthesis) ∧ w' = w := by
      rw [buildFunction, Reducing.ensures_store_bind]
      dsimp only
      rw [if_pos ho, h]
      exact ⟨rfl, rfl⟩
    exact Prod.ext hfails.1 hfails.2
  cells hg nested row col := by
    subst hg
    have hitems : items c.vocabulary w.store (id :: ids) = [.unclosed] := by
      rw [items, ho]
      dsimp only
      split
      · rfl
      · rename_i hs
        rw [h] at hs
        cases hs
    rw [hitems]
    rfl

/-! ## Cutting arguments -/

/-- Where pieces are cut apart that have one element between neighbours. -/
def cuts : List (List ElementId) → List Nat
  | [] | [_] => []
  | piece :: next :: pieces =>
    piece.length :: (cuts (next :: pieces)).map (piece.length + 1 + ·)

/-- How an element changes the number of open groups, which never falls below 0. -/
def depthStep (s : Store) (depth : Nat) (id : ElementId) : Nat :=
  match s.kind id with
  | .delimiter _ .opening => depth + 1
  | .delimiter _ .closing => depth - 1
  | _ => depth

theorem depthStep_opening (h : s.kind id = .delimiter group .opening) (depth : Nat) :
    depthStep s depth id = depth + 1 := by
  rw [depthStep, h]

theorem depthStep_closing (h : s.kind id = .delimiter group .closing) (depth : Nat) :
    depthStep s depth id = depth - 1 := by
  rw [depthStep, h]

theorem depthStep_other (h : ∀ group side, s.kind id ≠ .delimiter group side) (depth : Nat) :
    depthStep s depth id = depth := by
  unfold depthStep
  split
  · rename_i hk
    exact absurd hk (h _ _)
  · rename_i hk
    exact absurd hk (h _ _)
  · rfl

/-- The number of open groups behind some elements. -/
def depthAfter (s : Store) (depth : Nat) (ids : List ElementId) : Nat :=
  ids.foldl (depthStep s) depth

theorem depthAfter_append (depth : Nat) (front back : List ElementId) :
    depthAfter s depth (front ++ back) = depthAfter s (depthAfter s depth front) back :=
  List.foldl_append

theorem cuts_nil_cons {pieces : List (List ElementId)} (h : pieces ≠ []) :
    cuts ([] :: pieces) = 0 :: (cuts pieces).map (· + 1) := by
  cases pieces with
  | nil => exact absurd rfl h
  | cons piece pieces => simp [cuts, Nat.add_comm]

theorem cuts_modifyHead (id : ElementId) (pieces : List (List ElementId)) :
    cuts (pieces.modifyHead (id :: ·)) = (cuts pieces).map (· + 1) := by
  rcases pieces with _ | ⟨piece, _ | ⟨next, pieces⟩⟩
  · rfl
  · rfl
  · simp only [List.modifyHead_cons, cuts, List.length_cons, List.map_cons, List.map_map,
      List.cons.injEq, true_and]
    refine List.map_congr_left fun k _ => ?_
    show piece.length + 1 + 1 + k = piece.length + 1 + k + 1
    omega

/-- An element is a cut, or belongs to the first argument. -/
theorem splitArguments_cons (s : Store) (depth : Nat) (id : ElementId) (rest : List ElementId) :
    splitArguments s depth (id :: rest) =
      if s.kind id = .comma ∧ depth = 0 then [] :: splitArguments s (depthStep s depth id) rest
      else (splitArguments s (depthStep s depth id) rest).modifyHead (id :: ·) := by
  rw [splitArguments]
  split
  · rename_i hk
    rw [depthStep_opening hk, if_neg (by simp [hk])]
  · rename_i hk
    rw [depthStep_closing hk, if_neg (by simp [hk])]
  · rename_i hk
    rw [depthStep_other (by simp [hk])]
    split
    · rename_i hdepth
      rw [if_pos ⟨hk, hdepth⟩, hdepth]
    · rename_i hdepth
      rw [if_neg fun h => hdepth h.2]
  · rename_i hopening hclosing hcomma
    have hother : ∀ group side, s.kind id ≠ .delimiter group side := by
      intro group side
      cases side with
      | opening => exact hopening group
      | closing => exact hclosing group
    rw [depthStep_other hother, if_neg fun h => hcomma h.1]

theorem splitArguments_ne_nil (s : Store) (depth : Nat) (ids : List ElementId) :
    splitArguments s depth ids ≠ [] := by
  induction ids generalizing depth with
  | nil => simp [splitArguments]
  | cons id rest ih =>
    rw [splitArguments_cons]
    split
    · exact List.cons_ne_nil _ _
    · simpa [List.modifyHead_eq_nil_iff] using ih _

/-- **Arguments are cut** at the commas at which no group is open. -/
theorem mem_cuts_splitArguments (s : Store) (depth i : Nat) (ids : List ElementId) :
    i ∈ cuts (splitArguments s depth ids) ↔
      (∃ id ∈ ids[i]?, s.kind id = .comma) ∧ depthAfter s depth (ids.take i) = 0 := by
  induction ids generalizing depth i with
  | nil => simp [splitArguments, cuts]
  | cons id rest ih =>
    have hstep : cuts (splitArguments s depth (id :: rest)) =
        (if s.kind id = .comma ∧ depth = 0 then [0] else []) ++
          (cuts (splitArguments s (depthStep s depth id) rest)).map (· + 1) := by
      rw [splitArguments_cons]
      split
      · exact cuts_nil_cons (splitArguments_ne_nil _ _ _)
      · exact cuts_modifyHead _ _
    rw [hstep, List.mem_append]
    cases i with
    | zero => simp [depthAfter]
    | succ i =>
      have hcut : i + 1 ∈ (cuts (splitArguments s (depthStep s depth id) rest)).map (· + 1) ↔
          i ∈ cuts (splitArguments s (depthStep s depth id) rest) := by
        simp
      have hfirst : i + 1 ∉ if s.kind id = .comma ∧ depth = 0 then [0] else [] := by
        split <;> simp
      rw [hcut, ih]
      simp [hfirst, depthAfter]

/-! ## Properly nested elements -/

/-- The delimiters of the elements come in pairs of one group, one pair inside or beside
    another. -/
inductive Nested (s : Store) : List ElementId → Prop
  | nil : Nested s []
  | plain {id : ElementId} {ids : List ElementId} (h : (s.kind id).isDelimiter = false)
      (hids : Nested s ids) : Nested s (id :: ids)
  | group {opening closing : ElementId} {inner rest : List ElementId} {group : Group}
      (ho : s.kind opening = .delimiter group .opening) (hinner : Nested s inner)
      (hc : s.kind closing = .delimiter group .closing) (hrest : Nested s rest) :
      Nested s (opening :: (inner ++ closing :: rest))

/-- All groups. -/
def allGroups : List Group :=
  [.parenthesis, .bracket]

theorem mem_allGroups (group : Group) : group ∈ allGroups := by
  cases group <;> decide

/-- The counter has counted every delimiter. -/
def Counted (s : Store) (depth : Nat) (ids : List ElementId) : Prop :=
  depthAfter s depth ids + delimiters s allGroups .closing ids =
    depth + delimiters s allGroups .opening ids

theorem counted_nil : Counted s depth [] := rfl

theorem Counted.append {front back : List ElementId} (hfront : Counted s depth front)
    (hback : Counted s (depthAfter s depth front) back) : Counted s depth (front ++ back) := by
  unfold Counted at *
  rw [depthAfter_append, delimiters_append, delimiters_append]
  omega

theorem counted_opening (h : s.kind id = .delimiter group .opening) : Counted s depth [id] := by
  rw [Counted, delimiters_cons_self h (mem_allGroups group), delimiters_cons_of_ne (by simp [h])]
  exact depthStep_opening h depth

theorem counted_closing (h : s.kind id = .delimiter group .closing) :
    Counted s (depth + 1) [id] := by
  rw [Counted, delimiters_cons_self h (mem_allGroups group), delimiters_cons_of_ne (by simp [h])]
  exact congrArg (· + 1) (depthStep_closing h (depth + 1))

theorem counted_other (h : ∀ group side, s.kind id ≠ .delimiter group side) :
    Counted s depth [id] := by
  rw [Counted, delimiters_cons_of_ne fun group _ => h group _,
    delimiters_cons_of_ne fun group _ => h group _]
  exact depthStep_other h depth

/-- Behind properly nested elements as many groups are open as before them, and the counter
    misses none of their delimiters. -/
theorem Nested.counted (h : Nested s ids) (depth : Nat) :
    depthAfter s depth ids = depth ∧ ∀ n, Counted s depth (ids.take n) := by
  induction h generalizing depth with
  | nil => exact ⟨rfl, fun n => by rw [List.take_nil]; exact counted_nil⟩
  | @plain id ids hplain _ ih =>
    have hid := Kind.ne_delimiter hplain
    have hone : depthAfter s depth [id] = depth := depthStep_other hid depth
    refine ⟨?_, fun n => ?_⟩
    · rw [← List.singleton_append, depthAfter_append, hone]
      exact (ih depth).1
    · cases n with
      | zero => exact counted_nil
      | succ n =>
        refine (counted_other hid).append ?_
        rw [hone]
        exact (ih depth).2 n
  | @group opening closing inner rest group ho _ hc _ ihinner ihrest =>
    have hopening : depthAfter s depth [opening] = depth + 1 := depthStep_opening ho depth
    have hclosing : depthAfter s (depth + 1) [closing] = depth := depthStep_closing hc (depth + 1)
    obtain ⟨hinner, htake⟩ := ihinner (depth + 1)
    refine ⟨?_, fun n => ?_⟩
    · rw [← List.singleton_append, depthAfter_append, hopening, depthAfter_append, hinner,
        ← List.singleton_append, depthAfter_append, hclosing]
      exact (ihrest depth).1
    · cases n with
      | zero => exact counted_nil
      | succ n =>
        refine (counted_opening ho).append ?_
        rw [hopening, List.take_append]
        refine (htake n).append ?_
        cases hn : n - inner.length with
        | zero => exact counted_nil
        | succ m =>
          -- All of the inside is taken, and the closing delimiter with it.
          rw [List.take_of_length_le (by omega), hinner]
          refine (counted_closing hc).append ?_
          rw [hclosing]
          exact (ihrest depth).2 m

/-- In properly nested elements the counter is at 0 where all groups are closed. -/
theorem Nested.depthAfter_eq_zero_iff (h : Nested s ids) (i : Nat) :
    depthAfter s 0 (ids.take i) = 0 ↔ SameCount s allGroups (ids.take i) := by
  have hcounted := (h.counted 0).2 i
  unfold Counted at hcounted
  rw [SameCount]
  omega

/-- **Groups and arguments.**  A group is closed at the first position at which, from its
    opening on, as many delimiters of its kind open as close; without such a position
    reading it stops with the fault of that kind.  The arguments of a call are the
    elements between its parentheses, cut at commas; if these elements are properly
    nested, they are cut at exactly the commas at which as many delimiters have opened
    as closed. -/
theorem closing_and_arguments (s : Store) :
    (∀ (work : List ElementId) (opening : Nat) (group : Group), OpensAt s group work opening →
      (∀ inner after, splitClosing? s group 0 (work.drop (opening + 1)) = some (inner, after) ↔
        ∃ j, ClosesAt s group work opening j ∧ inner = (work.take j).drop (opening + 1) ∧
          after = work.drop (j + 1)) ∧
      (splitClosing? s group 0 (work.drop (opening + 1)) = none ↔
        ∀ j, opening < j → j < work.length → ¬ BalancedTo s group work opening j) ∧
      (splitClosing? s group 0 (work.drop (opening + 1)) = none →
        ∀ c w, w.store = s → Unclosed c w group (work.drop opening))) ∧
    ∀ inner : List ElementId,
      (∀ reduce w, w.store = s → StateT.run (reduceArguments reduce inner).run w =
        StateT.run ((arguments s inner).mapM reduce).run w) ∧
      (inner = [] → arguments s inner = []) ∧
      (inner ≠ [] → Separated s inner (arguments s inner)) ∧
      (Nested s inner → ∀ i, i ∈ cuts (arguments s inner) ↔
        (∃ id ∈ inner[i]?, s.kind id = .comma) ∧ SameCount s allGroups (inner.take i)) := by
  refine ⟨fun work opening group hopens => ⟨fun inner after => ?_, ?_, ?_⟩,
    fun inner => ⟨?_, ?_, fun hinner => ?_, fun hnested i => ?_⟩⟩
  · exact splitClosing?_eq_some_iff_closesAt hopens
  · exact splitClosing?_eq_none_iff_not_balancedTo hopens
  · rintro hnone c w rfl
    obtain ⟨before, id, rest, rfl, rfl, hid⟩ := hopens.exists_split
    rw [List.drop_left]
    exact unclosed_of_splitClosing? hid (by rwa [drop_behind before rest id 0] at hnone)
  · rintro reduce w rfl
    rfl
  · rintro rfl
    rfl
  · rw [arguments, if_neg (by simpa using hinner)]
    exact separated_splitArguments s 0 inner
  · rw [arguments]
    split
    · rename_i hempty
      simp [List.isEmpty_iff.1 hempty, cuts]
    · rw [mem_cuts_splitArguments, hnested.depthAfter_eq_zero_iff]

/-- A parenthesis is closed although a bracket inside it is not, a bracket is never closed,
    and a comma between parentheses or brackets is no cut. -/
theorem closing_and_arguments_interleaved :
    let s := (StateT.run (placeTokens {} 1 (Token.tokenize {} "([(a)),b],(c,[d,e]),f")) {}).2.store
    splitClosing? s .parenthesis 0 ((List.range 21).drop 1) =
        some ([1, 2, 3, 4], (List.range 21).drop 6) ∧
      (∃ j, ClosesAt s .parenthesis (List.range 21) 0 j ∧
        [1, 2, 3, 4] = ((List.range 21).take j).drop 1 ∧
        (List.range 21).drop 6 = (List.range 21).drop (j + 1)) ∧
      Unclosed {} ⟨s, #[]⟩ .bracket [13, 14, 15, 16] ∧
      arguments s [10, 11, 12, 13, 14, 15, 16, 17, 18, 19, 20] =
        [[10, 11, 12, 13, 14, 15, 16, 17, 18], [20]] ∧
      SameCount s allGroups [10, 11, 12, 13, 14, 15, 16, 17, 18] := by
  intro s
  have hfacts : splitClosing? s .parenthesis 0 ((List.range 21).drop 1) =
        some ([1, 2, 3, 4], (List.range 21).drop 6) ∧
      splitClosing? s .bracket 0 [14, 15, 16] = none ∧
      arguments s [10, 11, 12, 13, 14, 15, 16, 17, 18, 19, 20] =
        [[10, 11, 12, 13, 14, 15, 16, 17, 18], [20]] ∧
      s.kind 0 = .delimiter .parenthesis .opening ∧
      s.kind 10 = .delimiter .parenthesis .opening ∧
      s.kind 18 = .delimiter .parenthesis .closing ∧
      s.kind 13 = .delimiter .bracket .opening ∧ s.kind 17 = .delimiter .bracket .closing ∧
      ∀ id ∈ [11, 12, 14, 15, 16, 19, 20], (s.kind id).isDelimiter = false := by
    decide +kernel
  obtain ⟨hsplit, hopen, harguments, h0, h10, h18, h13, h17, hplain⟩ := hfacts
  have hnested : Nested s [10, 11, 12, 13, 14, 15, 16, 17, 18, 19, 20] := by
    have h14 : Nested s [14, 15, 16] :=
      .plain (hplain 14 (by simp))
        (.plain (hplain 15 (by simp)) (.plain (hplain 16 (by simp)) .nil))
    have h11 : Nested s [11, 12, 13, 14, 15, 16, 17] :=
      .plain (hplain 11 (by simp)) (.plain (hplain 12 (by simp)) (.group h13 h14 h17 .nil))
    exact .group h10 h11 h18 (.plain (hplain 19 (by simp)) (.plain (hplain 20 (by simp)) .nil))
  obtain ⟨hclosing, hcuts⟩ := closing_and_arguments s
  obtain ⟨-, -, -, hcuts⟩ := hcuts [10, 11, 12, 13, 14, 15, 16, 17, 18, 19, 20]
  refine ⟨hsplit, ?_, ?_, harguments, ?_⟩
  · obtain ⟨hsome, -⟩ := hclosing (List.range 21) 0 .parenthesis ⟨0, rfl, h0⟩
    exact (hsome _ _).1 hsplit
  · obtain ⟨-, -, hfault⟩ := hclosing [13, 14, 15, 16] 0 .bracket ⟨13, rfl, h13⟩
    exact hfault hopen {} ⟨s, #[]⟩ rfl
  · have hcut : 9 ∈ cuts (arguments s [10, 11, 12, 13, 14, 15, 16, 17, 18, 19, 20]) := by
      rw [harguments]
      decide
    exact ((hcuts hnested 9).1 hcut).2

end Term

end FormulaSheet
