/-
  Logical lines are blocks of lines.

  * `IsBlock`: a balanced line, or a line that is not balanced with all that follows
    up to the first line that closes a bracket.  These are the lines that are joined
    (`continuation?_eq_some_iff`); there are none where an array stays open
    (`continuation?_eq_none_iff`).
  * `ofBlocks`: the logical lines of consecutive blocks.  Joining gives them one by
    one (`joinLines_flatten_append`), and all lines are blocks up to the first array
    that stays open (`exists_blocks`).
  * `ofLines_blocks`: so joining succeeds exactly on lines that are blocks, fails
    exactly at an array that stays open behind blocks, and can be done piece by
    piece.
-/
import FormulaSheet.Proofs.Joining

namespace FormulaSheet

namespace LogicalLine

/-! ## Blocks -/

/-- The lines of one logical line. -/
inductive IsBlock : List String → Prop
  /-- A balanced line stands for itself. -/
  | single {line : String} (h : isBalanced line = true) : IsBlock [line]
  /-- Any other line is joined with the lines up to the first one that closes a
      bracket. -/
  | array {first last : String} {middle : List String} (h : isBalanced first = false)
      (hmiddle : ∀ line ∈ middle, closes line = false) (hlast : closes last = true) :
      IsBlock (first :: (middle ++ [last]))

theorem absorb?_eq_some_of_closes {middle : List String} {last : String}
    (hmiddle : ∀ line ∈ middle, closes line = false) (hlast : closes last = true)
    (after : List String) :
    absorb? (middle ++ last :: after) = some (middle ++ [last], after) := by
  induction middle with
  | nil => rw [List.nil_append, absorb?, if_pos hlast, List.nil_append]
  | cons line middle ih =>
    obtain ⟨hline, hmiddle⟩ := List.forall_mem_cons.1 hmiddle
    rw [List.cons_append, absorb?, if_neg (by simp [hline]), ih hmiddle]
    rfl

theorem absorb?_eq_none_iff {lines : List String} :
    absorb? lines = none ↔ ∀ line ∈ lines, closes line = false := by
  induction lines with
  | nil => simp [absorb?]
  | cons line lines ih =>
    rw [absorb?, List.forall_mem_cons, ← ih]
    cases closes line with
    | true => simp
    | false => simp

/-- A line and what is joined with it are a block. -/
theorem continuation?_eq_some_iff {first : String} {rest block after : List String} :
    continuation? first rest = some (block, after) ↔
      IsBlock (first :: block) ∧ rest = block ++ after := by
  constructor
  · intro h
    refine ⟨?_, continuation?_eq_append h⟩
    unfold continuation? at h
    split at h
    · rename_i hb
      cases h
      exact .single hb
    · rename_i hb
      obtain ⟨middle, last, rfl, hlast, hmiddle⟩ := closes_of_absorb? h
      exact .array (by simpa using hb) hmiddle hlast
  · rintro ⟨hblock, rfl⟩
    unfold continuation?
    cases hblock with
    | single hb => rw [if_pos hb, List.nil_append]
    | array hb hmiddle hlast =>
      rw [if_neg (by simp [hb]), List.append_assoc]
      exact absorb?_eq_some_of_closes hmiddle hlast after

theorem continuation?_eq_none_iff {first : String} {rest : List String} :
    continuation? first rest = none ↔
      isBalanced first = false ∧ ∀ line ∈ rest, closes line = false := by
  unfold continuation?
  cases isBalanced first with
  | true => simp
  | false => simp [absorb?_eq_none_iff]

/-! ## Joining block by block -/

/-- The logical lines of consecutive blocks, where the first line has number `n`. -/
def ofBlocks (n : Nat) (blocks : List (List String)) : List LogicalLine :=
  blocks.mapIdx fun k block =>
    ⟨" ".intercalate block, n + (blocks.take k).flatten.length, block.length⟩

theorem ofBlocks_cons (n : Nat) (block : List String) (blocks : List (List String)) :
    ofBlocks n (block :: blocks) =
      ⟨" ".intercalate block, n, block.length⟩ :: ofBlocks (n + block.length) blocks := by
  simp [ofBlocks, List.mapIdx_cons, Nat.add_assoc]

/-- **Blocks are joined one by one.** -/
theorem joinLines_flatten_append {blocks : List (List String)}
    (h : ∀ block ∈ blocks, IsBlock block) (n : Nat) (rest : List String) :
    joinLines n (blocks.flatten ++ rest) =
      (ofBlocks n blocks ++ (joinLines (n + blocks.flatten.length) rest).1,
        (joinLines (n + blocks.flatten.length) rest).2) := by
  induction blocks generalizing n with
  | nil => rfl
  | cons block blocks ih =>
    obtain ⟨hblock, hblocks⟩ := List.forall_mem_cons.1 h
    obtain ⟨first, block, rfl⟩ : ∃ first more, block = first :: more := by
      cases hblock with
      | single => exact ⟨_, _, rfl⟩
      | array => exact ⟨_, _, rfl⟩
    have hcont : continuation? first (block ++ (blocks.flatten ++ rest)) =
        some (block, blocks.flatten ++ rest) :=
      continuation?_eq_some_iff.2 ⟨hblock, rfl⟩
    rw [List.flatten_cons, List.append_assoc, List.cons_append, joinLines_of_some hcont,
      ih hblocks, ofBlocks_cons, List.length_append, List.length_cons, Nat.add_assoc]
    rfl

/-- All lines are blocks, up to the first array that stays open. -/
theorem exists_blocks (lines : List String) :
    ∃ (blocks : List (List String)) (rest : List String), (∀ block ∈ blocks, IsBlock block) ∧
      blocks.flatten ++ rest = lines ∧
      (rest = [] ∨ ∃ first more, rest = first :: more ∧ continuation? first more = none) := by
  induction lines using joined_induction with
  | nil => exact ⟨[], [], by simp, rfl, Or.inl rfl⟩
  | cons first rest ih =>
    cases hc : continuation? first rest with
    | none => exact ⟨[], first :: rest, by simp, rfl, Or.inr ⟨first, rest, rfl, hc⟩⟩
    | some r =>
      obtain ⟨block, after⟩ := r
      obtain ⟨hblock, rfl⟩ := continuation?_eq_some_iff.1 hc
      obtain ⟨blocks, rest, hblocks, rfl, hrest⟩ := ih block after hc
      refine ⟨(first :: block) :: blocks, rest, List.forall_mem_cons.2 ⟨hblock, hblocks⟩, ?_, hrest⟩
      rw [List.flatten_cons, List.append_assoc, List.cons_append]

theorem ofLines_eq_error_iff {lines : List String} {failure : UnterminatedArray} :
    ofLines lines = .error failure ↔ (joinLines 1 lines).2 = some failure := by
  unfold ofLines
  split
  · rename_i h
    simp [h]
  · rename_i h
    simp [h]

theorem ofLines_flatten {blocks : List (List String)} (h : ∀ block ∈ blocks, IsBlock block) :
    ofLines blocks.flatten = .ok (ofBlocks 1 blocks) := by
  have hjoin := joinLines_flatten_append h 1 []
  rw [List.append_nil, joinLines, List.append_nil] at hjoin
  exact ofLines_eq_ok_iff.2 hjoin

theorem ofLines_flatten_append_open {blocks : List (List String)}
    (h : ∀ block ∈ blocks, IsBlock block) {first : String} {rest : List String}
    (hopen : continuation? first rest = none) :
    ofLines (blocks.flatten ++ first :: rest) = .error ⟨1 + blocks.flatten.length⟩ := by
  rw [ofLines_eq_error_iff, joinLines_flatten_append h, joinLines_of_none hopen]

/-! ## Line numbers -/

/-- A logical line `m` lines further down. -/
def moved (m : Nat) (l : LogicalLine) : LogicalLine :=
  { l with line := l.line + m }

end LogicalLine

/-- An open array `m` lines further down. -/
def UnterminatedArray.moved (m : Nat) (failure : UnterminatedArray) : UnterminatedArray :=
  ⟨failure.line + m⟩

namespace LogicalLine

/-- The number of the first line is added to all others. -/
theorem joinLines_add (n m : Nat) (lines : List String) :
    joinLines (n + m) lines =
      ((joinLines n lines).1.map (moved m), (joinLines n lines).2.map (·.moved m)) := by
  induction lines using joined_induction generalizing n with
  | nil =>
    rw [joinLines, joinLines]
    rfl
  | cons first rest ih =>
    cases hc : continuation? first rest with
    | none =>
      rw [joinLines_of_none hc, joinLines_of_none hc]
      rfl
    | some r =>
      obtain ⟨block, after⟩ := r
      rw [joinLines_of_some hc, joinLines_of_some hc, Nat.add_right_comm, ih block after hc]
      rfl

end LogicalLine

open LogicalLine

/-- **Logical lines are blocks of lines.**  Joining succeeds exactly if the lines are
    consecutive blocks, and gives the text and the first line of each.  It fails exactly
    if an array stays open behind blocks, at the line of that array.  Behind lines that
    are joined, more lines are joined as they would be on their own. -/
theorem ofLines_blocks (lines : List String) :
    (∀ joined, ofLines lines = .ok joined ↔
      ∃ blocks : List (List String), (∀ block ∈ blocks, IsBlock block) ∧
        blocks.flatten = lines ∧ joined = ofBlocks 1 blocks) ∧
    (∀ failure, ofLines lines = .error failure ↔
      ∃ (blocks : List (List String)) (first : String) (rest : List String),
        (∀ block ∈ blocks, IsBlock block) ∧ blocks.flatten ++ first :: rest = lines ∧
        isBalanced first = false ∧ (∀ line ∈ rest, closes line = false) ∧
        failure.line = 1 + blocks.flatten.length) ∧
    ∀ joined more, ofLines lines = .ok joined →
      (∀ joined', ofLines more = .ok joined' →
        ofLines (lines ++ more) = .ok (joined ++ joined'.map (moved lines.length))) ∧
      ∀ failure, ofLines more = .error failure →
        ofLines (lines ++ more) = .error (failure.moved lines.length) := by
  refine ⟨fun joined => ⟨fun h => ?_, ?_⟩, fun failure => ⟨fun h => ?_, ?_⟩,
    fun joined more h => ⟨fun joined' h' => ?_, fun failure h' => ?_⟩⟩
  · obtain ⟨blocks, rest, hblocks, rfl, rfl | ⟨first, more, rfl, hopen⟩⟩ := exists_blocks lines
    · rw [List.append_nil, ofLines_flatten hblocks] at h
      exact ⟨blocks, hblocks, (List.append_nil _).symm, (Except.ok.inj h).symm⟩
    · rw [ofLines_flatten_append_open hblocks hopen] at h
      cases h
  · rintro ⟨blocks, hblocks, rfl, rfl⟩
    exact ofLines_flatten hblocks
  · obtain ⟨blocks, rest, hblocks, rfl, rfl | ⟨first, more, rfl, hopen⟩⟩ := exists_blocks lines
    · rw [List.append_nil, ofLines_flatten hblocks] at h
      cases h
    · rw [ofLines_flatten_append_open hblocks hopen] at h
      cases h
      obtain ⟨hfirst, hmore⟩ := continuation?_eq_none_iff.1 hopen
      exact ⟨blocks, first, more, hblocks, rfl, hfirst, hmore, rfl⟩
  · rintro ⟨blocks, first, rest, hblocks, rfl, hfirst, hrest, hline⟩
    rw [ofLines_flatten_append_open hblocks (continuation?_eq_none_iff.2 ⟨hfirst, hrest⟩), ← hline]
  · rw [ofLines_eq_ok_iff] at h h' ⊢
    rw [joinLines_append (by rw [h]), h, joinLines_add, h']
    rfl
  · rw [ofLines_eq_ok_iff] at h
    rw [ofLines_eq_error_iff] at h' ⊢
    rw [joinLines_append (by rw [h]), joinLines_add, h']
    rfl

/-- A line that only closes a bracket starts a block, brackets in comments do not count,
    and an array that stays open is found behind both. -/
theorem ofLines_blocks_closing :
    ofLines ["] % [", "x = 1 % [", "y ]"] = .ok [⟨"] % [ x = 1 % [ y ]", 1, 3⟩] ∧
      (∃ blocks : List (List String), (∀ block ∈ blocks, IsBlock block) ∧
        blocks.flatten = ["] % [", "x = 1 % [", "y ]"] ∧
        [⟨"] % [ x = 1 % [ y ]", 1, 3⟩] = ofBlocks 1 blocks) ∧
      ofLines (["] % [", "x = 1 % [", "y ]"] ++ ["z", "M = [1", "2"]) = .error ⟨5⟩ := by
  have hfirst : ofLines ["] % [", "x = 1 % [", "y ]"] =
      .ok [⟨"] % [ x = 1 % [ y ]", 1, 3⟩] := by decide +kernel
  have hopen : ofLines ["z", "M = [1", "2"] = .error ⟨2⟩ := by decide +kernel
  obtain ⟨hok, -, happend⟩ := ofLines_blocks ["] % [", "x = 1 % [", "y ]"]
  exact ⟨hfirst, (hok _).1 hfirst, (happend _ _ hfirst).2 _ hopen⟩

end FormulaSheet
