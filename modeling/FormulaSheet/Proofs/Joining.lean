/-
  Joined lines: what becomes of the tokens of the lines that are joined.

  Lines are joined with their comments, and a comment runs to the end of the
  joined text.

  * `absorbed n lines l`: the lines that the logical line `l` is made of, if the
    first of `lines` has number `n`.  Each line is absorbed once and in order
    (`flatMap_absorbed`), and what follows the first one ends with the line that
    closes the array (`exists_absorbed`).
  * `upToComment lines`: the lines that are not behind a comment.  The tokens of a
    joined text are theirs (`tokenize_intercalate`).
  * `tokenize_text_eq_iff`: so no token is lost exactly if no line but the last one
    has a comment.
  * `tokenize_text_ne`: tokens do get lost.
-/
import FormulaSheet.Proofs.Independence
import FormulaSheet.Proofs.Lexing

namespace FormulaSheet

open Token

namespace LogicalLine

/-! ## Lines that are absorbed -/

/-- The physical lines that a logical line is made of, where the first of `lines`
    has number `n`. -/
def absorbed (n : Nat) (lines : List String) (l : LogicalLine) : List String :=
  (lines.drop (l.line - n)).take l.height

theorem closes_of_absorb? {lines block rest : List String} (h : absorb? lines = some (block, rest)) :
    ∃ front last, block = front ++ [last] ∧ closes last = true ∧
      ∀ line ∈ front, closes line = false := by
  induction lines generalizing block with
  | nil => cases h
  | cons line lines ih =>
    rw [absorb?] at h
    split at h
    · rename_i hc
      cases h
      exact ⟨[], line, rfl, hc, by simp⟩
    · rename_i hc
      obtain ⟨⟨block, rest⟩, hb, he⟩ := Option.map_eq_some_iff.1 h
      cases he
      obtain ⟨front, last, rfl, hlast, hfront⟩ := ih hb
      refine ⟨line :: front, last, rfl, hlast, List.forall_mem_cons.2 ⟨?_, hfront⟩⟩
      simpa using hc

theorem closes_of_continuation? {first : String} {rest block after : List String}
    (h : continuation? first rest = some (block, after)) :
    ∀ last ∈ block.getLast?, closes last = true := by
  unfold continuation? at h
  split at h
  · cases h
    simp
  · obtain ⟨front, last, rfl, hlast, -⟩ := closes_of_absorb? h
    simpa using hlast

theorem le_line_of_mem_joinLines {n : Nat} {lines : List String} {l : LogicalLine}
    (h : l ∈ (joinLines n lines).1) : n ≤ l.line := by
  induction lines using joined_induction generalizing n with
  | nil => simp [joinLines] at h
  | cons first rest ih =>
    cases hc : continuation? first rest with
    | none =>
      rw [joinLines_of_none hc] at h
      cases h
    | some r =>
      obtain ⟨block, after⟩ := r
      rw [joinLines_of_some hc] at h
      rcases List.mem_cons.1 h with rfl | h
      · exact Nat.le_refl _
      · have := ih block after hc h
        omega

theorem absorbed_first (n : Nat) (first : String) (block after : List String) (text : String) :
    absorbed n (first :: (block ++ after)) ⟨text, n, block.length + 1⟩ = first :: block := by
  simp [absorbed]

theorem absorbed_after {n : Nat} {first : String} {block after : List String} {l : LogicalLine}
    (h : n + (block.length + 1) ≤ l.line) :
    absorbed n (first :: (block ++ after)) l = absorbed (n + (block.length + 1)) after l := by
  obtain ⟨k, hk⟩ := Nat.exists_eq_add_of_le h
  have hdrop : l.line - n = (first :: block).length + k := by
    rw [hk, List.length_cons]
    omega
  have hdrop' : l.line - (n + (block.length + 1)) = k := by omega
  rw [absorbed, absorbed, hdrop, hdrop', ← List.cons_append, ← List.drop_drop, List.drop_left]

/-- A logical line is the text of the lines that it is made of; the last one closes
    its array, if there are several. -/
theorem exists_absorbed {n : Nat} {lines : List String} {l : LogicalLine}
    (h : l ∈ (joinLines n lines).1) :
    ∃ first block, absorbed n lines l = first :: block ∧
      l.text = " ".intercalate (first :: block) ∧ ∀ last ∈ block.getLast?, closes last = true := by
  induction lines using joined_induction generalizing n with
  | nil => simp [joinLines] at h
  | cons first rest ih =>
    cases hc : continuation? first rest with
    | none =>
      rw [joinLines_of_none hc] at h
      cases h
    | some r =>
      obtain ⟨block, after⟩ := r
      rw [joinLines_of_some hc] at h
      rw [continuation?_eq_append hc]
      rcases List.mem_cons.1 h with rfl | h
      · exact ⟨first, block, absorbed_first n first block after _, rfl, closes_of_continuation? hc⟩
      · rw [absorbed_after (le_line_of_mem_joinLines h)]
        exact ih block after hc h

/-- **Every line is absorbed once**, and the order of the lines stays. -/
theorem flatMap_absorbed {n : Nat} {lines : List String} (h : (joinLines n lines).2 = none) :
    (joinLines n lines).1.flatMap (absorbed n lines) = lines := by
  induction lines using joined_induction generalizing n with
  | nil => simp [joinLines]
  | cons first rest ih =>
    cases hc : continuation? first rest with
    | none =>
      rw [joinLines_of_none hc] at h
      cases h
    | some r =>
      obtain ⟨block, after⟩ := r
      rw [joinLines_of_some hc] at h ⊢
      rw [continuation?_eq_append hc, List.flatMap_cons, absorbed_first]
      have hafter : (joinLines (n + (block.length + 1)) after).1.flatMap
          (absorbed n (first :: (block ++ after))) = after := by
        rw [List.flatMap_congr fun l hl => absorbed_after (le_line_of_mem_joinLines hl)]
        exact ih block after hc h
      rw [hafter, List.cons_append]

/-! ## Tokens of joined lines -/

/-- The lines up to the first one with a comment. -/
def upToComment : List String → List String
  | [] => []
  | line :: lines => if '%' ∈ line.toList then [line] else line :: upToComment lines

variable {v : Vocabulary}

theorem toList_intercalate_cons (line next : String) (lines : List String) :
    (" ".intercalate (line :: next :: lines)).toList =
      line.toList ++ ' ' :: (" ".intercalate (next :: lines)).toList := by
  simp [String.toList_intercalate]

/-- **The tokens of joined lines** are those of the lines up to the first comment. -/
theorem tokenize_intercalate (v : Vocabulary) (lines : List String) :
    tokenize v (" ".intercalate lines) = (upToComment lines).flatMap (tokenize v) := by
  induction lines with
  | nil => simp [tokenize, scan, upToComment]
  | cons line lines ih =>
    cases lines with
    | nil => simp [upToComment]
    | cons next lines =>
      rw [tokenize, toList_intercalate_cons, upToComment]
      split
      · rename_i hcomment
        obtain ⟨code, comment, hline⟩ := List.append_of_mem hcomment
        rw [hline, List.append_assoc, List.cons_append, scan_append_comment, List.flatMap_singleton,
          tokenize, hline, scan_append_comment]
      · rename_i hcomment
        rw [scan_append_space hcomment, List.map_append, List.flatMap_cons, ← ih]
        rfl

theorem tokenize_ne_nil_of_closes {line : String} (h : closes line = true) :
    tokenize v line ≠ [] := by
  have hm : [']'] ∈ scan v line.toList :=
    mem_scan_of_mem_code (Or.inr rfl) (List.contains_iff_mem.1 h)
  rw [tokenize, Ne, List.map_eq_nil_iff]
  exact List.ne_nil_of_mem hm

theorem tokenize_intercalate_eq_iff {first : String} {block : List String}
    (h : ∀ last ∈ block.getLast?, closes last = true) :
    tokenize v (" ".intercalate (first :: block)) = (first :: block).flatMap (tokenize v) ↔
      ∀ line ∈ (first :: block).dropLast, '%' ∉ line.toList := by
  rw [tokenize_intercalate]
  induction block generalizing first with
  | nil => simp [upToComment]
  | cons next block ih =>
    obtain ⟨last, hlast⟩ : ∃ last, last ∈ (next :: block).getLast? :=
      ⟨(next :: block).getLast (by simp), List.getLast?_eq_some_getLast _⟩
    rw [upToComment, List.dropLast_cons_cons, List.forall_mem_cons]
    split
    · rename_i hcomment
      -- The tokens of the last line are lost.
      refine iff_of_false (fun he => ?_) fun hn => hn.1 hcomment
      rw [List.flatMap_singleton, List.flatMap_cons, List.self_eq_append_right, List.flatMap_eq_nil_iff]
        at he
      exact tokenize_ne_nil_of_closes (h last hlast) (he last (List.mem_of_getLast? hlast))
    · rename_i hcomment
      have hblock : ∀ last ∈ block.getLast?, closes last = true := by
        intro last hlast
        cases block with
        | nil => cases hlast
        | cons line lines => exact h last (by rwa [List.getLast?_cons_cons])
      rw [List.flatMap_cons, List.flatMap_cons, List.append_cancel_left_eq, ih hblock]
      exact ⟨fun hn => ⟨hcomment, hn⟩, And.right⟩

end LogicalLine

open LogicalLine

/-- **When joining lines loses no tokens.**  Every physical line is part of one logical
    line.  The tokens of a logical line are those of its physical lines up to the first
    comment, so they are all of them exactly if only the last one has a comment. -/
theorem tokenize_text_eq_iff (v : Vocabulary) (lines : List String) (joined : List LogicalLine)
    (h : ofLines lines = .ok joined) :
    joined.flatMap (absorbed 1 lines) = lines ∧ ∀ l ∈ joined,
      l.text = " ".intercalate (absorbed 1 lines l) ∧
      tokenize v l.text = (upToComment (absorbed 1 lines l)).flatMap (tokenize v) ∧
      (tokenize v l.text = (absorbed 1 lines l).flatMap (tokenize v) ↔
        ∀ line ∈ (absorbed 1 lines l).dropLast, '%' ∉ line.toList) := by
  rw [ofLines_eq_ok_iff] at h
  have hjoined : joined = (joinLines 1 lines).1 := by rw [h]
  have hclosed : (joinLines 1 lines).2 = none := by rw [h]
  subst hjoined
  refine ⟨flatMap_absorbed hclosed, fun l hl => ?_⟩
  obtain ⟨first, block, hblock, htext, hlast⟩ := exists_absorbed hl
  rw [hblock, htext]
  exact ⟨rfl, tokenize_intercalate v _, tokenize_intercalate_eq_iff hlast⟩

/-- A line with a comment, an array with a comment after its first row, and an array
    with a comment after its last one. -/
theorem tokenize_text_eq_iff_comments :
    let lines := ["x = 1 % one", "M = [1 2; % first row", "3 4]; % last row", "z = [1", "x",
      "] % end"]
    let joined : List LogicalLine := [⟨"x = 1 % one", 1, 1⟩,
      ⟨"M = [1 2; % first row 3 4]; % last row", 2, 2⟩, ⟨"z = [1 x ] % end", 4, 3⟩]
    ofLines lines = .ok joined ∧ joined.flatMap (absorbed 1 lines) = lines ∧ ∀ l ∈ joined,
      l.text = " ".intercalate (absorbed 1 lines l) ∧
      tokenize {} l.text = (upToComment (absorbed 1 lines l)).flatMap (tokenize {}) ∧
      (tokenize {} l.text = (absorbed 1 lines l).flatMap (tokenize {}) ↔
        ∀ line ∈ (absorbed 1 lines l).dropLast, '%' ∉ line.toList) := by
  intro lines joined
  have hjoined : ofLines lines = .ok joined := by decide +kernel
  exact ⟨hjoined, tokenize_text_eq_iff {} lines joined hjoined⟩

/-- **Joining lines loses tokens**: the comment after the first row of the array takes in
    the second row and the bracket that closes the array. -/
theorem tokenize_text_ne :
    let lines := ["M = [1 2; % first row", "3 4];"]
    ∃ l, ofLines lines = .ok [l] ∧ absorbed 1 lines l = lines ∧
      tokenize {} l.text = ["M", "=", "[", "1", "2", ";"] ∧
      lines.flatMap (tokenize {}) = ["M", "=", "[", "1", "2", ";", "3", "4", "]", ";"] ∧
      tokenize {} l.text ≠ (absorbed 1 lines l).flatMap (tokenize {}) := by
  intro lines
  have htext : tokenize {} "M = [1 2; % first row 3 4];" = ["M", "=", "[", "1", "2", ";"] := by
    decide +kernel
  have hlines : lines.flatMap (tokenize {}) =
      ["M", "=", "[", "1", "2", ";", "3", "4", "]", ";"] := by
    decide +kernel
  refine ⟨⟨"M = [1 2; % first row 3 4];", 1, 2⟩, by decide +kernel, rfl, htext, hlines, ?_⟩
  have hne : ["M", "=", "[", "1", "2", ";"] ≠
      ["M", "=", "[", "1", "2", ";", "3", "4", "]", ";"] := by decide
  intro he
  exact hne (htext.symm.trans (he.trans hlines))

end FormulaSheet
