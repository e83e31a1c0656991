/-
  Logical lines: the physical lines of a script, with every array literal that
  runs over several lines joined into one.

  * `codePart` is what stands before the comment of a line.  A line is
    balanced if its code part has as many `[` as `]`.
  * An unbalanced line absorbs the lines after it up to and including the
    first one whose code part has a `]` (`absorb?`).
  * `joinLines` gives the logical lines in order, and the line of the first
    array that is never closed; `ofLines` is the result with that failure as
    an error.
-/

namespace FormulaSheet

/-- One statement of a script: its text, the number of its first physical line
    (from 1) and how many physical lines it takes up. -/
structure LogicalLine where
  text : String
  line : Nat
  height : Nat := 1
  deriving DecidableEq, Repr, Inhabited

/-- An array literal that no later line closes. -/
structure UnterminatedArray where
  /-- The line the literal starts on, from 1. -/
  line : Nat
  deriving DecidableEq, Repr, Inhabited

/-- The wording of the failure. -/
def UnterminatedArray.message (failure : UnterminatedArray) : String :=
  s!"array literal starting on line {failure.line} is never closed"

namespace LogicalLine

/-- The part of a line before its comment. -/
def codePart (line : String) : List Char :=
  line.toList.takeWhile (· != '%')

/-- As many opening as closing brackets in the code part. -/
def isBalanced (line : String) : Bool :=
  (codePart line).count '[' == (codePart line).count ']'

/-- A closing bracket in the code part. -/
def closes (line : String) : Bool :=
  (codePart line).contains ']'

/-- The lines up to and including the first one that closes a bracket, and the
    lines after it. -/
def absorb? : List String → Option (List String × List String)
  | [] => none
  | line :: lines =>
    if closes line then some ([line], lines)
    else (absorb? lines).map fun (block, rest) => (line :: block, rest)

theorem absorb?_eq_append {lines block rest : List String} (h : absorb? lines = some (block, rest)) :
    lines = block ++ rest := by
  induction lines generalizing block rest with
  | nil => simp [absorb?] at h
  | cons line lines ih =>
    simp only [absorb?] at h
    split at h
    · obtain ⟨rfl, rfl⟩ : [line] = block ∧ lines = rest := by simpa using h
      rfl
    · obtain ⟨⟨b, r⟩, hb, he⟩ := Option.map_eq_some_iff.1 h
      simp only [Prod.mk.injEq] at he
      obtain ⟨rfl, rfl⟩ := he
      simp [← ih hb]

theorem length_of_absorb? {lines block rest : List String} (h : absorb? lines = some (block, rest)) :
    rest.length ≤ lines.length := by
  simp [absorb?_eq_append h]

/-- The logical lines of `lines`, whose first line has number `line`, up to
    the first array that is never closed, and that array. -/
def joinLines (line : Nat) (lines : List String) : List LogicalLine × Option UnterminatedArray :=
  match lines with
  | [] => ([], none)
  | first :: rest =>
    if isBalanced first then
      let (joined, failure) := joinLines (line + 1) rest
      (⟨first, line, 1⟩ :: joined, failure)
    else
      match _h : absorb? rest with
      | none => ([], some ⟨line⟩)
      | some (block, after) =>
        let height := block.length + 1
        let (joined, failure) := joinLines (line + height) after
        (⟨" ".intercalate (first :: block), line, height⟩ :: joined, failure)
termination_by lines.length
decreasing_by
  · simp
  · have := length_of_absorb? ‹_›
    simp only [List.length_cons]; omega

/-- The logical lines of a script. -/
def ofLines (lines : List String) : Except UnterminatedArray (List LogicalLine) :=
  match joinLines 1 lines with
  | (joined, none) => .ok joined
  | (_, some failure) => .error failure

end LogicalLine

end FormulaSheet
