/-
  Groups: what stands between delimiters in a term.

  * `splitClosing?` finds the delimiter that closes a group.  Only delimiters
    of the same group count, so brackets are just elements to a parenthesis.
  * `segments` cuts a term into single elements and groups; a delimiter
    without partner ends the list.
  * `splitArguments` cuts the inside of a call at the commas that no delimiter
    encloses.
-/
import FormulaSheet.Store

namespace FormulaSheet.Term

variable (s : Store)

/-- What stands before the delimiter that closes a group, and what stands after
    it; `depth` counts the groups of the same kind that are open inside. -/
def splitClosing? (group : Group) :
    (depth : Nat) → List ElementId → Option (List ElementId × List ElementId)
  | _, [] => none
  | depth, id :: rest =>
    match s.kind id with
    | .delimiter g side =>
      if g = group then
        match side, depth with
        | .opening, depth =>
          (splitClosing? group (depth + 1) rest).map fun (inner, after) => (id :: inner, after)
        | .closing, 0 => some ([], rest)
        | .closing, depth + 1 =>
          (splitClosing? group depth rest).map fun (inner, after) => (id :: inner, after)
      else (splitClosing? group depth rest).map fun (inner, after) => (id :: inner, after)
    | _ => (splitClosing? group depth rest).map fun (inner, after) => (id :: inner, after)

/-- The closing delimiter lies between the two parts. -/
theorem length_of_splitClosing? {group : Group} {depth : Nat}
    {ids inner after : List ElementId} (h : splitClosing? s group depth ids = some (inner, after)) :
    ids.length = inner.length + after.length + 1 := by
  induction ids generalizing depth inner after with
  | nil => simp [splitClosing?] at h
  | cons id rest ih =>
    have step : ∀ {depth : Nat}, (splitClosing? s group depth rest).map
        (fun p => (id :: p.1, p.2)) = some (inner, after) →
        (id :: rest).length = inner.length + after.length + 1 := by
      intro depth h
      obtain ⟨⟨i, a⟩, hi, he⟩ := Option.map_eq_some_iff.1 h
      simp only [Prod.mk.injEq] at he
      obtain ⟨rfl, rfl⟩ := he
      have := ih hi
      simp only [List.length_cons]
      omega
    simp only [splitClosing?] at h
    split at h
    · split at h
      · split at h
        · exact step h
        · simp only [Option.some.injEq, Prod.mk.injEq] at h
          obtain ⟨rfl, rfl⟩ := h
          simp
        · exact step h
      · exact step h
    · exact step h

/-- A part of a term. -/
inductive Segment where
  | single (id : ElementId)
  /-- A group, without its delimiters. -/
  | group (group : Group) (inner : List ElementId)
  /-- A delimiter without partner. -/
  | unmatched (group : Group)
  deriving DecidableEq, Repr, Inhabited

/-- The parts of a term, up to the first delimiter without partner. -/
def segments (term : List ElementId) : List Segment :=
  match term with
  | [] => []
  | id :: rest =>
    match s.kind id with
    | .delimiter group .closing => [.unmatched group]
    | .delimiter group .opening =>
      match _h : splitClosing? s group 0 rest with
      | none => [.unmatched group]
      | some (inner, after) => .group group inner :: segments after
    | _ => .single id :: segments rest
termination_by term.length
decreasing_by
  · have := length_of_splitClosing? s ‹_›
    simp only [List.length_cons]; omega
  · simp

/-- The pieces between the commas at `depth` 0; a closing delimiter that closes
    nothing leaves the depth at 0. -/
def splitArguments : (depth : Nat) → List ElementId → List (List ElementId)
  | _, [] => [[]]
  | depth, id :: rest =>
    match s.kind id with
    | .delimiter _ .opening => (splitArguments (depth + 1) rest).modifyHead (id :: ·)
    | .delimiter _ .closing => (splitArguments (depth - 1) rest).modifyHead (id :: ·)
    | .comma =>
      if depth = 0 then [] :: splitArguments 0 rest
      else (splitArguments depth rest).modifyHead (id :: ·)
    | _ => (splitArguments depth rest).modifyHead (id :: ·)

/-- The arguments between the parentheses of a call; nothing at all is no
    argument. -/
def arguments (inner : List ElementId) : List (List ElementId) :=
  if inner.isEmpty then [] else splitArguments s 0 inner

end FormulaSheet.Term
