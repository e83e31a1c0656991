/-
  Variables in formulas.

  * `writeSymbols` writes every special symbol in a name as a command.  At each
    position the longest listed symbol that starts there is taken
    (`longestSymbol`).
  * `writeSubscript` turns what follows the first `_` into a subscript whose
    parts are divided by commas.
  * `formatVariable` does the first, then the second.
-/
import FormulaSheet.Style

namespace FormulaSheet.Render

/-- The longest of the `symbols` that starts at the front of `cs`; empty if
    none does. -/
def longestSymbol (symbols : List (List Char)) (cs : List Char) : List Char :=
  symbols.foldl
    (fun best symbol =>
      if symbol.isPrefixOf cs && decide (best.length < symbol.length) then symbol else best) []

/-- Only a symbol that is there is taken, and no other one that is there is longer. -/
theorem longestSymbol_mem_and_length_le (symbols : List (List Char)) (cs : List Char) :
    (longestSymbol symbols cs = [] ∨
      longestSymbol symbols cs ∈ symbols ∧ longestSymbol symbols cs <+: cs) ∧
    ∀ symbol ∈ symbols, symbol <+: cs → symbol.length ≤ (longestSymbol symbols cs).length := by
  -- The best symbol so far only gets longer, and it is replaced by a symbol that is there.
  have fold : ∀ best : List Char, ∃ last, symbols.foldl (fun best symbol =>
      if symbol.isPrefixOf cs && decide (best.length < symbol.length) then symbol else best)
      best = last ∧ (last = best ∨ last ∈ symbols ∧ last <+: cs) ∧ best.length ≤ last.length ∧
      ∀ symbol ∈ symbols, symbol <+: cs → symbol.length ≤ last.length := by
    induction symbols with
    | nil => exact fun best => ⟨best, rfl, .inl rfl, Nat.le_refl _, by simp⟩
    | cons symbol symbols ih =>
      intro best
      rw [List.foldl_cons]
      split
      · rename_i hs
        simp only [Bool.and_eq_true, List.isPrefixOf_iff_prefix, decide_eq_true_eq] at hs
        obtain ⟨last, hlast, hfrom, hle, hall⟩ := ih symbol
        refine ⟨last, hlast, .inr ?_, by omega, List.forall_mem_cons.2 ⟨fun _ => hle, hall⟩⟩
        rcases hfrom with rfl | ⟨hmem, hthere⟩
        · exact ⟨List.mem_cons_self, hs.1⟩
        · exact ⟨List.mem_cons_of_mem symbol hmem, hthere⟩
      · rename_i hs
        simp only [Bool.and_eq_true, List.isPrefixOf_iff_prefix, decide_eq_true_eq, not_and,
          Nat.not_lt] at hs
        obtain ⟨last, hlast, hfrom, hle, hall⟩ := ih best
        refine ⟨last, hlast, hfrom.imp_right fun h => ⟨List.mem_cons_of_mem symbol h.1, h.2⟩, hle,
          List.forall_mem_cons.2 ⟨fun hthere => Nat.le_trans (hs hthere) hle, hall⟩⟩
  obtain ⟨last, hlast, hfrom, -, hall⟩ := fold []
  rw [longestSymbol, hlast]
  exact ⟨hfrom, hall⟩

/-- The symbol that is taken is there. -/
theorem longestSymbol_prefix (symbols : List (List Char)) (cs : List Char) :
    longestSymbol symbols cs <+: cs := by
  rcases (longestSymbol_mem_and_length_le symbols cs).1 with hnone | ⟨-, hthere⟩
  · rw [hnone]
    exact List.nil_prefix
  · exact hthere

theorem longestSymbol_eq_nil_iff {symbols : List (List Char)} {cs : List Char} :
    longestSymbol symbols cs = [] ↔ ∀ symbol ∈ symbols, symbol <+: cs → symbol = [] := by
  obtain ⟨hfrom, hall⟩ := longestSymbol_mem_and_length_le symbols cs
  constructor
  · intro hnone symbol hmem hthere
    have hle := hall symbol hmem hthere
    rw [hnone] at hle
    exact List.eq_nil_of_length_eq_zero (Nat.le_zero.1 hle)
  · intro hnone
    rcases hfrom with hnil | ⟨hmem, hthere⟩
    · exact hnil
    · exact hnone _ hmem hthere

/-- A name with its special symbols as commands. -/
def writeSymbols (symbols : List (List Char)) (cs : List Char) : List Char :=
  match cs with
  | [] => []
  | c :: rest =>
    match longestSymbol symbols (c :: rest) with
    | [] => c :: writeSymbols symbols rest
    | s :: symbol => '\\' :: s :: symbol ++ ' ' :: writeSymbols symbols (rest.drop symbol.length)
termination_by cs.length
decreasing_by
  · simp
  · simp only [List.length_drop, List.length_cons]; omega

/-- A name with everything after its first `_` as a subscript. -/
def writeSubscript (cs : List Char) : List Char :=
  match cs.dropWhile (· != '_') with
  | [] => cs
  | _ :: parts =>
    cs.takeWhile (· != '_') ++ '_' :: '{' ::
      parts.map (fun c => if c = '_' then ',' else c) ++ ['}']

/-- A variable as it is written in a formula. -/
def formatVariable (style : Style) (name : String) : String :=
  String.ofList
    (writeSubscript (writeSymbols (style.specialSymbols.map String.toList) name.toList))

end FormulaSheet.Render
