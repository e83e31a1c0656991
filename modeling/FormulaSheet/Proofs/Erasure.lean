/-
  Variables can be read back from how they are written.

  * `scanTurn`: one turn of the scan for special symbols, which moves a symbol or
    a single character from the rest of a name to what is written.  After at most
    as many turns as the name has characters nothing is left, and `writeSymbols`
    has been written (`exists_iterate_scanTurn`).
  * `erase`: a text without backslashes, blanks and braces, and with `_` for every
    comma.  Commands and subscripts put in nothing else (`erase_writeSymbols`,
    `erase_writeSubscript`).
  * `erase_formatVariable`: so erasing undoes the formatting of a plain name, and
    two plain names are never written alike.
-/
import FormulaSheet.Render.Variable
import Mathlib.Logic.Function.Iterate

namespace FormulaSheet.Render

/-! ## The scan for symbols -/

/-- One turn of the scan: what is written so far, and the rest of the name. -/
def scanTurn (symbols : List (List Char)) : List Char × List Char → List Char × List Char
  | (written, []) => (written, [])
  | (written, c :: rest) =>
    match longestSymbol symbols (c :: rest) with
    | [] => (written ++ [c], rest)
    | s :: symbol => (written ++ '\\' :: s :: symbol ++ [' '], rest.drop symbol.length)

/-- **The scan ends**: every turn takes at least one character off the rest. -/
theorem exists_iterate_scanTurn (symbols : List (List Char)) (written cs : List Char) :
    ∃ turns ≤ cs.length,
      (scanTurn symbols)^[turns] (written, cs) = (written ++ writeSymbols symbols cs, []) := by
  fun_induction writeSymbols symbols cs generalizing written with
  | case1 => exact ⟨0, Nat.le_refl 0, by rw [List.append_nil]; rfl⟩
  | case2 c rest hs ih =>
    obtain ⟨turns, hle, hturns⟩ := ih (written ++ [c])
    refine ⟨turns + 1, Nat.succ_le_succ hle, ?_⟩
    have hturn : scanTurn symbols (written, c :: rest) = (written ++ [c], rest) := by
      rw [scanTurn, hs]
    rw [Function.iterate_succ_apply, hturn, hturns, List.append_assoc, List.singleton_append]
  | case3 c rest s symbol hs ih =>
    obtain ⟨turns, hle, hturns⟩ := ih (written ++ '\\' :: s :: symbol ++ [' '])
    have hdrop : (rest.drop symbol.length).length ≤ rest.length := by
      rw [List.length_drop]
      exact Nat.sub_le _ _
    refine ⟨turns + 1, Nat.succ_le_succ (Nat.le_trans hle hdrop), ?_⟩
    have hturn : scanTurn symbols (written, c :: rest) =
        (written ++ '\\' :: s :: symbol ++ [' '], rest.drop symbol.length) := by
      rw [scanTurn, hs]
    rw [Function.iterate_succ_apply, hturn, hturns]
    simp

/-! ## Erasing -/

/-- The characters that commands and subscripts put around the parts of a name. -/
def isMarkup (c : Char) : Bool :=
  c == '\\' || c == ' ' || c == '{' || c == '}'

/-- A text without markup, and with `_` for every comma. -/
def erase (cs : List Char) : List Char :=
  (cs.filter fun c => !isMarkup c).map fun c => if c = ',' then '_' else c

/-- A name that can be told from its markup. -/
def IsPlain (name : String) : Prop :=
  ∀ c ∈ name.toList, isMarkup c = false ∧ c ≠ ','

instance (name : String) : Decidable (IsPlain name) :=
  List.decidableBAll (fun c => isMarkup c = false ∧ c ≠ ',') name.toList

theorem erase_append (cs ds : List Char) : erase (cs ++ ds) = erase cs ++ erase ds := by
  rw [erase, erase, erase, List.filter_append, List.map_append]

theorem erase_cons_of_isMarkup {c : Char} (h : isMarkup c = true) (cs : List Char) :
    erase (c :: cs) = erase cs := by
  simp [erase, h]

theorem erase_cons_of_plain {c : Char} (h : isMarkup c = false ∧ c ≠ ',') (cs : List Char) :
    erase (c :: cs) = c :: erase cs := by
  simp [erase, h.1, h.2]

theorem erase_of_plain {cs : List Char} (h : ∀ c ∈ cs, isMarkup c = false ∧ c ≠ ',') :
    erase cs = cs := by
  induction cs with
  | nil => rfl
  | cons c cs ih =>
    obtain ⟨hc, hcs⟩ := List.forall_mem_cons.1 h
    rw [erase_cons_of_plain hc, ih hcs]

/-- **Commands can be erased.**  The symbol that is taken is a part of the name, so
    none of its own characters is lost. -/
theorem erase_writeSymbols {symbols : List (List Char)} {cs : List Char}
    (h : ∀ c ∈ cs, isMarkup c = false ∧ c ≠ ',') : erase (writeSymbols symbols cs) = cs := by
  fun_induction writeSymbols symbols cs with
  | case1 => rfl
  | case2 c rest _ ih =>
    obtain ⟨hc, hrest⟩ := List.forall_mem_cons.1 h
    rw [erase_cons_of_plain hc, ih hrest]
  | case3 c rest s symbol hs ih =>
    obtain ⟨after, hafter⟩ : s :: symbol <+: c :: rest := hs ▸ longestSymbol_prefix symbols _
    obtain ⟨rfl, rfl⟩ : s = c ∧ symbol ++ after = rest := List.cons.inj hafter
    rw [List.drop_left] at ih ⊢
    have hsymbol : ∀ c ∈ s :: symbol, isMarkup c = false ∧ c ≠ ',' := fun c hc =>
      h c (List.mem_append_left after hc)
    have hrest : ∀ c ∈ after, isMarkup c = false ∧ c ≠ ',' := fun c hc =>
      h c (List.mem_append_right (s :: symbol) hc)
    rw [List.cons_append, List.cons_append, erase_cons_of_isMarkup rfl, ← List.cons_append,
      erase_append, erase_of_plain hsymbol, erase_cons_of_isMarkup rfl, ih hrest,
      List.cons_append]

/-- A comma and the `_` that it stands for are erased alike. -/
theorem erase_commas (cs : List Char) :
    erase (cs.map fun c => if c = '_' then ',' else c) = erase cs := by
  induction cs with
  | nil => rfl
  | cons c cs ih =>
    rw [List.map_cons]
    by_cases hc : c = '_'
    · subst hc
      rw [@erase_cons_of_plain '_' (by decide) cs, ← ih]
      rfl
    · rw [if_neg hc, ← List.singleton_append, erase_append, ih, ← erase_append,
        List.singleton_append]

/-- **Subscripts can be erased**, also where they cut through commands. -/
theorem erase_writeSubscript (cs : List Char) : erase (writeSubscript cs) = erase cs := by
  unfold writeSubscript
  split
  · rfl
  · rename_i first parts hdrop
    have hfirst : first = '_' := by
      have hnot : ¬ (first != '_') = true := by
        have := List.head?_dropWhile_not (· != '_') cs
        rw [hdrop] at this
        simpa using this
      simpa using hnot
    subst hfirst
    have hcs : erase cs = erase (cs.takeWhile (· != '_')) ++ '_' :: erase parts := by
      rw [← erase_cons_of_plain (by decide), ← hdrop, ← erase_append,
        List.takeWhile_append_dropWhile]
    rw [List.append_assoc, erase_append, List.cons_append, List.cons_append,
      erase_cons_of_plain (by decide), erase_cons_of_isMarkup rfl, erase_append, erase_commas,
      erase_cons_of_isMarkup rfl, hcs]
    exact congrArg (_ ++ '_' :: ·) (List.append_nil _)

/-- **Formatted variables can be read back.**  The scan for symbols ends, erasing the
    markup gives back a plain name, and two plain names are never written alike. -/
theorem erase_formatVariable (style : Style) (name : String) (h : IsPlain name) :
    (∃ turns ≤ name.length, ∃ written,
      (scanTurn (style.specialSymbols.map String.toList))^[turns] ([], name.toList) =
        (written, []) ∧ formatVariable style name = String.ofList (writeSubscript written)) ∧
    String.ofList (erase (formatVariable style name).toList) = name ∧
    ∀ other, IsPlain other → formatVariable style other = formatVariable style name →
      other = name := by
  have hback : ∀ name, IsPlain name →
      String.ofList (erase (formatVariable style name).toList) = name := by
    intro name h
    rw [formatVariable, String.toList_ofList, erase_writeSubscript, erase_writeSymbols h,
      String.ofList_toList]
  refine ⟨?_, hback name h, fun other hother he => ?_⟩
  · obtain ⟨turns, hle, hturns⟩ :=
      exists_iterate_scanTurn (style.specialSymbols.map String.toList) [] name.toList
    exact ⟨turns, by rwa [String.length_toList] at hle, _, hturns, rfl⟩
  · rw [← hback other hother, he, hback name h]

/-- Symbols that overlap, one that holds `_`, and the empty one, in a name with two
    subscripts. -/
theorem erase_formatVariable_overlapping :
    let style : Style := { specialSymbols := ["", "pi", "pi_a", "alpha", "ta"] }
    formatVariable style "betapi_alpha_1" = "be\\ta \\pi_\x7ba lpha,1\x7d" ∧
      IsPlain "betapi_alpha_1" ∧
      String.ofList (erase (formatVariable style "betapi_alpha_1").toList) = "betapi_alpha_1" ∧
      ∀ other, IsPlain other →
        formatVariable style other = formatVariable style "betapi_alpha_1" →
        other = "betapi_alpha_1" := by
  intro style
  have h : IsPlain "betapi_alpha_1" := by decide +kernel
  obtain ⟨-, hback, hother⟩ := erase_formatVariable style "betapi_alpha_1" h
  exact ⟨by decide +kernel, h, hback, hother⟩

end FormulaSheet.Render
