/-
  Which special symbols of a name are written as commands.

  The list of special symbols stands for the set of its non-empty entries: neither
  its order nor what is repeated in it shows in a formula.

  * `Style.commands`: that set.
  * `Longest commands cs symbol`: of the `commands` that start at the front of `cs`,
    none has more bytes than `symbol`.  Of two prefixes of one text the shorter is a
    prefix of the longer, so there is only one such symbol (`Longest.eq`).
  * `Scans commands cs text`: the greedy scan, which goes on behind a longest symbol
    or, where none starts, behind a single character.  It is deterministic and is what
    `writeSymbols` does (`scans_iff`).
  * `formatVariable_eq_of_commands_eq`: so two styles with the same commands write
    every name alike.
-/
import FormulaSheet.Render.Variable
import Mathlib.Data.Set.Defs

namespace FormulaSheet

/-- The names that are written as commands. -/
def Style.commands (style : Style) : Set String :=
  {symbol | symbol ∈ style.specialSymbols ∧ symbol ≠ ""}

theorem Style.mem_commands {style : Style} {symbol : String} :
    symbol ∈ style.commands ↔ symbol ∈ style.specialSymbols ∧ symbol ≠ "" :=
  Iff.rfl

namespace Render

variable {style : Style} {commands : Set String} {symbol other : String} {cs text : List Char}

/-! ## The longest symbol -/

/-- Of two prefixes of one text, the one with fewer bytes is a prefix of the other. -/
theorem utf8ByteSize_le_iff (hs : symbol.toList <+: cs) (ho : other.toList <+: cs) :
    symbol.utf8ByteSize ≤ other.utf8ByteSize ↔ symbol.toList <+: other.toList := by
  have bytes : ∀ {s t : String}, s.toList <+: t.toList →
      ∃ more : String, t = s ++ more ∧ t.utf8ByteSize = s.utf8ByteSize + more.utf8ByteSize := by
    rintro s t ⟨more, hmore⟩
    have ht : t = s ++ String.ofList more := by
      rw [← String.toList_inj, String.toList_append, String.toList_ofList, hmore]
    exact ⟨String.ofList more, ht, by rw [ht, String.utf8ByteSize_append]⟩
  constructor
  · intro hle
    rcases List.prefix_or_prefix_of_prefix hs ho with h | h
    · exact h
    · obtain ⟨more, rfl, hbytes⟩ := bytes h
      have hmore : more = "" := String.utf8ByteSize_eq_zero_iff.1 (by omega)
      exact ⟨[], by rw [hmore, String.append_empty, List.append_nil]⟩
  · intro h
    obtain ⟨more, -, hbytes⟩ := bytes h
    omega

/-- `symbol` starts at the front of `cs`, and of the `commands` that do so none has
    more bytes. -/
structure Longest (commands : Set String) (cs : List Char) (symbol : String) : Prop where
  mem : symbol ∈ commands
  starts : symbol.toList <+: cs
  longest : ∀ other ∈ commands, other.toList <+: cs → other.utf8ByteSize ≤ symbol.utf8ByteSize

theorem Longest.eq (hs : Longest commands cs symbol) (ho : Longest commands cs other) :
    symbol = other := by
  have hle := (utf8ByteSize_le_iff hs.starts ho.starts).1 (ho.longest symbol hs.mem hs.starts)
  have hge := (utf8ByteSize_le_iff ho.starts hs.starts).1 (hs.longest other ho.mem ho.starts)
  exact String.toList_inj.1 (hle.eq_of_length_le hge.length_le)

theorem longestSymbol_eq_nil_iff_commands :
    longestSymbol (style.specialSymbols.map String.toList) cs = [] ↔
      ∀ symbol ∈ style.commands, ¬ symbol.toList <+: cs := by
  rw [longestSymbol_eq_nil_iff, List.forall_mem_map]
  constructor
  · intro h symbol hmem hstarts
    exact hmem.2 (String.toList_eq_nil_iff.1 (h symbol hmem.1 hstarts))
  · intro h symbol hmem hstarts
    by_cases hempty : symbol = ""
    · exact String.toList_eq_nil_iff.2 hempty
    · exact absurd hstarts (h symbol ⟨hmem, hempty⟩)

theorem longest_of_longestSymbol_eq (hne : symbol ≠ "")
    (h : longestSymbol (style.specialSymbols.map String.toList) cs = symbol.toList) :
    Longest style.commands cs symbol := by
  obtain ⟨hfrom, hall⟩ :=
    longestSymbol_mem_and_length_le (style.specialSymbols.map String.toList) cs
  rw [h] at hfrom hall
  obtain ⟨hmem, hstarts⟩ := hfrom.resolve_left fun he => hne (String.toList_eq_nil_iff.1 he)
  obtain ⟨listed, hlisted, he⟩ := List.mem_map.1 hmem
  obtain rfl := String.toList_inj.1 he
  refine ⟨⟨hlisted, hne⟩, hstarts, fun other hother hthere => ?_⟩
  -- `longestSymbol` compares numbers of characters, which order prefixes as bytes do.
  have hle := hall other.toList (List.mem_map_of_mem hother.1) hthere
  exact (utf8ByteSize_le_iff hthere hstarts).2 (List.prefix_of_prefix_length_le hthere hstarts hle)

/-- **The symbol that is taken** is the longest command. -/
theorem longest_iff : Longest style.commands cs symbol ↔
    symbol ≠ "" ∧ longestSymbol (style.specialSymbols.map String.toList) cs = symbol.toList := by
  constructor
  · intro h
    obtain ⟨taken, htaken⟩ : ∃ taken : String,
        longestSymbol (style.specialSymbols.map String.toList) cs = taken.toList :=
      ⟨String.ofList _, String.toList_ofList.symm⟩
    have hne : taken ≠ "" := by
      rintro rfl
      exact longestSymbol_eq_nil_iff_commands.1 htaken symbol h.mem h.starts
    obtain rfl := h.eq (longest_of_longestSymbol_eq hne htaken)
    exact ⟨hne, htaken⟩
  · rintro ⟨hne, htaken⟩
    exact longest_of_longestSymbol_eq hne htaken

/-! ## The greedy scan -/

/-- `text` is `cs` with commands for the symbols that the greedy scan takes.  Which of
    several longest symbols it takes is left open. -/
inductive Scans (commands : Set String) : List Char → List Char → Prop
  | done : Scans commands [] []
  | command {cs rest text : List Char} {symbol : String} (h : Longest commands cs symbol)
      (hsplit : cs = symbol.toList ++ rest) (hrest : Scans commands rest text) :
      Scans commands cs ('\\' :: symbol.toList ++ ' ' :: text)
  | char {c : Char} {rest text : List Char}
      (h : ∀ symbol ∈ commands, ¬ symbol.toList <+: c :: rest) (hrest : Scans commands rest text) :
      Scans commands (c :: rest) (c :: text)

theorem writeSymbols_append {symbols : List (List Char)} {symbol rest : List Char}
    (hne : symbol ≠ []) (h : longestSymbol symbols (symbol ++ rest) = symbol) :
    writeSymbols symbols (symbol ++ rest) = '\\' :: symbol ++ ' ' :: writeSymbols symbols rest := by
  cases symbol with
  | nil => exact absurd rfl hne
  | cons s symbol =>
    rw [List.cons_append] at h ⊢
    rw [writeSymbols, h]
    simp only
    rw [List.drop_left]

theorem scans_writeSymbols (style : Style) (cs : List Char) :
    Scans style.commands cs (writeSymbols (style.specialSymbols.map String.toList) cs) := by
  fun_induction writeSymbols (style.specialSymbols.map String.toList) cs with
  | case1 => exact .done
  | case2 c rest hnone ih => exact .char (longestSymbol_eq_nil_iff_commands.1 hnone) ih
  | case3 c rest s symbol hsome ih =>
    obtain ⟨after, hafter⟩ : s :: symbol <+: c :: rest := hsome ▸ longestSymbol_prefix _ _
    obtain ⟨rfl, rfl⟩ : s = c ∧ symbol ++ after = rest := List.cons.inj hafter
    rw [List.drop_left] at ih ⊢
    have hlongest : Longest style.commands (s :: (symbol ++ after)) (String.ofList (s :: symbol)) :=
      longest_iff.2 ⟨by simp, by rw [hsome, String.toList_ofList]⟩
    have hscan := Scans.command hlongest (by rw [String.toList_ofList, List.cons_append]) ih
    rwa [String.toList_ofList] at hscan

/-- **The greedy scan** writes what `writeSymbols` does, and nothing else. -/
theorem scans_iff : Scans style.commands cs text ↔
    text = writeSymbols (style.specialSymbols.map String.toList) cs := by
  constructor
  · intro h
    induction h with
    | done => rw [writeSymbols]
    | command h hsplit _ ih =>
      obtain ⟨hne, htaken⟩ := longest_iff.1 h
      subst hsplit
      rw [writeSymbols_append (fun he => hne (String.toList_eq_nil_iff.1 he)) htaken, ← ih]
    | char h _ ih =>
      rw [writeSymbols, longestSymbol_eq_nil_iff_commands.2 h]
      simp only
      rw [← ih]
  · rintro rfl
    exact scans_writeSymbols style cs

/-- **Only the set of symbols matters.**  Two styles with the same commands write every
    name alike: the greedy scan has one outcome, and its subscript is what is written. -/
theorem formatVariable_eq_of_commands_eq {style style' : Style}
    (h : style.commands = style'.commands) (name : String) :
    formatVariable style name = formatVariable style' name ∧
      ∃ text, (∀ other, Scans style.commands name.toList other ↔ other = text) ∧
        formatVariable style name = String.ofList (writeSubscript text) := by
  refine ⟨?_, _, fun other => scans_iff, rfl⟩
  have hscan := scans_writeSymbols style name.toList
  rw [h, scans_iff] at hscan
  rw [formatVariable, formatVariable, hscan]

/-- Symbols that overlap, of characters with one and with two bytes; one list has them
    in another order, two of them twice, and empty entries. -/
theorem formatVariable_eq_of_commands_eq_overlapping :
    let style : Style := { specialSymbols := ["π", "pi", "ππ", "pi_a"] }
    let style' : Style := { specialSymbols := ["", "pi_a", "pi", "ππ", "", "π", "pi", "ππ"] }
    style.commands = style'.commands ∧
      formatVariable style "πππpi_alpha_1" = "\\ππ \\π \\pi_\x7ba lpha,1\x7d" ∧
      formatVariable style "πππpi_alpha_1" = formatVariable style' "πππpi_alpha_1" ∧
      ∃ text, (∀ other, Scans style.commands "πππpi_alpha_1".toList other ↔ other = text) ∧
        formatVariable style "πππpi_alpha_1" = String.ofList (writeSubscript text) := by
  intro style style'
  have h : style.commands = style'.commands := by
    ext symbol
    simp only [Style.mem_commands, style, style', List.mem_cons]
    grind
  exact ⟨h, by decide +kernel, formatVariable_eq_of_commands_eq h "πππpi_alpha_1"⟩

end Render

end FormulaSheet
