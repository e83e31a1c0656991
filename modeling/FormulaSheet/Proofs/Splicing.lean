/-
  Splicing the lines of scripts into a template.

  * `cases_of_mem_render`: a line of a script is the skip of a blank line or a formula
    between dollar signs.  Neither is a marker line (`isMarker_topLevel`), so none of
    the lines is (`not_isMarker_of_mem_render`).
  * `splice_split`: the template is divided before its first marker line, and what is
    spliced in comes between the two parts.
  * `splice_splice`: so lines that are spliced in after those of a script come right
    behind them, and without all of these lines the template is as it was.
-/
import FormulaSheet.Proofs.Containment
import FormulaSheet.Proofs.InPlace
import FormulaSheet.Template

namespace FormulaSheet

open Store Render Rendering

namespace Text

theorem head?_trimChars {c : Char} (h : isBlank c = false) (cs : List Char) :
    (trimChars (c :: cs)).head? = some c := by
  rw [trimChars, List.dropWhile_cons_of_neg (by simp [h]), List.reverse_cons,
    List.dropWhile_append]
  split
  · simp [h]
  · simp

end Text

namespace Template

theorem isMarker_eq_false {line : String} {c : Char} {cs : List Char}
    (hline : line.toList = c :: cs) (hblank : Text.isBlank c = false) (hc : c.toLower ≠ '%') :
    isMarker line = false := by
  rw [isMarker, beq_eq_false_iff_ne, hline]
  intro h
  have hhead := congrArg List.head? h
  rw [List.head?_map, Text.head?_trimChars hblank] at hhead
  exact hc (Option.some.inj hhead)

theorem isMarker_topLevel (style : Style) (text : String) :
    isMarker (style.topLevel text) = false := by
  have hline : (style.topLevel text).toList =
      '$' :: (text.toList ++ "$ ".toList ++ style.paragraphBreak.toList) := by
    simp [Style.topLevel]
  exact isMarker_eq_false hline (by decide) (by decide)

end Template

open Template

/-! ## The lines of a script -/

variable {script : Script} {options : RenderOptions} {texts : List String}

theorem cases_of_mem_render (hs : script.Sound) (h : script.render options = some texts)
    {line : String} (hline : line ∈ texts) :
    line = options.style.mediumSkip ∨ ∃ text, line = options.style.topLevel text := by
  have hlines := Script.render_eq_some_iff.1 h
  obtain ⟨id, hid, hwritten⟩ : ∃ id ∈ script.statements, script.line? options id = some line := by
    rw [← List.mem_map, hlines]
    exact List.mem_map_of_mem hline
  obtain ⟨log, hrun⟩ := hs.always_of_line? hid hwritten #[]
  have hgives : Gives (renderElement script options id) line := ⟨_, log, hrun⟩
  rw [renderElement_eq (hs.unowned id hid)] at hgives
  obtain ⟨text, htext, hpure⟩ := hgives.of_bind
  have hline := hpure.eq_of_pure
  by_cases hk : script.store.kind id = .blank
  · rw [if_pos hk, eq_mediumSkip_of_gives hk htext] at hline
    exact .inl hline
  · rw [if_neg hk] at hline
    exact .inr ⟨text, hline⟩

/-- **No line of a script is a marker line**, unless blank lines are written as one. -/
theorem not_isMarker_of_mem_render (hs : script.Sound) (h : script.render options = some texts)
    (hskip : isMarker options.style.mediumSkip = false) :
    ∀ line ∈ texts, isMarker line = false := by
  intro line hline
  rcases cases_of_mem_render hs h hline with rfl | ⟨text, rfl⟩
  · exact hskip
  · exact isMarker_topLevel options.style text

/-! ## Templates -/

section Splice

variable {template before after : List String} {line : String}

theorem exists_first_marker (h : ∃ line ∈ template, isMarker line = true) :
    ∃ before line after, template = before ++ line :: after ∧
      (∀ other ∈ before, isMarker other = false) ∧ isMarker line = true := by
  induction template with
  | nil =>
    obtain ⟨line, hline, -⟩ := h
    cases hline
  | cons first rest ih =>
    cases hfirst : isMarker first with
    | true => exact ⟨[], first, rest, rfl, by simp, hfirst⟩
    | false =>
      obtain ⟨line, hline, hmarker⟩ := h
      have hrest : line ∈ rest := by
        rcases List.mem_cons.1 hline with rfl | hrest
        · rw [hfirst] at hmarker
          cases hmarker
        · exact hrest
      obtain ⟨before, line, after, rfl, hbefore, hmarker⟩ := ih ⟨line, hrest, hmarker⟩
      exact ⟨first :: before, line, after, rfl, List.forall_mem_cons.2 ⟨hfirst, hbefore⟩, hmarker⟩

theorem splice_split (hbefore : ∀ other ∈ before, isMarker other = false)
    (hline : isMarker line = true) (inserted : List String) :
    splice (before ++ line :: after) inserted = .ok (before ++ inserted ++ line :: after) := by
  have hall : ∀ other ∈ before, (!isMarker other) = true := fun other hother => by
    rw [hbefore other hother]
    rfl
  rw [splice, List.dropWhile_append_of_pos hall, List.takeWhile_append_of_pos hall,
    List.dropWhile_cons_of_neg (by simp [hline]), List.takeWhile_cons_of_neg (by simp [hline]),
    List.append_nil]

theorem findIdx_split (hbefore : ∀ other ∈ before, isMarker other = false)
    (hline : isMarker line = true) :
    (before ++ line :: after).findIdx isMarker = before.length := by
  rw [List.findIdx_append, List.findIdx_eq_length_of_false hbefore, if_neg (Nat.lt_irrefl _),
    List.findIdx_cons, hline]
  simp

end Splice

/-- **Splicing twice is splicing both together.**  If the lines of a script are spliced into
    a template with a marker line, and then any others, the lines of the script and the
    others come one after another at the position of the first marker line of the
    template, and the template stands around them. -/
theorem splice_splice {template : List String} (hmarker : ∃ line ∈ template, isMarker line = true)
    {v : Vocabulary} {lines : List String} {script : Script}
    (hparse : Script.parse v lines = .ok script) (inlining : Bool) {first : List String}
    (hrender : script.render { inlining } = some first) (second : List String) :
    ∃ once both, splice template first = .ok once ∧ splice once second = .ok both ∧
      splice template (first ++ second) = .ok both ∧
      both.take (template.findIdx isMarker) ++
        both.drop (template.findIdx isMarker + (first ++ second).length) = template ∧
      (both.drop (template.findIdx isMarker)).take (first ++ second).length = first ++ second := by
  obtain ⟨before, line, after, rfl, hbefore, hline⟩ := exists_first_marker hmarker
  have hskip : isMarker "\\medskip" = false := by decide
  have hfirst := not_isMarker_of_mem_render (Script.parse_sound hparse) hrender hskip
  have honce : ∀ other ∈ before ++ first, isMarker other = false := fun other hother =>
    (List.mem_append.1 hother).elim (hbefore other) (hfirst other)
  refine ⟨_, _, splice_split hbefore hline first, splice_split honce hline second, ?_, ?_, ?_⟩
  · rw [splice_split hbefore hline, List.append_assoc before first second]
  · rw [findIdx_split hbefore hline, List.append_assoc before first second,
      ← List.length_append, List.drop_left, List.append_assoc before, List.take_left]
  · rw [findIdx_split hbefore hline, List.append_assoc before first second,
      List.append_assoc before, List.drop_left, List.take_left]

/-- A line of a script that names the marker is written between dollar signs, and only the
    first of two marker lines counts. -/
theorem splice_splice_labelled :
    ∃ once, splice ["a", " %LabToTextStart ", "%labtotextstart"]
        ["$labtotextstart$ \\par", "\\medskip"] = .ok once ∧
      splice once ["$x = 1$ \\par"] = .ok ["a", "$labtotextstart$ \\par", "\\medskip",
        "$x = 1$ \\par", " %LabToTextStart ", "%labtotextstart"] := by
  have hfacts : ∃ script ∈ (Script.parse {} ["labtotextstart", "%labtotextstart"]).toOption,
      script.render { inlining := true } = some ["$labtotextstart$ \\par", "\\medskip"] := by
    decide +kernel
  obtain ⟨script, hscript, hrender⟩ := hfacts
  have hmarker : ∃ line ∈ ["a", " %LabToTextStart ", "%labtotextstart"], isMarker line = true := by
    decide
  obtain ⟨once, both, honce, hboth, htogether, -⟩ := splice_splice hmarker
    (Script.parse_of_mem hscript) true hrender ["$x = 1$ \\par"]
  have hresult : splice ["a", " %LabToTextStart ", "%labtotextstart"]
      (["$labtotextstart$ \\par", "\\medskip"] ++ ["$x = 1$ \\par"]) =
      .ok ["a", "$labtotextstart$ \\par", "\\medskip", "$x = 1$ \\par", " %LabToTextStart ",
        "%labtotextstart"] := by
    decide +kernel
  refine ⟨once, honce, ?_⟩
  rw [hboth, ← htogether, hresult]

end FormulaSheet
