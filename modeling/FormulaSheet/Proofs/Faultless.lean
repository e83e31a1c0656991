/-
  Scripts that have been read are written without faults.

  A fault stands for a mistake of the reader: an operator without operand, a
  function without body, a call of something else, a function that is not
  declared.  Whatever the scope, only elements of statements are written
  (`Script.Reaches`), and those are well-formed.

  * `not_fails_renderWithin` covers the scopes of inlining.  Without inlining
    the scope stays empty (`scope_eq_nil_of_mem_plan`), and
    `not_fails_without_inlining` is the same for that case.
  * `renders_of_parse`: every statement is written, and every line of a script is
    the line of its statement.
-/
import FormulaSheet.Proofs.Relocation

namespace FormulaSheet

open Render Rendering

variable {script : Script} {options : RenderOptions} {id : ElementId}

/-- Without inlining nothing is ever bound. -/
theorem scope_eq_nil_of_mem_plan {parent : Option ElementId} {row : List Request} {r : Request}
    (hrow : row ∈ (plan script { options with inlining := false } id parent []).rows)
    (hr : r ∈ row) : r.scope = [] := by
  have child : ∀ {ids : List ElementId}, (r.id, r.scope) ∈ ids.map (·, []) → r.scope = [] := by
    intro ids h
    obtain ⟨x, -, he⟩ := List.mem_map.1 h
    exact (Prod.mk.inj he).2.symm
  have hmem := mem_requests hrow hr
  unfold requests at hmem
  generalize script.store.kind id = kind at hmem
  cases kind with
  | name name => cases hmem
  | call function arguments =>
    simp only [Bool.not_false, Bool.true_or, if_true] at hmem
    split at hmem
    · exact child hmem
    · cases hmem
  | error fault ids => cases hmem
  | _ => exact child hmem

/-- **Writing without inlining does not stop with a fault.** -/
theorem not_fails_without_inlining (hs : script.Sound) (hoff : options.inlining = false) {n : Nat}
    (hr : script.Reaches id) (parent : Option ElementId) :
    ¬ Fails (renderWithin script options n id parent []) := by
  have hoptions : { options with inlining := false } = options := by rw [← hoff]
  induction n generalizing id parent with
  | zero =>
    rintro ⟨log, fault, log', ⟨⟩⟩
  | succ n ih =>
    rw [renderWithin, renderNode_eq]
    intro h
    rcases Plan.fails_run h with ⟨row, hrow, r, hm, hf⟩ | ⟨rows, hgives, hf⟩
    · rw [← hoptions] at hrow
      rw [scope_eq_nil_of_mem_plan hrow hm] at hf
      exact ih (reaches_of_mem_plan hr hrow hm) r.parent hf
    · rw [← hoptions] at hgives hf
      obtain ⟨text, hok⟩ := exists_finish_eq_ok hs hr hgives
      exact hf text hok

namespace Script

theorem Sound.not_fails (hs : script.Sound) (hid : id ∈ script.statements)
    (options : RenderOptions) : ¬ Fails (renderElement script options id) := by
  have hr : script.Reaches id := ⟨id, hid, .root⟩
  have hv : ValidStack script [] := fun call hcall => by cases hcall
  rw [renderElement_eq (hs.unowned id hid)]
  intro h
  rcases h.of_bind with h | ⟨text, -, h⟩
  · cases hon : options.inlining with
    | true => exact not_fails_renderWithin hs hon hr hv none h
    | false => exact not_fails_without_inlining hs hon hr none h
  · exact not_fails_pure _ h

theorem Sound.exists_eq_ok (hs : script.Sound) (hid : id ∈ script.statements) {log log' : Log}
    {r : Except RenderFault String}
    (h : runFrom (renderElement script options id) log = some (r, log')) :
    ∃ text, r = .ok text := by
  cases r with
  | ok text => exact ⟨text, rfl⟩
  | error fault => exact absurd ⟨log, fault, log', h⟩ (hs.not_fails hid options)

theorem Sound.always_of_line? (hs : script.Sound) (hid : id ∈ script.statements) {text : String}
    (h : script.line? options id = some text) : Always (renderElement script options id) text := by
  intro log
  obtain ⟨⟨r, log₀⟩, hrun, htext⟩ := Option.map_eq_some_iff.1 h
  obtain ⟨text', rfl⟩ := hs.exists_eq_ok hid hrun
  obtain rfl : text' = text := htext
  have hagree : Agree (renderElement script options id) (renderElement script options id) :=
    agree_renderElement id
  have hagree := hagree #[] log
  rw [hrun] at hagree
  obtain ⟨⟨r, log'⟩, hrun', hr⟩ := Option.map_eq_some_iff.1 hagree.symm
  obtain rfl : r = .ok text' := hr
  exact ⟨log', hrun'⟩

end Script

/-- **A script that has been read is written without faults**, with inlining or
    without: a statement whose rendering ends has a text, and a script whose
    rendering ends is written as the texts of its statements. -/
theorem renders_of_parse {v : Vocabulary} {lines : List String} {script : Script}
    (h : Script.parse v lines = .ok script) (options : RenderOptions) :
    (∀ id ∈ script.statements, ∀ log r log',
      runFrom (renderElement script options id) log = some (r, log') → ∃ text, r = .ok text) ∧
    ∀ texts, script.render options = some texts →
      List.Forall₂ (fun id text => Always (renderElement script options id) text)
        script.statements texts := by
  have hs := Script.parse_sound h
  refine ⟨fun id hid log r log' hrun => hs.exists_eq_ok hid hrun, fun texts hrender => ?_⟩
  have hlines := Script.render_eq_some_iff.1 hrender
  rw [← List.forall₂_eq_eq_eq, List.forall₂_map_left_iff, List.forall₂_map_right_iff] at hlines
  have hmem := (List.forall₂_and_left script.statements texts).2 ⟨fun _ hid => hid, hlines⟩
  exact hmem.imp fun id text h => hs.always_of_line? h.1 h.2

/-- A function that calls itself, an operator without operand, an array with an
    access and a call of nothing. -/
theorem renders_of_parse_lines :
    ∃ script, Script.parse {} ["f = @(x) x + f(x)", "y = 2 * f(3)", "z = 2 *", "M = [1, -y; z]",
        "w = M(1) + g(M)", ""] = .ok script ∧
      (∀ id ∈ script.statements, ∀ log r log',
        runFrom (renderElement script { inlining := false } id) log = some (r, log') →
          ∃ text, r = .ok text) ∧
      List.Forall₂ (fun id text => Always (renderElement script {} id) text) script.statements
        ["$f = @(x) x + (x + f(x))$ \\par", "$y = 2 \\cdot (3 + f(3))$ \\par",
          "$z = 2 * -- operator '*' is missing an operand$ \\par",
          "$M = \\begin\x7bbmatrix\x7d1&-y\\\\z\\end\x7bbmatrix\x7d$ \\par",
          "$w = M(1) + g(M)$ \\par", "\\medskip"] := by
  have hfacts : ∃ script ∈ (Script.parse {} ["f = @(x) x + f(x)", "y = 2 * f(3)", "z = 2 *",
      "M = [1, -y; z]", "w = M(1) + g(M)", ""]).toOption, script.render {} =
      some ["$f = @(x) x + (x + f(x))$ \\par", "$y = 2 \\cdot (3 + f(3))$ \\par",
        "$z = 2 * -- operator '*' is missing an operand$ \\par",
        "$M = \\begin\x7bbmatrix\x7d1&-y\\\\z\\end\x7bbmatrix\x7d$ \\par",
        "$w = M(1) + g(M)$ \\par", "\\medskip"] := by
    decide +kernel
  obtain ⟨script, hscript, hrender⟩ := hfacts
  have hparse := Script.parse_of_mem hscript
  exact ⟨script, hparse, (renders_of_parse hparse { inlining := false }).1,
    (renders_of_parse hparse {}).2 _ hrender⟩

end FormulaSheet
