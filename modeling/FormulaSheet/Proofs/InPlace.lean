/-
  An element is written in its statement as it is written alone.

  Alone, the parent of an element is its owner; in a statement the parent is
  handed down by the element above.  Both decide about parentheses.

  * `renderPutting target text` is rendering with `text` in the place of
    `target`.  Where `target` is not visible it changes nothing
    (`renderPutting_eq`).
  * `WritesFor script options statement id text`: in the line of `statement`,
    `text` is what stands for `id`.
  * `exists_in_place` follows an element through the elements above it; siblings
    do not share elements (`Forest.eq_of_below`), so only one of them changes.
  * `renderElement_in_place`: what stands for an element is what it is written
    as alone.
-/
import FormulaSheet.Proofs.Carrying
import FormulaSheet.Proofs.Faultless
import FormulaSheet.Proofs.Guard
import FormulaSheet.Proofs.OwnerLinks

namespace FormulaSheet

/-! ## Siblings -/

namespace Store

variable {s : Store} {roots all : List ElementId}

/-- What is below an element of a forest stands together in it. -/
theorem Forest.exists_sublist (h : Forest s roots all) {id : ElementId} (hid : id ∈ all) :
    ∃ below, Forest s (s.kind id).children below ∧ below.Sublist all := by
  induction h with
  | nil => cases hid
  | @cons root roots below rest hb _ ihb ihr =>
    rcases List.mem_cons.1 hid with rfl | hid
    · exact ⟨below, hb, (List.sublist_append_left below rest).cons id⟩
    · rcases List.mem_append.1 hid with hid | hid
      · obtain ⟨b, hf, hsub⟩ := ihb hid
        exact ⟨b, hf, (hsub.trans (List.sublist_append_left below rest)).cons root⟩
      · obtain ⟨b, hf, hsub⟩ := ihr hid
        exact ⟨b, hf, (hsub.trans (List.sublist_append_right below rest)).cons root⟩

theorem Forest.eq_of_below (h : Forest s roots all) (hn : all.Nodup) {root root' id : ElementId}
    (hr : root ∈ roots) (hr' : root' ∈ roots) (hb : Below s root id) (hb' : Below s root' id) :
    root = root' := by
  induction h with
  | nil => cases hr
  | @cons first roots below rest hbelow hrest _ ih =>
    have htree : Forest s [first] (first :: below) := .singleton hbelow
    -- The tree of the first root and the other trees stand apart.
    have apart : ∀ {other}, other ∈ roots → Below s first id → ¬ Below s other id := by
      intro other ho hfirst hother
      have hin := htree.mem_of_below List.mem_cons_self hfirst
      have hout := hrest.mem_of_below (hrest.subset ho) hother
      rw [← List.cons_append] at hn
      exact (List.nodup_append.1 hn).2.2 id hin id hout rfl
    rcases List.mem_cons.1 hr with hfirst | hr <;> rcases List.mem_cons.1 hr' with hfirst' | hr'
    · rw [hfirst, hfirst']
    · exact absurd hb' (apart hr' (hfirst ▸ hb))
    · exact absurd hb (apart hr (hfirst' ▸ hb'))
    · exact ih (List.nodup_append.1 (List.nodup_cons.1 hn).2).2.1 hr hr'

end Store

open Store Render Rendering

theorem Script.Linked.eq_of_children {script : Script} {all : List ElementId}
    (h : script.Linked all) {id child child' x : ElementId} (hid : id ∈ all)
    (hc : child ∈ (script.store.kind id).children) (hc' : child' ∈ (script.store.kind id).children)
    (hb : Below script.store child x) (hb' : Below script.store child' x) : child = child' := by
  obtain ⟨below, hf, hsub⟩ := h.forest.exists_sublist hid
  exact hf.eq_of_below (hsub.nodup h.nodup) hc hc' hb hb'

/-! ## Putting a text in the place of an element -/

variable {script : Script} {options : RenderOptions} {id : ElementId} {parent : Option ElementId}

/-- Rendering with a bounded depth, with `text` in the place of `target`. -/
def renderPutting (script : Script) (options : RenderOptions) (target : ElementId)
    (text : String) : (depth : Nat) → Renderer
  | 0 => fun _ _ _ => endless
  | depth + 1 => fun id parent scope =>
    if id = target then return text
    else renderNode script options (renderPutting script options target text depth) id parent scope

theorem renderPutting_target (script : Script) (options : RenderOptions) (id : ElementId)
    (text : String) (n : Nat) (parent : Option ElementId) (scope : Scope) :
    renderPutting script options id text (n + 1) id parent scope = return text :=
  if_pos rfl

theorem renderPutting_of_ne {target : ElementId} (h : id ≠ target) (text : String) (n : Nat)
    (parent : Option ElementId) (scope : Scope) :
    renderPutting script options target text (n + 1) id parent scope =
      (plan script options id parent scope).run (renderPutting script options target text n) := by
  rw [← renderNode_eq]
  exact if_neg h

/-- In the line of `statement`, `text` is what stands for `id`: whatever is put
    there, the rest of the line stays the same, and with `text` it is the line. -/
def WritesFor (script : Script) (options : RenderOptions) (statement id : ElementId)
    (text : String) : Prop :=
  ∃ before after,
    (∀ other, Always (renderPutting script options id other (depthBound script.store) statement
      (script.store.get statement).owner []) (before ++ other ++ after)) ∧
    Always (renderElement script options statement)
      (options.style.topLevel (before ++ text ++ after))

variable {all : List ElementId} {statement target : ElementId}

theorem ne_error_of_isCompound {kind : Kind} (h : kind.isCompound = true) (fault : Fault)
    (ids : List ElementId) : kind ≠ .error fault ids := by
  rintro rfl
  cases h

theorem isCompound_of_mem_children {kind : Kind} (he : ∀ fault ids, kind ≠ .error fault ids)
    {child : ElementId} (hc : child ∈ kind.children) : kind.isCompound = true := by
  cases kind with
  | operator | array | access | function | call | declaration => rfl
  | error fault ids => exact absurd rfl (he fault ids)
  | _ => cases hc

theorem visible_of_child {s : Store} {child : ElementId} (hcomp : (s.kind id).isCompound = true)
    (hc : child ∈ (s.kind id).children) (h : Visible s child target) : Visible s id target := by
  induction h with
  | root => exact Visible.root.child (ne_error_of_isCompound hcomp) hc
  | child _ he' hc' ih => exact ih.child he' hc'

/-- A blank line holds nothing else. -/
theorem Store.Visible.root_ne_blank {s : Store} {root : ElementId} (h : Visible s root id)
    (hid : s.kind id = .blank → id ≠ root) : s.kind root ≠ .blank := by
  intro hk
  obtain rfl | ⟨-, child, hchild, -⟩ := h.of_root
  · exact hid hk rfl
  · rw [hk] at hchild
    cases hchild

/-- What a plan asks for without inlining. -/
theorem eq_of_mem_plan (hoff : options.inlining = false) {row : List Request} {r : Request}
    (hrow : row ∈ (plan script options id parent []).rows) (hr : r ∈ row) :
    (script.store.kind id).isCompound = true ∧
      ∃ child ∈ (script.store.kind id).children, r = ⟨child, some id, []⟩ := by
  have hparent := parent_of_mem_plan hoff hrow hr
  have hoptions : { options with inlining := false } = options := by rw [← hoff]
  rw [← hoptions] at hrow
  obtain ⟨hcomp, hchild⟩ := mem_children_of_mem_plan hrow hr
  refine ⟨hcomp, r.id, hchild, ?_⟩
  rw [← hparent, ← scope_eq_nil_of_mem_plan hrow hr]

/-- Where the target is not visible, nothing is put. -/
theorem renderPutting_eq (hoff : options.inlining = false) {text : String} {n : Nat}
    (hv : ¬ Visible script.store id target) (parent : Option ElementId) :
    renderPutting script options target text n id parent [] =
      renderWithin script options n id parent [] := by
  induction n generalizing id parent with
  | zero => rfl
  | succ n ih =>
    have hne : id ≠ target := by
      rintro rfl
      exact hv .root
    rw [renderPutting_of_ne hne, renderWithin, renderNode_eq]
    refine Plan.run_congr fun row hrow r hr => ?_
    obtain ⟨hcomp, child, hchild, rfl⟩ := eq_of_mem_plan hoff hrow hr
    exact ih (fun hsee => hv (visible_of_child hcomp hchild hsee)) (some id)

/-- An element is written once among the texts above it, and with the owner as
    its parent.  The induction is on the depth; at each element one child leads
    to the target, and the others are written as before. -/
theorem exists_in_place (hs : script.Sound) (hl : script.Linked all)
    (hoff : options.inlining = false) {n : Nat} (hid : id ∈ all) (hr : script.Reaches id)
    (hv : Visible script.store id target) {whole : String}
    (h : Always (renderWithin script options n id (script.store.get id).owner []) whole) :
    ∃ before text after, whole = before ++ text ++ after ∧
      Always (renderWithin script options n target (script.store.get target).owner []) text ∧
      ∀ other, Always (renderPutting script options target other n id
        (script.store.get id).owner []) (before ++ other ++ after) := by
  have hoptions : { options with inlining := false } = options := by rw [← hoff]
  induction n generalizing id whole with
  | zero =>
    obtain ⟨log, ⟨⟩⟩ := h #[]
  | succ n ih =>
    by_cases he : id = target
    · subst he
      refine ⟨"", whole, "", by simp, h, fun other => ?_⟩
      rw [renderPutting_target, String.empty_append, String.append_empty]
      exact always_pure other
    obtain rfl | ⟨herror, child, hchild, hsee⟩ := hv.of_root
    · exact absurd rfl he
    have hcomp := isCompound_of_mem_children herror hchild
    have howner : (script.store.get child).owner = some id := hl.links id hid child hchild
    have hmem : child ∈ all := hl.forest.mem_of_below hid (Below.root.child hchild)
    rw [renderWithin, renderNode_eq] at h
    obtain ⟨rows, hrows, hwhole⟩ := Plan.gives_run ⟨#[], h #[]⟩
    obtain ⟨row, hrow, hask⟩ :=
      exists_mem_plan hs hr hcomp hchild options (script.store.get id).owner
    rw [hoptions] at hrow
    have hnodup := nodup_plan hoff (hl.forest.nodup_children hl.nodup hid)
      (script.store.get id).owner
    obtain ⟨gap, text, rfl, hgives, hput⟩ := exists_gap (forall₂_mem_rows hrows) hnodup hrow hask
    have htext : Always (renderWithin script options n child (script.store.get child).owner [])
        text := by
      rw [howner]
      exact always_of_gives hgives.2
    obtain ⟨before, inner, after, rfl, halone, hinner⟩ := ih hmem (hr.child hcomp hchild) hsee htext
    have hshape : List.Forall₂ (List.Forall₂ fun _ _ => True)
        (plan script options id (script.store.get id).owner []).rows (gap.put "") :=
      hput _ "" trivial fun _ _ _ _ => trivial
    obtain ⟨f, ⟨first, last, hf⟩, hfinish⟩ := carries_finish hs hoff hr hshape
    have hcarries : ∀ other, f (before ++ other ++ after) =
        (first ++ before) ++ other ++ (after ++ last) := fun other => by
      simp only [hf, String.append_assoc]
    refine ⟨first ++ before, inner, after ++ last, ?_, ?_, fun other => ?_⟩
    · rw [hfinish, hcarries] at hwhole
      exact (Except.ok.inj hwhole).symm
    · exact halone.refines (refines_renderWithin (Nat.le_succ n) _ _ _)
    · rw [renderPutting_of_ne he]
      refine Plan.always_run (hput _ (before ++ other ++ after) ?_ ?_) (by rw [hfinish, hcarries])
      · rw [howner] at hinner
        exact hinner other
      · rintro r t hne ⟨⟨row', hrow', hr'⟩, ht⟩
        obtain ⟨hcomp, child', hchild', rfl⟩ := eq_of_mem_plan hoff hrow' hr'
        have hnot : ¬ Visible script.store child' target := by
          intro hsee'
          have heq := hl.eq_of_children hid hchild' hchild (below_of_visible hsee')
            (below_of_visible hsee)
          exact hne (by rw [heq])
        rw [renderPutting_eq hoff hnot]
        exact always_of_gives ht

/-! ## The line of a statement -/

theorem Render.Rendering.Always.eq {α : Type} {x : Rendering α} {a b : α} (h : Always x a)
    (h' : Always x b) : a = b := by
  obtain ⟨log, hrun⟩ := h #[]
  obtain ⟨log', hrun'⟩ := h' #[]
  rw [hrun] at hrun'
  cases hrun'
  rfl

theorem Style.topLevel_inj {style : Style} {text text' : String} :
    style.topLevel text = style.topLevel text' ↔ text = text' := by
  simp [Style.topLevel]

theorem exists_always (hs : script.Sound) (hoff : options.inlining = false)
    (hid : statement ∈ script.statements) :
    ∃ text, Always (renderWithin script options (depthBound script.store) statement none [])
      text := by
  obtain ⟨n, hn⟩ := terminates_of_mem_statements hs (Or.inl hoff) hid
  obtain ⟨⟨r, log⟩, hrun⟩ := ends_renderWithin (endsWithin_depthBound (chain_nil _) hn) none #[]
  cases r with
  | ok text => exact ⟨text, always_of_gives ⟨#[], log, hrun⟩⟩
  | error fault =>
    exact absurd ⟨#[], fault, log, hrun⟩
      (not_fails_without_inlining hs hoff ⟨statement, hid, .root⟩ none)

theorem renderElement_of_owner {owner : ElementId}
    (h : (script.store.get id).owner = some owner) : renderElement script options id =
      renderWithin script options (depthBound script.store) id (some owner) [] := by
  unfold renderElement
  simp only [h, bind_pure]

theorem WritesFor.eq {text text' : String} (h : WritesFor script options statement target text)
    (h' : WritesFor script options statement target text') : text = text' := by
  obtain ⟨before, after, hput, hline⟩ := h
  obtain ⟨before', after', hput', hline'⟩ := h'
  have hsame : before ++ text ++ after = before ++ text' ++ after := calc
    before ++ text ++ after = before' ++ text' ++ after' :=
      Style.topLevel_inj.1 (hline.eq hline')
    _ = before ++ text' ++ after := (hput' text').eq (hput text')
  rwa [String.append_left_inj, String.append_right_inj] at hsame

/-- For every element of a statement a text stands, the one it is written as
    inside its owner. -/
theorem exists_writesFor (hs : script.Sound) (hl : script.Linked all)
    (hoff : options.inlining = false) (hid : statement ∈ script.statements)
    (hblank : script.store.kind statement ≠ .blank)
    (hv : Visible script.store statement target) :
    ∃ text, Always (renderWithin script options (depthBound script.store) target
        (script.store.get target).owner []) text ∧
      WritesFor script options statement target text := by
  have hunowned := hl.roots statement hid
  obtain ⟨whole, hwhole⟩ := exists_always hs hoff hid
  have hline : Always (renderElement script options statement) (options.style.topLevel whole) := by
    rw [renderElement_eq hunowned]
    refine hwhole.bind ?_
    rw [if_neg hblank]
    exact always_pure _
  rw [← hunowned] at hwhole
  obtain ⟨before, text, after, rfl, halone, hput⟩ := exists_in_place hs hl hoff
    (hl.forest.subset hid) ⟨statement, hid, .root⟩ hv hwhole
  exact ⟨text, halone, before, after, hput, hline⟩

/-- A statement comes to what is visible from it, with the owner as parent. -/
theorem visits_iff (hs : script.Sound) (hl : script.Linked all) (hoff : options.inlining = false)
    (hid : statement ∈ script.statements) {r : Request} :
    Visits script options statement r ↔
      Visible script.store statement r.id ∧ r = ⟨r.id, (script.store.get r.id).owner, []⟩ := by
  have links : ∀ {id child}, Visible script.store statement id →
      child ∈ (script.store.kind id).children → (script.store.get child).owner = some id :=
    fun hv hc => hl.links _ (hl.mem_of_below hid (below_of_visible hv)) _ hc
  constructor
  · intro h
    induction h with
    | start => exact ⟨.root, rfl⟩
    | @ask r r' row _ hrow hr ih =>
      obtain ⟨hv, he⟩ := ih
      rw [he] at hrow
      obtain ⟨hcomp, child, hchild, rfl⟩ := eq_of_mem_plan hoff hrow hr
      exact ⟨hv.child (ne_error_of_isCompound hcomp) hchild, by rw [links hv hchild]⟩
  · rintro ⟨hv, he⟩
    rw [he]
    clear he
    generalize r.id = id at hv
    induction hv with
    | root => exact .start
    | @child id child hv herror hc ih =>
      have hcomp := isCompound_of_mem_children herror hc
      obtain ⟨row, hrow, hr⟩ := exists_mem_plan hs ⟨statement, hid, hv⟩ hcomp hc options
        (script.store.get id).owner
      have hoptions : { options with inlining := false } = options := by rw [← hoff]
      rw [hoptions] at hrow
      rw [links hv hc]
      exact ih.ask hrow hr

/-- **In place as alone.**  Without inlining, what the line of a statement writes
    for an element below it is what the element is written as alone.  The
    statement comes to the element once, and the parent that is handed down to it
    is its owner. -/
theorem renderElement_in_place {v : Vocabulary} {lines : List String} {script : Script}
    (h : Script.parse v lines = .ok script) (options : RenderOptions)
    (hoff : options.inlining = false) {statement id : ElementId}
    (hs : statement ∈ script.statements) (hv : Visible script.store statement id)
    (hid : id ∉ script.statements) :
    (∃ text, Always (renderElement script options id) text ∧
      ∀ t, WritesFor script options statement id t ↔ t = text) ∧
    ∀ r, Visits script options statement r ∧ r.id = id ↔
      r = ⟨id, (script.store.get id).owner, []⟩ := by
  have hsound := Script.parse_sound h
  obtain ⟨all, hl⟩ := Script.parse_linked h
  constructor
  · have hne : id ≠ statement := by
      rintro rfl
      exact hid hs
    have hblank := hv.root_ne_blank fun _ => hne
    obtain ⟨owner, howner, -⟩ := hl.parent hs (below_of_visible hv) hne
    obtain ⟨text, halone, hfor⟩ := exists_writesFor hsound hl hoff hs hblank hv
    refine ⟨text, ?_, fun t => ⟨fun ht => ht.eq hfor, ?_⟩⟩
    · rw [renderElement_of_owner howner, ← howner]
      exact halone
    · rintro rfl
      exact hfor
  · intro r
    rw [visits_iff hsound hl hoff hs]
    constructor
    · rintro ⟨⟨-, he⟩, rfl⟩
      exact he
    · rintro rfl
      exact ⟨⟨hv, rfl⟩, rfl⟩

theorem Script.line?_eq_some {text : String} (h : Always (renderElement script options id) text) :
    script.line? options id = some text := by
  obtain ⟨log, hrun⟩ := h #[]
  rw [Script.line?, hrun]
  rfl

/-- The difference stands inside a product and keeps its parentheses, the sum is
    an index and has none. -/
theorem renderElement_in_place_nested :
    ∃ script, Script.parse {} ["a = [1 2]", "f = @(x) x", "z = 3 * (f(a(1 + 2)) - 1)"] =
        .ok script ∧
      script.line? { inlining := false } 36 = some "$z = 3 \\cdot (f(a(1 + 2)) - 1)$ \\par" ∧
      WritesFor script { inlining := false } 36 31 "(f(a(1 + 2)) - 1)" ∧
      WritesFor script { inlining := false } 36 27 "1 + 2" := by
  have hfacts : ∃ script ∈ (Script.parse {} ["a = [1 2]", "f = @(x) x",
        "z = 3 * (f(a(1 + 2)) - 1)"]).toOption,
      script.statements = [7, 16, 36] ∧ script.store.kind 36 = .declaration 17 20 .plain ∧
      script.store.kind 20 = .operator "*" .binary (some 19) (some 31) ∧
      script.store.kind 31 = .operator "-" .binary (some 35) (some 32) ∧
      script.store.kind 35 = .call 15 [34] ∧ script.store.kind 34 = .access 24 [27] ∧
      script.line? { inlining := false } 36 = some "$z = 3 \\cdot (f(a(1 + 2)) - 1)$ \\par" ∧
      script.line? { inlining := false } 31 = some "(f(a(1 + 2)) - 1)" ∧
      script.line? { inlining := false } 27 = some "1 + 2" := by
    decide +kernel
  obtain ⟨script, hscript, hst, h36, h20, h31, h35, h34, hline, hdifference, hsum⟩ := hfacts
  have hs : 36 ∈ script.statements := by simp [hst]
  have v20 : Visible script.store 36 20 :=
    .child .root (by simp [h36]) (by simp [h36, Kind.children])
  have v31 : Visible script.store 36 31 := .child v20 (by simp [h20]) (by simp [h20, Kind.children])
  have v35 : Visible script.store 36 35 := .child v31 (by simp [h31]) (by simp [h31, Kind.children])
  have v34 : Visible script.store 36 34 := .child v35 (by simp [h35]) (by simp [h35, Kind.children])
  have v27 : Visible script.store 36 27 := .child v34 (by simp [h34]) (by simp [h34, Kind.children])
  have hparse := Script.parse_of_mem hscript
  obtain ⟨⟨text, htext, hfor⟩, -⟩ :=
    renderElement_in_place hparse { inlining := false } rfl hs v31 (by simp [hst])
  obtain ⟨⟨text', htext', hfor'⟩, -⟩ :=
    renderElement_in_place hparse { inlining := false } rfl hs v27 (by simp [hst])
  rw [Script.line?_eq_some htext] at hdifference
  rw [Script.line?_eq_some htext'] at hsum
  exact ⟨script, hparse, hline, (hfor _).2 (Option.some.inj hdifference).symm,
    (hfor' _).2 (Option.some.inj hsum).symm⟩

end FormulaSheet
