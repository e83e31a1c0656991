/-
  What a script depends on, and how its lines depend on each other.

  * `joinLines_append`: lines that are joined up to their end are joined in the
    same way with more lines behind them; the number of the first line does not
    matter for the texts (`map_text_joinLines`).
  * `render_eq_of_tokens_eq`: scripts whose logical lines have the same tokens
    are written as the same lines.
  * `begins_of_parse_append`: lines that follow change nothing of what has been
    read, nor how it is written.
  * `render_insert`: a line that declares no new name adds its own line to what
    is written and changes no other.  The lines behind it find the same names,
    only their elements are at other positions.
-/
import FormulaSheet.Proofs.Relocation
import FormulaSheet.Proofs.Resolution

namespace FormulaSheet

open Store

variable {v : Vocabulary}

/-! ## Joining lines -/

namespace LogicalLine

/-- The lines that belong to the first one, and the lines after them. -/
def continuation? (first : String) (rest : List String) : Option (List String × List String) :=
  if isBalanced first then some ([], rest) else absorb? rest

theorem continuation?_eq_append {first : String} {rest block after : List String}
    (h : continuation? first rest = some (block, after)) : rest = block ++ after := by
  unfold continuation? at h
  split at h
  · cases h
    rfl
  · exact absorb?_eq_append h

theorem absorb?_append {lines block rest : List String} (h : absorb? lines = some (block, rest))
    (more : List String) : absorb? (lines ++ more) = some (block, rest ++ more) := by
  induction lines generalizing block with
  | nil => cases h
  | cons line lines ih =>
    rw [List.cons_append, absorb?]
    rw [absorb?] at h
    by_cases hc : closes line = true
    · rw [if_pos hc] at h ⊢
      cases h
      rfl
    · rw [if_neg hc] at h ⊢
      obtain ⟨⟨block, rest⟩, hb, he⟩ := Option.map_eq_some_iff.1 h
      cases he
      rw [ih hb]
      rfl

theorem continuation?_append {first : String} {rest block after : List String}
    (h : continuation? first rest = some (block, after)) (more : List String) :
    continuation? first (rest ++ more) = some (block, after ++ more) := by
  unfold continuation? at h ⊢
  split at h
  · rename_i hb
    cases h
    rw [if_pos hb]
  · rename_i hb
    rw [if_neg hb]
    exact absorb?_append h more

theorem joinLines_of_none {first : String} {rest : List String}
    (h : continuation? first rest = none) (line : Nat) :
    joinLines line (first :: rest) = ([], some ⟨line⟩) := by
  unfold continuation? at h
  split at h
  · cases h
  · rename_i hb
    rw [joinLines, if_neg hb]
    split
    · rfl
    · rename_i hs
      rw [h] at hs
      cases hs

theorem joinLines_of_some {first : String} {rest block after : List String}
    (h : continuation? first rest = some (block, after)) (line : Nat) :
    joinLines line (first :: rest) =
      (⟨" ".intercalate (first :: block), line, block.length + 1⟩ ::
          (joinLines (line + (block.length + 1)) after).1,
        (joinLines (line + (block.length + 1)) after).2) := by
  unfold continuation? at h
  split at h
  · rename_i hb
    cases h
    rw [joinLines, if_pos hb]
    rfl
  · rename_i hb
    rw [joinLines, if_neg hb]
    split
    · rename_i hn
      rw [h] at hn
      cases hn
    · rename_i hs
      rw [h] at hs
      cases hs
      rfl

/-- What holds of the lines after a first one and all that belongs to it holds of
    all lines. -/
@[elab_as_elim]
theorem joined_induction {P : List String → Prop} (nil : P [])
    (cons : ∀ first rest, (∀ block after, continuation? first rest = some (block, after) →
      P after) → P (first :: rest)) (lines : List String) : P lines := by
  induction hn : lines.length using Nat.strongRecOn generalizing lines with
  | ind n ih =>
    cases lines with
    | nil => exact nil
    | cons first rest =>
      refine cons first rest fun block after h => ih after.length ?_ after rfl
      rw [← hn, continuation?_eq_append h, List.length_cons, List.length_append]
      omega

/-- **Lines are joined piece by piece**, if the first piece has no array that is
    left open. -/
theorem joinLines_append {lines : List String} {line : Nat} (h : (joinLines line lines).2 = none)
    (more : List String) : joinLines line (lines ++ more) =
      ((joinLines line lines).1 ++ (joinLines (line + lines.length) more).1,
        (joinLines (line + lines.length) more).2) := by
  induction lines using joined_induction generalizing line with
  | nil =>
    rw [joinLines]
    rfl
  | cons first rest ih =>
    cases hc : continuation? first rest with
    | none =>
      rw [joinLines_of_none hc] at h
      cases h
    | some r =>
      obtain ⟨block, after⟩ := r
      have hlen : line + (first :: rest).length = line + (block.length + 1) + after.length := by
        rw [continuation?_eq_append hc, List.length_cons, List.length_append]
        omega
      rw [joinLines_of_some hc] at h ⊢
      rw [List.cons_append, joinLines_of_some (continuation?_append hc more),
        ih block after hc h, hlen]
      rfl

/-- The number of the first line matters neither for the texts nor for whether
    an array is left open. -/
theorem map_text_joinLines (lines : List String) (line line' : Nat) :
    (joinLines line' lines).1.map text = (joinLines line lines).1.map text ∧
      (joinLines line' lines).2.isSome = (joinLines line lines).2.isSome := by
  induction lines using joined_induction generalizing line line' with
  | nil =>
    rw [joinLines, joinLines]
    exact ⟨rfl, rfl⟩
  | cons first rest ih =>
    cases hc : continuation? first rest with
    | none =>
      rw [joinLines_of_none hc, joinLines_of_none hc]
      exact ⟨rfl, rfl⟩
    | some r =>
      obtain ⟨block, after⟩ := r
      obtain ⟨htexts, hopen⟩ := ih block after hc (line + (block.length + 1))
        (line' + (block.length + 1))
      rw [joinLines_of_some hc, joinLines_of_some hc, List.map_cons, List.map_cons, htexts]
      exact ⟨rfl, hopen⟩

theorem snd_joinLines_eq_none {lines : List String} {line : Nat} {joined : List LogicalLine}
    (h : joinLines line lines = (joined, none)) (line' : Nat) : (joinLines line' lines).2 = none := by
  have hopen := (map_text_joinLines lines line line').2
  rw [h] at hopen
  exact Option.isNone_iff_eq_none.1 (Option.isSome_eq_false_iff.1 hopen)

theorem ofLines_eq_ok_iff {lines : List String} {joined : List LogicalLine} :
    ofLines lines = .ok joined ↔ joinLines 1 lines = (joined, none) := by
  unfold ofLines
  split
  · rename_i joined' h
    rw [h, Except.ok.injEq, Prod.mk.injEq, and_iff_left rfl]
  · rename_i failure h
    rw [h]
    simp

theorem ofLines_insert {before after : List String} {line : String}
    {joined joined' : List LogicalLine} (hbefore : ofLines before = .ok joined)
    (hafter : ofLines after = .ok joined') (hline : isBalanced line = true) :
    ofLines (before ++ [line] ++ after) = .ok (joined ++
      ([⟨line, 1 + before.length, 1⟩] ++ (joinLines (1 + before.length + 1) after).1)) := by
  rw [ofLines_eq_ok_iff] at hbefore hafter ⊢
  have hcont : continuation? line after = some ([], after) := if_pos hline
  rw [List.append_assoc, joinLines_append (by rw [hbefore]), hbefore, List.singleton_append,
    joinLines_of_some hcont, snd_joinLines_eq_none hafter]
  rfl

/-- Without the line in between the others are joined alike. -/
theorem exists_ofLines_insert {before after : List String} {line : String}
    {joined joined' : List LogicalLine} (hbefore : ofLines before = .ok joined)
    (hafter : ofLines after = .ok joined') (hline : isBalanced line = true) :
    ∃ l more more', ofLines (before ++ after) = .ok (joined ++ more) ∧
      ofLines (before ++ [line] ++ after) = .ok (joined ++ ([l] ++ more')) ∧
      more'.map text = more.map text := by
  refine ⟨_, (joinLines (1 + before.length) after).1, _, ?_, ofLines_insert hbefore hafter hline,
    (map_text_joinLines after _ _).1⟩
  rw [ofLines_eq_ok_iff] at hbefore hafter ⊢
  rw [joinLines_append (by rw [hbefore]), hbefore, snd_joinLines_eq_none hafter]

end LogicalLine

open LogicalLine

/-! ## The same tokens -/

theorem Script.extend_empty (v : Vocabulary) (lines : List LogicalLine) :
    (extend v {} lines).Sound ∧ (extend v {} lines).Closed :=
  ⟨extend_sound sound_empty lines, extend_closed sound_empty closed_empty lines⟩

/-- **What is written depends on the tokens alone**: scripts whose logical lines
    have the same tokens are written as the same lines, if their rendering ends,
    and it ends for both or for none. -/
theorem render_eq_of_tokens_eq (v : Vocabulary) (options : RenderOptions)
    {lines lines' : List String} {joined joined' : List LogicalLine}
    (h : LogicalLine.ofLines lines = .ok joined) (h' : LogicalLine.ofLines lines' = .ok joined')
    (htokens : joined.map (fun l => Token.tokenize v l.text) =
      joined'.map fun l => Token.tokenize v l.text) :
    ∃ script script', Script.parse v lines = .ok script ∧ Script.parse v lines' = .ok script' ∧
      script.render options = script'.render options := by
  have hlike : List.Forall₂ (LogicalLine.Like (.same (fun _ => True) joinable_true) v)
      joined' joined := by
    rw [← List.forall₂_eq_eq_eq, List.forall₂_map_left_iff, List.forall₂_map_right_iff] at htokens
    exact htokens.flip.imp fun _ _ he => like_same he fun _ _ => trivial
  exact ⟨_, _, Script.parse_eq_ok_iff.2 ⟨joined, h, rfl⟩,
    Script.parse_eq_ok_iff.2 ⟨joined', h', rfl⟩,
    (Script.extend_renames hlike).render_eq (Script.extend_empty v joined').1
      (Script.extend_empty v joined).1 options⟩

/-- The same script with comments, other spacing, dropped punctuation and an
    array that runs over two lines. -/
theorem render_eq_of_tokens_eq_respelled :
    ∃ script script',
      Script.parse {} ["f = @(x) x + 1", "M = [1, 2; 3, 4]", "", "M + f(3)"] = .ok script ∧
      Script.parse {} ["f=@(x)x+1 % one more", "M = [1, 2;", "  3,!4 ]", "% nothing",
        "M + f(3) ? %"] = .ok script' ∧
      script.render {} = script'.render {} := by
  have hplain : LogicalLine.ofLines ["f = @(x) x + 1", "M = [1, 2; 3, 4]", "", "M + f(3)"] =
      .ok [⟨"f = @(x) x + 1", 1, 1⟩, ⟨"M = [1, 2; 3, 4]", 2, 1⟩, ⟨"", 3, 1⟩,
        ⟨"M + f(3)", 4, 1⟩] := by
    decide +kernel
  have hrespelled : LogicalLine.ofLines ["f=@(x)x+1 % one more", "M = [1, 2;", "  3,!4 ]",
      "% nothing", "M + f(3) ? %"] =
      .ok [⟨"f=@(x)x+1 % one more", 1, 1⟩, ⟨"M = [1, 2;   3,!4 ]", 2, 2⟩, ⟨"% nothing", 4, 1⟩,
        ⟨"M + f(3) ? %", 5, 1⟩] := by
    decide +kernel
  exact render_eq_of_tokens_eq {} {} hplain hrespelled (by decide +kernel)

/-! ## Lines that follow -/

namespace Script

theorem Begins.line?_eq {a b : Script} (h : a.Begins b) (hs : a.Sound) (hs' : b.Sound)
    (hc : a.Closed) {id : ElementId} (hid : id ∈ a.statements) (options : RenderOptions) :
    b.line? options id = a.line? options id := by
  have hstay : Renaming.shift a.store.size (b.store.size - a.store.size) id = id :=
    Renaming.shift_of_lt (hs.lt_size hid)
  have hid' := h.statements.subset hid
  rw [← hstay] at hid'
  have hline := line?_rename hs hs' hid hid' (hc.store.renames_shift (n := 0) h.store) options
  rwa [hstay] at hline

end Script

/-- **Lines that follow change nothing**: all that has been read stays where it
    is, and is written in the same way. -/
theorem begins_of_parse_append {before after : List String} {a b : Script}
    (ha : Script.parse v before = .ok a) (hb : Script.parse v (before ++ after) = .ok b) :
    a.Begins b ∧ ∀ options texts', b.render options = some texts' →
      ∃ texts, a.render options = some texts ∧ texts <+: texts' := by
  obtain ⟨joined, hjoined, rfl⟩ := Script.parse_eq_ok_iff.1 ha
  obtain ⟨joined', hjoined', rfl⟩ := Script.parse_eq_ok_iff.1 hb
  rw [ofLines_eq_ok_iff] at hjoined hjoined'
  rw [joinLines_append (by rw [hjoined]), hjoined] at hjoined'
  obtain ⟨rfl, -⟩ := Prod.mk.inj hjoined'
  obtain ⟨hs, hc⟩ := Script.extend_empty v joined
  rw [Script.extend_append]
  generalize (joinLines (1 + before.length) after).1 = more
  have hbegins := Script.begins_extend (v := v) hs more
  refine ⟨hbegins, fun options texts' hrender => ?_⟩
  obtain ⟨rest, hrest⟩ := hbegins.statements
  rw [Script.render_eq_some_iff, ← hrest, List.map_append,
    List.map_congr_left fun id hid =>
      hbegins.line?_eq hs (Script.extend_sound hs more) hc hid options,
    List.append_eq_map_iff] at hrender
  obtain ⟨texts, texts'', rfl, htexts, -⟩ := hrender
  exact ⟨texts, Script.render_eq_some_iff.2 htexts.symm, List.prefix_append texts texts''⟩

/-- An array over two lines, a function that accesses it and a term that does
    not reduce, followed by a second declaration of the function and a call. -/
theorem begins_of_parse_append_redeclared :
    ∃ a b texts texts',
      Script.parse {} ["a = [1 2", "3 4]", "f = @(x) a(1) + x", "y = f(2) +"] = .ok a ∧
      Script.parse {} (["a = [1 2", "3 4]", "f = @(x) a(1) + x", "y = f(2) +"] ++
        ["f = @(x) 3", "z = f(y)"]) = .ok b ∧
      a.Begins b ∧ b.render {} = some texts' ∧ a.render {} = some texts ∧ texts <+: texts' := by
  have hread : ∃ a ∈ (Script.parse {} ["a = [1 2", "3 4]", "f = @(x) a(1) + x",
      "y = f(2) +"]).toOption, True := by decide +kernel
  have hends : ∃ b ∈ (Script.parse {} (["a = [1 2", "3 4]", "f = @(x) a(1) + x", "y = f(2) +"] ++
      ["f = @(x) 3", "z = f(y)"])).toOption, ∃ texts ∈ b.render {}, True := by decide +kernel
  obtain ⟨a, ha, -⟩ := hread
  obtain ⟨b, hb, texts', hrender, -⟩ := hends
  have ha := Script.parse_of_mem ha
  have hb := Script.parse_of_mem hb
  obtain ⟨hbegins, htexts⟩ := begins_of_parse_append ha hb
  obtain ⟨texts, hrender', hp⟩ := htexts {} texts' hrender
  exact ⟨a, b, texts, texts', ha, hb, hbegins, hrender, hrender', hp⟩

/-! ## A line that declares no new name -/

theorem LogicalLine.forall₂_like_shift {lines lines' : List LogicalLine}
    (h : lines'.map text = lines.map text) (n m : Nat) :
    List.Forall₂ (LogicalLine.Like (.shift n m) v) lines lines' := by
  have hsame : List.Forall₂ Eq (lines.map text) (lines'.map text) := by
    rw [h, List.forall₂_same]
    exact fun _ _ => rfl
  rw [List.forall₂_map_left_iff, List.forall₂_map_right_iff] at hsame
  exact hsame.imp fun l l' he => like_shift (by rw [he])

namespace Script

theorem Begins.declares?_eq {a b : Script} (h : a.Begins b) (hs : a.Sound) {id : ElementId}
    (hid : id ∈ a.statements) : b.store.declares? id = a.store.declares? id :=
  hs.declares?_eq (fun _ hx => Store.Extends.get h.store hx) hid

/-- If no new name is declared, the registry stays. -/
theorem Begins.registry_eq {a b : Script} (h : a.Begins b) (hs : a.Sound) (ha : a.Registered)
    (hb : b.Registered) {ids : List ElementId} (hids : b.statements = a.statements ++ ids)
    (hdeclared : ∀ id ∈ ids, ∀ name, b.store.declares? id = some name →
      ∃ earlier ∈ a.statements, b.store.declares? earlier = some name) :
    b.registry = a.registry := by
  obtain ⟨new, hnew⟩ := h.registry
  have hnames := hb.names
  rw [← hnew, List.map_append] at hnames
  have hnil : new = [] := by
    refine List.eq_nil_iff_forall_not_mem.2 fun entry hentry => ?_
    obtain ⟨name, id⟩ := entry
    have hfind := hb.mem_entries.1 (hnew ▸ List.mem_append_right _ hentry)
    have hname : b.store.declares? id = some name := by simpa using List.find?_some hfind
    obtain ⟨earlier, hearlier, hname⟩ : ∃ earlier ∈ a.statements,
        b.store.declares? earlier = some name := by
      have hmem := List.mem_of_find?_eq_some hfind
      rw [hids] at hmem
      rcases List.mem_append.1 hmem with hmem | hmem
      · exact ⟨id, hmem, hname⟩
      · exact hdeclared id hmem name hname
    -- The name is registered by `a` already, and no name is registered twice.
    rw [h.declares?_eq hs hearlier] at hname
    cases hget : a.statements.find? fun id => a.store.declares? id == some name with
    | none => exact List.find?_eq_none.1 hget earlier hearlier (by simp [hname])
    | some declaration =>
      have hold := ha.mem_entries.2 hget
      exact List.disjoint_of_nodup_append hnames (List.mem_map.2 ⟨_, hold, rfl⟩)
        (List.mem_map.2 ⟨_, hentry, rfl⟩)
  rw [hnil, List.append_nil] at hnew
  exact congrArg Registry.mk hnew.symm

theorem getElem?_statements_insert {script : Script} (hs : script.Sound) {l : LogicalLine}
    {id : ElementId} (hid : (script.extend v [l]).statements = script.statements ++ [id])
    (lines : List LogicalLine) :
    ((script.extend v [l]).extend v lines).statements[script.statements.length]? = some id ∧
    ((script.extend v [l]).extend v lines).statements.take script.statements.length =
      script.statements := by
  obtain ⟨rest, hrest⟩ := (begins_extend (v := v) (extend_sound (v := v) hs [l]) lines).statements
  rw [hid, List.append_assoc] at hrest
  rw [← hrest]
  exact ⟨by simp, List.take_left⟩

/-- A line that declares no name but those declared before it. -/
theorem registry_extend_eq {script : Script} (hs : script.Sound) (hr : script.Registered)
    {l : LogicalLine} {id : ElementId}
    (hid : (script.extend v [l]).statements = script.statements ++ [id])
    {lines : List LogicalLine} (hdeclared : ∀ name,
      ((script.extend v [l]).extend v lines).store.declares? id = some name →
      ∃ earlier ∈ script.statements,
        ((script.extend v [l]).extend v lines).store.declares? earlier = some name) :
    (script.extend v [l]).registry = script.registry := by
  have hbegins := begins_extend (v := v) (extend_sound (v := v) hs [l]) lines
  have hsame : ∀ {x : ElementId}, x ∈ (script.extend v [l]).statements →
      ((script.extend v [l]).extend v lines).store.declares? x =
        (script.extend v [l]).store.declares? x :=
    fun hx => hbegins.declares?_eq (extend_sound hs [l]) hx
  refine (begins_extend hs [l]).registry_eq hs hr (extend_registered hs hr [l]) hid ?_
  intro x hx name hname
  obtain rfl := List.mem_singleton.1 hx
  rw [← hsame (hid ▸ List.mem_append_right _ hx)] at hname
  obtain ⟨earlier, hearlier, hname⟩ := hdeclared name hname
  refine ⟨earlier, hearlier, ?_⟩
  rw [← hsame (hid ▸ List.mem_append_left _ hearlier), hname]

section

variable {script : Script} (hs : script.Sound) (hc : script.Closed) {l : LogicalLine}
  {lines lines' : List LogicalLine} (htexts : lines'.map text = lines.map text)
include hs hc htexts

/-- The statements behind a line that declares no new name are written as
    without it. -/
theorem exists_statements_insert (hr : (script.extend v [l]).registry = script.registry) :
    ∃ ids ids', (script.extend v lines).statements = script.statements ++ ids ∧
      ((script.extend v [l]).extend v lines').statements =
        (script.extend v [l]).statements ++ ids' ∧
      ∀ options, ids'.map (((script.extend v [l]).extend v lines').line? options) =
        ids.map ((script.extend v lines).line? options) := by
  have h : (script.extend v lines).Renames _ _ _ ((script.extend v [l]).extend v lines') :=
    addLines_renames (forall₂_like_shift htexts _ _)
      (hc.renames_shift (begins_extend (v := v) hs [l]) hr)
  obtain ⟨ids, hids, hids'⟩ := h.statements
  refine ⟨ids, _, hids, hids', fun options => ?_⟩
  rw [List.map_map]
  refine List.map_congr_left fun id hid => ?_
  refine line?_rename (extend_sound hs lines) (extend_sound (extend_sound hs [l]) lines') ?_ ?_
    h.store options
  · rw [hids]
    exact List.mem_append_right _ hid
  · rw [hids']
    exact List.mem_append_right _ (List.mem_map_of_mem hid)

/-- So are the statements before it, and there is one statement in between. -/
theorem exists_map_line?_insert (hr : (script.extend v [l]).registry = script.registry)
    {id : ElementId} (hid : (script.extend v [l]).statements = script.statements ++ [id])
    (options : RenderOptions) :
    ∃ before after, before.length = script.statements.length ∧
      (script.extend v lines).statements.map ((script.extend v lines).line? options) =
        before ++ after ∧
      ((script.extend v [l]).extend v lines').statements.map
          (((script.extend v [l]).extend v lines').line? options) =
        before ++ ((script.extend v [l]).extend v lines').line? options id :: after := by
  obtain ⟨ids, ids', hids, hids', hlines⟩ := exists_statements_insert hs hc htexts hr
  have hbegins := begins_extend (v := v) hs lines
  have hbegins' := (begins_extend (v := v) hs [l]).trans
    (begins_extend (v := v) (extend_sound hs [l]) lines')
  refine ⟨script.statements.map (script.line? options),
    ids.map ((script.extend v lines).line? options), List.length_map _, ?_, ?_⟩
  · rw [hids, List.map_append, List.map_congr_left fun x hx =>
      hbegins.line?_eq hs (extend_sound hs lines) hc hx options]
  · rw [hids', hid, List.append_assoc, List.map_append, List.map_append, hlines options,
      List.map_congr_left fun x hx =>
        hbegins'.line?_eq hs (extend_sound (extend_sound hs [l]) lines') hc hx options]
    rfl

end

end Script

theorem cons_between_eq_map_iff {α β : Type} {f : α → β} {xs ys : List β} {y : β}
    {texts' : List α} :
    xs ++ y :: ys = texts'.map f ↔ ∃ texts text more, texts.length = xs.length ∧ y = f text ∧
      xs ++ ys = (texts ++ more).map f ∧ texts' = texts ++ text :: more := by
  constructor
  · intro h
    obtain ⟨texts, rest, rfl, rfl, hrest⟩ := List.append_eq_map_iff.1 h
    obtain ⟨text, more, rfl, rfl, rfl⟩ := List.map_eq_cons_iff.1 hrest
    exact ⟨texts, text, more, by rw [List.length_map], rfl, by rw [List.map_append], rfl⟩
  · rintro ⟨texts, text, more, hlen, rfl, h, rfl⟩
    rw [List.map_append] at h
    obtain ⟨rfl, rfl⟩ := List.append_inj h (by rw [List.length_map, hlen])
    rw [List.map_append, List.map_cons]

/-- **A line that declares no new name adds its own line and changes no other.** -/
theorem render_insert {before after : List String} {line : String}
    {joined joined' : List LogicalLine} (hbefore : ofLines before = .ok joined)
    (hafter : ofLines after = .ok joined') (hline : isBalanced line = true) (v : Vocabulary) :
    ∃ script script' id, Script.parse v (before ++ after) = .ok script ∧
      Script.parse v (before ++ [line] ++ after) = .ok script' ∧
      script'.statements[joined.length]? = some id ∧
      ((∀ name, script'.store.declares? id = some name →
          ∃ earlier ∈ script'.statements.take joined.length,
            script'.store.declares? earlier = some name) →
        ∀ options texts', script'.render options = some texts' ↔
          ∃ texts text more, texts.length = joined.length ∧
            script'.line? options id = some text ∧
            script.render options = some (texts ++ more) ∧ texts' = texts ++ text :: more) := by
  obtain ⟨l, more, more', hplain, hinsert, htexts⟩ := exists_ofLines_insert hbefore hafter hline
  obtain ⟨hs, hc⟩ := Script.extend_empty v joined
  have hr := Script.extend_registered (v := v) Script.sound_empty Script.registered_empty joined
  have hlen : (Script.extend v {} joined).statements.length = joined.length := by
    rw [Script.length_statements_extend]
    exact Nat.zero_add _
  have hparse := Script.parse_eq_ok_iff.2 ⟨_, hplain, Script.extend_append (v := v) {} joined more⟩
  have hparse' := Script.parse_eq_ok_iff.2 ⟨_, hinsert, Script.extend_append (v := v) {} joined _⟩
  rw [Script.extend_append] at hparse'
  rw [← hlen]
  clear hplain hinsert hlen
  -- Only the script that the lines before it have given matters.
  generalize Script.extend v {} joined = first at *
  obtain ⟨id, hid⟩ : ∃ id, (first.extend v [l]).statements = first.statements ++ [id] := ⟨_, rfl⟩
  obtain ⟨hget, htake⟩ := Script.getElem?_statements_insert hs hid more'
  refine ⟨_, _, id, hparse, hparse', hget, fun hdeclared options texts' => ?_⟩
  rw [htake] at hdeclared
  have hregistry := Script.registry_extend_eq hs hr hid hdeclared
  obtain ⟨before', after', hbefore', hlines, hlines'⟩ :=
    Script.exists_map_line?_insert hs hc htexts hregistry hid options
  simp only [Script.render_eq_some_iff]
  rw [hlines, hlines', cons_between_eq_map_iff, hbefore']

/-- A second declaration of a function, with a body that does not reduce,
    between an array and a call. -/
theorem render_insert_redeclared :
    ∃ script script' id,
      Script.parse {} (["f = @(x) x + 1", "a = [1 2]"] ++ ["y = f(a(2))"]) = .ok script ∧
      Script.parse {} (["f = @(x) x + 1", "a = [1 2]"] ++ ["f = @(x) a(1) +"] ++
        ["y = f(a(2))"]) = .ok script' ∧
      script'.statements[2]? = some id ∧
      ∀ options texts', script'.render options = some texts' ↔
        ∃ texts text more, texts.length = 2 ∧ script'.line? options id = some text ∧
          script.render options = some (texts ++ more) ∧ texts' = texts ++ text :: more := by
  have hbefore : ofLines ["f = @(x) x + 1", "a = [1 2]"] =
      .ok [⟨"f = @(x) x + 1", 1, 1⟩, ⟨"a = [1 2]", 2, 1⟩] := by decide +kernel
  have hafter : ofLines ["y = f(a(2))"] = .ok [⟨"y = f(a(2))", 1, 1⟩] := by decide +kernel
  have hnames : (Script.parse {} (["f = @(x) x + 1", "a = [1 2]"] ++ ["f = @(x) a(1) +"] ++
      ["y = f(a(2))"])).toOption.map (fun script => script.statements.map script.store.declares?) =
        some [some "f", some "a", some "f", some "y"] := by decide +kernel
  obtain ⟨script, script', id, hparse, hparse', hid, hrender⟩ :=
    render_insert hbefore hafter (show isBalanced "f = @(x) a(1) +" = true by decide +kernel) {}
  rw [hparse'] at hnames
  have hnames : script'.statements.map script'.store.declares? = _ := Option.some.inj hnames
  refine ⟨script, script', id, hparse, hparse', hid, hrender fun name hname => ?_⟩
  have hf : some (script'.store.declares? id) = some (some "f") := by
    rw [← Option.map_some, ← hid, ← List.getElem?_map, hnames]
    rfl
  rw [Option.some.inj hf] at hname
  obtain rfl := Option.some.inj hname
  refine List.mem_map.1 ?_
  rw [List.map_take, hnames]
  exact List.mem_cons_self

end FormulaSheet
