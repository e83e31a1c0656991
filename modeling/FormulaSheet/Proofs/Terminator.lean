/-
  The `;` at the end of a line.

  * `declared_renames`: with the `;` behind it a declaration has another text, and what
    follows is one position further on.
  * `render_terminator`: a `;` at the end of a line does not change what is written, unless
    the line is passed through as several tokens; `render_terminator_ne`: then it does.
-/
import FormulaSheet.Proofs.Shape

namespace FormulaSheet

open Store Render Rendering LogicalLine Token

variable {v : Vocabulary}

namespace Script

theorem render_eq_map_set {script script' : Script} {options : RenderOptions} {n : Nat}
    {before after : List (Option String)} {x y : String} (hn : before.length = n)
    (hx : script.statements.map (script.line? options) = before ++ some x :: after)
    (hy : script'.statements.map (script'.line? options) = before ++ some y :: after) :
    script'.render options = (script.render options).map (·.set n y) ∧
      ∀ texts, script.render options = some texts → texts[n]? = some x := by
  subst hn
  refine ⟨Option.ext fun texts' => ?_, fun texts h => ?_⟩
  · simp only [render_eq_some_iff, Option.map_eq_some_iff, hx, hy]
    constructor
    · intro h
      obtain ⟨texts, _, more, hlen, ⟨⟩, hrest, rfl⟩ := cons_between_eq_map_iff.1 h
      refine ⟨texts ++ x :: more, cons_between_eq_map_iff.2 ⟨texts, x, more, hlen, rfl, hrest, rfl⟩,
        ?_⟩
      rw [← hlen]
      simp
    · rintro ⟨texts, h, rfl⟩
      rw [List.map_set, ← h]
      simp
  · rw [render_eq_some_iff, hx] at h
    have hn := congrArg (·[before.length]?) h
    simpa using hn.symm

end Script

/-! ## Declarations -/

namespace Script

open Statement

variable {script : Script}

/-- The tokens of both lines take the same positions, and the `;` the one behind them. -/
theorem withTokens_renames (hc : script.Closed) {l l' : LogicalLine} (hline : l'.line = l.line)
    (htokens : tokenize v l'.text = tokenize v l.text ++ [";"]) (n : Nat) :
    (script.withTokens v l).store.Renames (.shift (script.withTokens v l).store.size 1) n
      (script.withTokens v l').store := by
  have hclosed := (places_withTokens v script l).closed hc.store
  obtain ⟨e, hpush⟩ : ∃ e,
      (script.withTokens v l').store = (script.withTokens v l).store.push e := by
    obtain ⟨previous, hconcat⟩ := classify_concat (v := v) l.line none (tokenize v l.text) ";"
    refine ⟨⟨Kind.ofToken v previous ";", ";", l.line, false, none⟩, ?_⟩
    rw [withTokens, htokens, hline, hconcat, pushAll_concat]
    rfl
  have hmove := hclosed.renames_shift (n := n) (Store.Extends.push _ e)
  rwa [size_push, Nat.add_sub_cancel_left, ← hpush] at hmove

section

variable (hv : v.isOperator ";" = false) {l l' : LogicalLine} {name : String}
  (hname : declares? v (tokenize v l.text) = some name)
include hv hname

omit hv in
theorem places_values : Places script.store (script.withTokens v l).store
    (script.store.size :: (script.store.size + 1) ::
      values script.store.size (tokenize v l.text)) := by
  obtain ⟨rest, hlen⟩ := Nat.exists_eq_add_of_le' (two_le_of_declares? hname)
  have hplaces := places_withTokens v script l
  rw [hlen, List.range'_succ, List.range'_succ] at hplaces
  rw [values, hlen, Nat.add_sub_cancel]
  exact hplaces

section

variable (hc : script.Closed) (hline : l'.line = l.line)
  (htokens : tokenize v l'.text = tokenize v l.text ++ [";"])
include hc hline htokens

omit hv in
/-- The declaration is read in the same way from the tokens of both lines. -/
theorem buildDeclaration_terminated (log : Log) :
    (buildDeclaration v script.registry l script.store.size name
      (values script.store.size (tokenize v l.text))).Ensures ⟨(script.withTokens v l).store, log⟩
      fun id w => ∀ log', (buildDeclaration v script.registry l' script.store.size name
        (values script.store.size (tokenize v l.text))).Ensures
        ⟨(script.withTokens v l').store, log'⟩ fun id' w' => id' = Renaming.shift (script.withTokens v l).store.size 1 id ∧
          w.store.Renames (.shift (script.withTokens v l).store.size 1) w.store.size w'.store := by
  refine Building.ensures_forall fun log' => ?_
  have hplaces := @places_values v script l name hname
  have hsub := (List.sublist_cons_self (script.store.size + 1)
    (values script.store.size (tokenize v l.text))).cons_cons script.store.size
  have hstay : ∀ id ∈ script.store.size :: values script.store.size (tokenize v l.text),
      Renaming.shift (script.withTokens v l).store.size 1 id = id := fun id hid =>
    Renaming.shift_of_lt (hplaces.apart.mem id (hsub.subset hid)).1
  have hagree := buildDeclaration_agree (w := ⟨(script.withTokens v l).store, log⟩) v
    script.registry l l' script.store.size name (hplaces.pool hsub) False.elim trivial
    (show Store.Renames _ _ _ (Workspace.store ⟨(script.withTokens v l').store, log'⟩) from
      withTokens_renames hc hline htokens _)
  rw [hc.registry_shift hplaces.size_le, hstay _ List.mem_cons_self,
    List.map_congr_left fun id hid => hstay id (List.mem_cons_of_mem _ hid), List.map_id'] at hagree
  exact hagree

/-- What stands behind the tokens of `l` is one position further on. -/
theorem declared_renames (hs : script.Sound) (hlast : (tokenize v l.text).getLast? ≠ some ";") :
    (script.extend v [l]).Renames (.shift (script.withTokens v l).store.size 1) [] []
      (script.extend v [l']) := by
  have hbody := withoutTerminator_of_getLast? hlast
  have hbody' : withoutTerminator (tokenize v l'.text) = tokenize v l.text := by
    rw [htokens, withoutTerminator_terminated]
  have hsize := (places_withTokens v script l).size_le
  have hstatements : script.statements.map (Renaming.shift (script.withTokens v l).store.size 1) =
      script.statements :=
    (List.map_congr_left fun id hid =>
      Renaming.shift_of_lt (Nat.lt_of_lt_of_le (hs.lt_size hid) hsize)).trans (List.map_id _)
  refine extend_declared (P := fun a => a.Renames _ [] [] (script.extend v [l'])) hv
    (hbody.symm ▸ hname) fun log => ?_
  rw [hbody]
  refine (buildDeclaration_terminated hname hc hline htokens log).imp ?_
  intro id w hagree
  refine extend_declared (P := Script.Renames _ [] [] _) hv (hbody'.symm ▸ hname) fun log' => ?_
  rw [hbody']
  refine (hagree log').imp ?_
  rintro _ w' ⟨rfl, hstore⟩
  refine ⟨hstore, ?_, script.statements ++ [id], rfl, ?_⟩
  · rw [← Registry.declaring_rename, hc.registry_shift hsize]
  · rw [List.nil_append, List.map_append, hstatements]
    rfl

end

end

end Script

/-! ## The end of a line -/

namespace Statement

/-- A line of several tokens that declares nothing. -/
def IsPassedWhole (v : Vocabulary) (tokens : List String) : Prop :=
  2 ≤ tokens.length ∧ declares? v tokens = none

instance (v : Vocabulary) (tokens : List String) : Decidable (IsPassedWhole v tokens) :=
  inferInstanceAs (Decidable (_ ∧ _))

theorem text_of_length_lt {tokens : List String} (hlast : tokens.getLast? ≠ some ";")
    (h : tokens.length < 2) (style : Style) : text style (tokens ++ [";"]) = text style tokens := by
  unfold text
  rw [withoutTerminator_terminated, withoutTerminator_of_getLast? hlast]
  rcases tokens with _ | ⟨first, _ | ⟨second, rest⟩⟩
  · rfl
  · rfl
  · exact absurd h (by simp)

theorem text_of_two_le {tokens : List String} (h : 2 ≤ (withoutTerminator tokens).length)
    (style : Style) : text style tokens = style.topLevel (" ".intercalate tokens) := by
  unfold text
  split
  · rename_i hnil
    rw [hnil] at h
    exact absurd h (by simp)
  · rename_i hsingle
    rw [hsingle] at h
    exact absurd h (by simp)
  · rfl

end Statement

namespace Script

open Statement

section

variable {script : Script} (hv : v.isOperator ";" = false) (hs : script.Sound) (hc : script.Closed)
  {l l' : LogicalLine} (htokens : tokenize v l'.text = tokenize v l.text ++ [";"])
  (hlast : (tokenize v l.text).getLast? ≠ some ";") (lines : List LogicalLine)
  (options : RenderOptions)
include hv hs hc htokens hlast

theorem render_declared (hline : l'.line = l.line) {name : String}
    (hname : declares? v (tokenize v l.text) = some name) :
    ((script.extend v [l']).extend v lines).render options =
      ((script.extend v [l]).extend v lines).render options := by
  have hrenames : ((script.extend v [l]).extend v lines).Renames _ [] []
      ((script.extend v [l']).extend v lines) :=
    addLines_renames (forall₂_like_shift rfl _ _)
      (declared_renames hv hname hc hline htokens hs hlast)
  exact hrenames.render_eq (extend_sound (extend_sound hs [l]) lines)
    (extend_sound (extend_sound hs [l']) lines) options

/-- A `;` behind a line that declares nothing changes its own text at most. -/
theorem exists_map_line?_undeclared (hname : declares? v (tokenize v l.text) = none) :
    ∃ before after, before.length = script.statements.length ∧
      ((script.extend v [l]).extend v lines).statements.map
          (((script.extend v [l]).extend v lines).line? options) =
        before ++ some (text options.style (tokenize v l.text)) :: after ∧
      ((script.extend v [l']).extend v lines).statements.map
          (((script.extend v [l']).extend v lines).line? options) =
        before ++ some (text options.style (tokenize v l.text ++ [";"])) :: after := by
  have hbody : withoutTerminator (tokenize v l'.text) = tokenize v l.text := by
    rw [htokens, withoutTerminator_terminated]
  obtain ⟨before, after, hlen, hwithout, hwith⟩ := map_line?_undeclared hv hs hc
    (withoutTerminator_of_getLast? hlast ▸ hname) lines options
  obtain ⟨before', after', hlen', hwithout', hwith'⟩ := map_line?_undeclared hv hs hc
    (hbody.symm ▸ hname) lines options
  rw [hwithout] at hwithout'
  obtain ⟨rfl, rfl⟩ := List.append_inj hwithout' (hlen.trans hlen'.symm)
  exact ⟨before, after, hlen, hwith, htokens ▸ hwith'⟩

theorem render_of_not_isPassedWhole (hline : l'.line = l.line)
    (h : ¬ IsPassedWhole v (tokenize v l.text)) :
    ((script.extend v [l']).extend v lines).render options =
      ((script.extend v [l]).extend v lines).render options := by
  cases hname : declares? v (tokenize v l.text) with
  | some name => exact render_declared hv hs hc htokens hlast lines options hline hname
  | none =>
    obtain ⟨before, after, -, hwith, hwith'⟩ :=
      exists_map_line?_undeclared hv hs hc htokens hlast lines options hname
    have hshort : (tokenize v l.text).length < 2 := Nat.lt_of_not_le fun hle => h ⟨hle, hname⟩
    refine render_congr ?_
    rw [hwith, hwith', text_of_length_lt hlast hshort]

theorem render_of_isPassedWhole (h : IsPassedWhole v (tokenize v l.text)) :
    ((script.extend v [l']).extend v lines).render options =
        (((script.extend v [l]).extend v lines).render options).map (·.set script.statements.length
          (options.style.topLevel (" ".intercalate (tokenize v l.text ++ [";"])))) ∧
      ∀ texts, ((script.extend v [l]).extend v lines).render options = some texts →
        texts[script.statements.length]? =
          some (options.style.topLevel (" ".intercalate (tokenize v l.text))) := by
  obtain ⟨before, after, hlen, hwith, hwith'⟩ :=
    exists_map_line?_undeclared hv hs hc htokens hlast lines options h.2
  rw [text_of_two_le (by rw [withoutTerminator_of_getLast? hlast]; exact h.1)] at hwith
  rw [text_of_two_le (by rw [withoutTerminator_terminated]; exact h.1)] at hwith'
  exact render_eq_map_set hlen hwith hwith'

end

end Script

/-- **A `;` at the end of a line does not change what is written**, unless the line is passed
    through as several tokens.  Of such a line the `;` is written as the last token, and no
    other line changes. -/
theorem render_terminator {before after : List String} {line line' : String}
    {joined joined' : List LogicalLine} (hbefore : ofLines before = .ok joined)
    (hafter : ofLines after = .ok joined') (hline : isBalanced line = true)
    (hline' : isBalanced line' = true)
    (htokens : tokenize {} line' = tokenize {} line ++ [";"])
    (hlast : (tokenize {} line).getLast? ≠ some ";") :
    ∃ script script', Script.parse {} (before ++ [line] ++ after) = .ok script ∧
      Script.parse {} (before ++ [line'] ++ after) = .ok script' ∧
      (¬ Statement.IsPassedWhole {} (tokenize {} line) →
        ∀ options, script'.render options = script.render options) ∧
      (Statement.IsPassedWhole {} (tokenize {} line) → ∀ options : RenderOptions,
        script'.render options = (script.render options).map (·.set joined.length
          (options.style.topLevel (" ".intercalate (tokenize {} line ++ [";"])))) ∧
        ∀ texts, script.render options = some texts → texts[joined.length]? =
          some (options.style.topLevel (" ".intercalate (tokenize {} line)))) := by
  have hparse := Script.parse_eq_ok_iff.2 ⟨_, ofLines_insert hbefore hafter hline,
    Script.extend_append (v := {}) {} joined _⟩
  have hparse' := Script.parse_eq_ok_iff.2 ⟨_, ofLines_insert hbefore hafter hline',
    Script.extend_append (v := {}) {} joined _⟩
  rw [Script.extend_append] at hparse hparse'
  refine ⟨_, _, hparse, hparse', ?_⟩
  obtain ⟨hs, hc⟩ := Script.extend_empty {} joined
  have hlen : (Script.extend {} {} joined).statements.length = joined.length := by
    rw [Script.length_statements_extend]
    exact Nat.zero_add _
  have hv : ({} : Vocabulary).isOperator ";" = false := by decide
  have htokens : tokenize {} (LogicalLine.mk line' (1 + before.length) 1).text =
      tokenize {} (LogicalLine.mk line (1 + before.length) 1).text ++ [";"] := htokens
  rw [← hlen]
  exact ⟨fun h options => Script.render_of_not_isPassedWhole hv hs hc htokens hlast _ options rfl h,
    fun h options => Script.render_of_isPassedWhole hv hs hc htokens hlast _ options h⟩

/-- Between a function and its call: an array that ends in `;` and a comment, and words that
    end in `;`. -/
theorem render_terminator_shapes :
    (∃ script script',
      Script.parse {} (["f = @(x) x + 1"] ++ ["a = [1 2; 3 4]"] ++ ["y = f(2)"]) = .ok script ∧
      Script.parse {} (["f = @(x) x + 1"] ++ ["a = [1 2; 3 4]; % done"] ++ ["y = f(2)"]) =
        .ok script' ∧
      ∀ options, script'.render options = script.render options) ∧
    ∃ script script',
      Script.parse {} (["f = @(x) x + 1"] ++ ["hold on"] ++ ["y = f(2)"]) = .ok script ∧
      Script.parse {} (["f = @(x) x + 1"] ++ ["hold on;"] ++ ["y = f(2)"]) = .ok script' ∧
      ∀ options, script'.render options = (script.render options).map
        (·.set 1 (options.style.topLevel "hold on ;")) := by
  have hbefore : ofLines ["f = @(x) x + 1"] = .ok [⟨"f = @(x) x + 1", 1, 1⟩] := by decide +kernel
  have hafter : ofLines ["y = f(2)"] = .ok [⟨"y = f(2)", 1, 1⟩] := by decide +kernel
  constructor
  · have htokens : tokenize {} "a = [1 2; 3 4]" =
        ["a", "=", "[", "1", "2", ";", "3", "4", "]"] := by decide +kernel
    have hline : isBalanced "a = [1 2; 3 4]" = true := by decide +kernel
    have hline' : isBalanced "a = [1 2; 3 4]; % done" = true := by decide +kernel
    obtain ⟨script, script', hparse, hparse', hsame, -⟩ := render_terminator hbefore hafter hline
      hline' (by rw [htokens]; decide +kernel) (by rw [htokens]; decide)
    exact ⟨script, script', hparse, hparse', hsame (by rw [htokens]; decide +kernel)⟩
  · have htokens : tokenize {} "hold on" = ["hold", "on"] := by decide +kernel
    have hline : isBalanced "hold on" = true := by decide +kernel
    have hline' : isBalanced "hold on;" = true := by decide +kernel
    obtain ⟨script, script', hparse, hparse', -, hset⟩ := render_terminator hbefore hafter hline
      hline' (by rw [htokens]; decide +kernel) (by rw [htokens]; decide)
    refine ⟨script, script', hparse, hparse', fun options => ?_⟩
    rw [(hset (by rw [htokens]; decide +kernel) options).1, htokens]
    rfl

/-- **Not every `;` at the end of a line is dropped**: that of `disp x y;` is written. -/
theorem render_terminator_ne :
    isBalanced "disp x y" = true ∧ isBalanced "disp x y;" = true ∧
      tokenize {} "disp x y" = ["disp", "x", "y"] ∧
      tokenize {} "disp x y;" = ["disp", "x", "y"] ++ [";"] ∧
      (Script.parse {} ["disp x y"]).toOption.bind (·.render {}) = some ["$disp x y$ \\par"] ∧
      (Script.parse {} ["disp x y;"]).toOption.bind (·.render {}) =
        some ["$disp x y ;$ \\par"] := by
  refine ⟨?_, ?_, ?_, ?_, ?_, ?_⟩
  all_goals decide +kernel

end FormulaSheet
