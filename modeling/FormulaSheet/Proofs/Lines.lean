/-
  Adding lines to a script.

  * `Script.extend`: a script with the statements of more lines.  What has been
    noted before does not matter, so reading is extending the empty script
    (`parse_eq`).
  * `Script.Begins a b`: `b` has all that `a` has, and maybe more behind it.
    Lines only add (`begins_extend`).
  * `addLines_renames`: lines with the same tokens do the same to a script whose
    elements are at other positions.
  * `Renaming.same`: every element stays where it is, and all source texts have
    some property.
  * `Renaming.shift`: elements from some position on make room for others.  In a
    closed script nothing refers to them (`Closed.renames_shift`).
-/
import FormulaSheet.Proofs.Expansion
import FormulaSheet.Proofs.Simulation

namespace FormulaSheet

open Store

variable {ρ : Renaming} {v : Vocabulary}

/-! ## Lines do the same elsewhere -/

/-- The registry knows the same names. -/
theorem Registry.declaring_rename (f : ElementId → ElementId) (registry : Registry)
    (declared : Option String) (id : ElementId) :
    (registry.rename f).declaring declared (f id) = (registry.declaring declared id).rename f := by
  unfold declaring insert?
  cases declared with
  | none => rfl
  | some name =>
    dsimp only
    rw [get?_rename]
    cases registry.get? name with
    | none => simp [rename]
    | some first => rfl

/-- The same elements, names and statements in both scripts, apart from the
    statements that they began with. -/
structure Script.Renames (ρ : Renaming) (before before' : List ElementId)
    (script script' : Script) : Prop where
  store : script.store.Renames ρ script.store.size script'.store
  registry : script'.registry = script.registry.rename ρ
  statements : ∃ ids, script.statements = before ++ ids ∧
    script'.statements = before' ++ ids.map ρ

namespace Script

/-- A line does the same to both scripts. -/
theorem addLine_renames {before before' : List ElementId} {state state' : Script × Log}
    (h : state.1.Renames ρ before before' state'.1) {l l' : LogicalLine} (hl : l.Like ρ v l') :
    (addLine v state l).1.Renames ρ before before' (addLine v state' l').1 := by
  refine addLine_of_ensures (P := fun a => a.Renames ρ before before' (addLine v state' l').1)
    (Q := fun r w => ∀ w' : Workspace, w'.store = state'.1.store →
      (Statement.read v state'.1.registry l').Ensures w' fun r' v' =>
        r' = Prod.map ρ id r ∧ w.store.Renames ρ w.store.size v'.store) ?_ ?_
  · intro w hw w' hw'
    have hs : w.store.Renames ρ w.store.size w'.store := by
      rw [hw, hw']
      exact h.store
    rw [h.registry]
    exact Statement.read_agree hl hs
  · intro id declared w hread
    refine addLine_of_ensures hread ?_
    rintro _ _ w' ⟨⟨⟩, hs⟩
    obtain ⟨ids, hids, hids'⟩ := h.statements
    refine ⟨hs, ?_, ids ++ [id], ?_, ?_⟩
    · rw [h.registry]
      exact Registry.declaring_rename ρ state.1.registry declared id
    · rw [hids, List.append_assoc]
    · rw [hids', List.append_assoc, List.map_append]
      rfl

theorem addLines_renames {before before' : List ElementId} {lines lines' : List LogicalLine}
    (hl : List.Forall₂ (LogicalLine.Like ρ v) lines lines') {state state' : Script × Log}
    (h : state.1.Renames ρ before before' state'.1) :
    (lines.foldl (addLine v) state).1.Renames ρ before before'
      (lines'.foldl (addLine v) state').1 := by
  induction hl generalizing state state' with
  | nil => exact h
  | cons hl _ ih => exact ih (addLine_renames h hl)

end Script

/-! ## The log -/

/-- Every element stays where it is, on its line. -/
def Renaming.refl : Renaming where
  position := id
  injective := Function.injective_id
  line := Eq

theorem Element.like_refl_iff {known : Prop} {e e' : Element} :
    e.Like .refl known e' ↔ e' = e := by
  have hkind : ∀ kind : Kind, kind.rename Renaming.refl = kind :=
    fun kind => Kind.rename_eq_self fun _ _ => rfl
  have hid : ∀ id : Option ElementId, id.map Renaming.refl = id := fun id => by cases id <;> rfl
  constructor
  · intro h
    obtain ⟨raw, line, rfl⟩ := h.eq
    obtain rfl : raw = e.raw := (h.raw (Or.inl trivial)).1
    obtain rfl : e.line = line := h.line
    rw [hkind, hid]
  · rintro rfl
    exact ⟨(hkind _).symm, fun _ _ => trivial, fun _ => ⟨rfl, trivial⟩, rfl, (hid _).symm, rfl⟩

namespace Store

theorem ext {s s' : Store} (hsize : s'.size = s.size) (hget : ∀ id, s'.get id = s.get id) :
    s' = s := by
  obtain ⟨elements⟩ := s
  obtain ⟨elements'⟩ := s'
  refine congrArg Store.mk (Array.ext hsize fun i hi hi' => ?_)
  have h := hget i
  simpa [get, Array.getD_eq_getD_getElem?, hi, hi'] using h

theorem renames_refl_iff {n : Nat} {s s' : Store} : s.Renames .refl n s' ↔ s' = s := by
  constructor
  · intro h
    exact ext h.size_eq.symm fun id => Element.like_refl_iff.1 (h.get id)
  · rintro rfl
    exact ⟨fun _ => rfl, fun id => Element.like_refl_iff.2 rfl⟩

end Store

namespace Script

theorem renames_refl_iff {script script' : Script} :
    script.Renames .refl [] [] script' ↔ script' = script := by
  have hentries : ∀ registry : Registry, registry.rename Renaming.refl = registry :=
    fun registry => congrArg Registry.mk (List.map_id _)
  constructor
  · rintro ⟨hstore, hregistry, ids, hids, hids'⟩
    obtain ⟨store, statements, registry⟩ := script
    obtain ⟨store', statements', registry'⟩ := script'
    obtain rfl := Store.renames_refl_iff.1 hstore
    obtain rfl := hregistry.trans (hentries _)
    obtain rfl : statements = ids := hids
    obtain rfl : statements' = statements := hids'.trans (List.map_id statements)
    rfl
  · rintro rfl
    refine ⟨Store.renames_refl_iff.2 rfl, (hentries _).symm, script'.statements, rfl, ?_⟩
    exact (List.map_id _).symm

/-- The script with the statements of more lines. -/
def extend (v : Vocabulary) (script : Script) (lines : List LogicalLine) : Script :=
  (lines.foldl (addLine v) (script, #[])).1

/-- What has been noted does not matter. -/
theorem foldl_addLine (script : Script) (log : Log) (lines : List LogicalLine) :
    (lines.foldl (addLine v) (script, log)).1 = script.extend v lines := by
  have hlines : List.Forall₂ (LogicalLine.Like .refl v) lines lines :=
    List.forall₂_same.2 fun l _ => ⟨rfl, fun _ _ => trivial, fun _ => ⟨rfl, trivial⟩, rfl⟩
  exact renames_refl_iff.1 (addLines_renames hlines (renames_refl_iff.2 rfl))

theorem extend_append (script : Script) (lines more : List LogicalLine) :
    script.extend v (lines ++ more) = (script.extend v lines).extend v more := by
  rw [extend, List.foldl_append]
  exact foldl_addLine _ _ more

/-- Reading is extending the empty script. -/
theorem parse_eq (v : Vocabulary) (lines : List String) :
    parse v lines = (LogicalLine.ofLines lines).map (extend v {}) := by
  unfold parse read LogicalLine.ofLines
  split
  · rename_i joined failure h
    rw [h]
    rfl
  · rename_i joined h
    rw [h]
    exact congrArg Except.ok (foldl_addLine _ _ joined)

theorem parse_eq_ok_iff {lines : List String} {script : Script} :
    parse v lines = .ok script ↔
      ∃ joined, LogicalLine.ofLines lines = .ok joined ∧ extend v {} joined = script := by
  rw [parse_eq]
  cases LogicalLine.ofLines lines with
  | error failure => simp [Except.map]
  | ok joined => simp [Except.map]

/-- Every line adds one statement. -/
theorem length_statements_extend (script : Script) (lines : List LogicalLine) :
    (script.extend v lines).statements.length = script.statements.length + lines.length := by
  induction lines generalizing script with
  | nil => rfl
  | cons l lines ih =>
    have hone : (script.extend v [l]).statements.length = script.statements.length + 1 :=
      List.length_append
    rw [← List.singleton_append, extend_append, ih, hone, List.length_append,
      List.length_singleton, Nat.add_assoc]

theorem extend_sound {script : Script} (h : script.Sound) (lines : List LogicalLine) :
    (script.extend v lines).Sound :=
  addLines_of_addLine (fun _ l h => addLine_sound h l) lines h

theorem extend_closed {script : Script} (hs : script.Sound) (hc : script.Closed)
    (lines : List LogicalLine) : (script.extend v lines).Closed :=
  (addLines_of_addLine (P := fun script => script.Sound ∧ script.Closed)
    (fun _ l h => ⟨addLine_sound h.1 l, addLine_closed h.1 h.2 l⟩) lines ⟨hs, hc⟩).2

end Script

/-! ## Lines only add -/

theorem Store.Extends.of_kept {s s' : Store} (hsize : s.size ≤ s'.size)
    (hkept : ∀ id < s.size, s'.get id = s.get id) : s.Extends s' := by
  rw [Extends, List.prefix_iff_getElem?]
  intro i hi
  rw [Array.length_toList] at hi
  have hi' : i < s'.elements.size := Nat.lt_of_lt_of_le hi hsize
  have h := hkept i hi
  rw [Store.get, Store.get, Array.getD_eq_getD_getElem?, Array.getD_eq_getD_getElem?,
    Array.getElem?_eq_getElem hi, Array.getElem?_eq_getElem hi'] at h
  simpa [hi'] using h

/-- All of `a` stands at the beginning of `b`. -/
structure Script.Begins (a b : Script) : Prop where
  store : a.store.elements.toList <+: b.store.elements.toList
  statements : a.statements <+: b.statements
  registry : a.registry.entries <+: b.registry.entries

namespace Script

theorem Begins.refl (a : Script) : a.Begins a :=
  ⟨List.prefix_refl _, List.prefix_refl _, List.prefix_refl _⟩

theorem Begins.trans {a b c : Script} (h : a.Begins b) (h' : b.Begins c) : a.Begins c :=
  ⟨List.IsPrefix.trans h.store h'.store, List.IsPrefix.trans h.statements h'.statements,
    List.IsPrefix.trans h.registry h'.registry⟩

theorem addLine_begins {state : Script × Log} (hs : state.1.Sound) (l : LogicalLine) :
    state.1.Begins (addLine v state l).1 := by
  refine addLine_of_ensures (P := state.1.Begins)
    (Q := fun r w => AddsStatement state.1.store w.store r.1) (fun w hw => ?_) ?_
  · rw [← hw]
    exact read_addsStatement (hw ▸ hs.names) v l
  · intro id declared w hread
    refine ⟨Store.Extends.of_kept hread.size_le hread.kept, List.prefix_append _ _, ?_⟩
    rcases state.1.registry.declaring_cases declared id with ⟨he, -⟩ | ⟨name, -, -, he⟩
    · exact ⟨[], by rw [he, List.append_nil]⟩
    · rw [he]
      exact List.prefix_append _ _

/-- **Lines only add to a script.** -/
theorem begins_extend {script : Script} (hs : script.Sound) (lines : List LogicalLine) :
    script.Begins (script.extend v lines) :=
  (addLines_of_addLine (P := fun b => b.Sound ∧ script.Begins b)
    (fun _ l h => ⟨addLine_sound h.1 l, h.2.trans (addLine_begins h.1 l)⟩) lines
    ⟨hs, .refl script⟩).2

end Script

/-! ## The same tokens -/

/-- Every element stays where it is.  All source texts have the property `P`, and
    those of declarations may differ. -/
def Renaming.same (P : String → Prop) (hP : Joinable P) : Renaming where
  position := id
  injective := Function.injective_id
  line _ _ := True
  text := P
  joinable := hP
  verbatim := False

section

variable {P : String → Prop} {hP : Joinable P}

theorem LogicalLine.like_same {l l' : LogicalLine}
    (h : Token.tokenize v l'.text = Token.tokenize v l.text)
    (ht : ∀ token ∈ Token.tokenize v l.text, P token) : l.Like (.same P hP) v l' :=
  ⟨h, ht, nofun, trivial⟩

namespace Script

theorem renames_empty : Script.Renames (.same P hP) [] [] {} {} := by
  refine ⟨⟨fun _ => rfl, fun id => ?_⟩, rfl, [], rfl, rfl⟩
  rw [get_of_size_le (Nat.zero_le _), get_of_size_le (Nat.zero_le _)]
  exact Element.like_absent trivial

/-- Lines with the same tokens are read as the same script, up to the source texts of
    declarations. -/
theorem extend_renames {lines lines' : List LogicalLine}
    (h : List.Forall₂ (LogicalLine.Like (.same P hP) v) lines lines') :
    (extend v {} lines).Renames (.same P hP) [] [] (extend v {} lines') :=
  addLines_renames h renames_empty

end Script

end

/-! ## Making room -/

/-- The elements from `n` on make room for `m` others. -/
def Renaming.shift (n m : Nat) : Renaming where
  position id := if id < n then id else id + m
  injective := by
    intro (x : Nat) (y : Nat) (h : (if x < n then x else x + m) = if y < n then y else y + m)
    show x = y
    split at h <;> split at h <;> omega
  line _ _ := True
  verbatim := False

variable {n m : Nat}

theorem Renaming.shift_of_lt {id : Nat} (h : id < n) : shift n m id = id :=
  if_pos h

theorem Renaming.shift_of_le {id : Nat} (h : n ≤ id) : shift n m id = id + m :=
  if_neg (Nat.not_lt.2 h)

theorem LogicalLine.like_shift {l l' : LogicalLine}
    (h : Token.tokenize v l'.text = Token.tokenize v l.text) : l.Like (.shift n m) v l' :=
  ⟨h, fun _ _ => trivial, nofun, trivial⟩

/-- An element that refers to nothing from `n` on is the same. -/
theorem Element.Within.like_shift {e : Element} (h : e.Within n) {known : Prop} :
    e.Like (.shift n m) known e := by
  refine ⟨(Kind.rename_eq_self fun id hid => Renaming.shift_of_lt (h.links id hid)).symm,
    fun _ _ => trivial, fun _ => ⟨rfl, trivial⟩, rfl, ?_, trivial⟩
  cases ho : e.owner with
  | none => rfl
  | some owner => exact congrArg some (Renaming.shift_of_lt (h.owner owner ho)).symm

namespace Store

theorem Extends.size_le {s s' : Store} (h : s.Extends s') : s.size ≤ s'.size := by
  have := List.IsPrefix.length_le h
  rwa [Array.length_toList, Array.length_toList] at this

/-- Nothing in a closed store refers to what is added to it. -/
theorem Closed.renames_shift {s s' : Store} (hc : s.Closed) (h : s.Extends s') :
    s.Renames (.shift s.size (s'.size - s.size)) n s' := by
  have hsize := h.size_le
  refine ⟨fun k => ?_, fun id => ?_⟩
  · rw [Renaming.shift_of_le (Nat.le_add_right _ _)]
    show s.size + k + (s'.size - s.size) = s'.size + k
    omega
  · by_cases hlt : id < s.size
    · rw [Renaming.shift_of_lt hlt, h.get hlt]
      exact (hc id).like_shift
    · have hle := Nat.not_lt.1 hlt
      rw [Renaming.shift_of_le hle, get_of_size_le hle, get_of_size_le (by omega)]
      exact Element.like_absent trivial

end Store

namespace Script

theorem Closed.registry_shift {script : Script} (hc : script.Closed) (hn : script.store.size ≤ n) :
    script.registry.rename (Renaming.shift n m) = script.registry := by
  refine congrArg Registry.mk ((List.map_congr_left fun entry hentry => ?_).trans (List.map_id _))
  rw [Renaming.shift_of_lt (Nat.lt_of_lt_of_le (hc.registry entry hentry) hn)]
  rfl

/-- A script to which no name has been added. -/
theorem Closed.renames_shift {a b : Script} (hc : a.Closed) (h : a.Begins b)
    (hr : b.registry = a.registry) :
    a.Renames (.shift a.store.size (b.store.size - a.store.size)) a.statements b.statements b :=
  ⟨hc.store.renames_shift h.store, by rw [hr, hc.registry_shift (Nat.le_refl _)], [], by simp,
    by simp⟩

end Script

end FormulaSheet
