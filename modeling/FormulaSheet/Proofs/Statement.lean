/-
  Statements: what one line adds to a script.

  * `IsStatement s id all`: `id` is a finished statement with the elements
    `all`: a line without declaration, the declaration of a value, or that of a
    function, whose calls lead to earlier functions or to itself.
  * `AddsStatement s s' id`: `s'` is `s` with one more statement; what was there
    before is the same, and the only function that is new is declared by it.
  * `ReadsLine registry s s' result`: what reading a line does to the store, step
    by step; `read_addsStatement`: it adds one statement.
-/
import FormulaSheet.Proofs.Owners
import FormulaSheet.Proofs.Reading
import FormulaSheet.Script

namespace FormulaSheet

/-! ## Tokens -/

/-- The kinds of tokens. -/
def Kind.isToken : Kind → Bool
  | value _ | name _ | operator _ _ none none | assignment | delimiter _ _ | semicolon | comma
  | functionMarker | error (.unrecognizedToken _) [] => true
  | _ => false

/-- An element as it is classified. -/
structure Element.IsToken (e : Element) : Prop where
  kind : e.kind.isToken = true
  unsealed : e.sealed = false
  unowned : e.owner = none

instance (e : Element) : Decidable e.IsToken :=
  decidable_of_iff (e.kind.isToken = true ∧ e.sealed = false ∧ e.owner = none)
    ⟨fun ⟨hk, hs, ho⟩ => ⟨hk, hs, ho⟩, fun ⟨hk, hs, ho⟩ => ⟨hk, hs, ho⟩⟩

theorem Element.IsToken.fresh {e : Element} (h : e.IsToken) : e.Fresh := by
  refine ⟨?_, h.unsealed⟩
  have hk := h.kind
  unfold Kind.isToken at hk
  split at hk <;> simp_all [Kind.children]

theorem Element.IsToken.inTerm {e : Element} (h : e.IsToken) (s : Store)
    (targets : ElementId → Prop) : e.InTerm s targets := by
  have hk := h.kind
  unfold Element.InTerm
  cases hkind : e.kind with
  | error fault ids => exact h.fresh.error fault ids hkind
  | _ => simp_all [Kind.isToken]

theorem Kind.isToken_ofStructural? {c : Char} {kind : Kind}
    (h : Kind.ofStructural? c = some kind) : kind.isToken = true := by
  unfold Kind.ofStructural? at h
  split at h <;> cases h <;> rfl

theorem Kind.isToken_ofToken (v : Vocabulary) (previous : Option Kind) (token : String) :
    (Kind.ofToken v previous token).isToken = true := by
  unfold Kind.ofToken Kind.recognize
  split
  · rename_i kind hk
    split at hk
    · cases hk; rfl
    · split at hk
      · split at hk <;> cases hk
        rfl
      · split at hk
        · cases hk; rfl
        · split at hk
          · rename_i hs
            cases hk
            obtain ⟨c, -, hc⟩ := Option.bind_eq_some_iff.1 hs
            exact isToken_ofStructural? hc
          · cases hk
  · rename_i fault hk
    split at hk
    · cases hk
    · split at hk
      · split at hk <;> cases hk
        rfl
      · split at hk
        · cases hk
        · split at hk <;> cases hk
          rfl

theorem isToken_of_mem_classify {v : Vocabulary} {line : Nat} {previous : Option Kind}
    {tokens : List String} {e : Element} (h : e ∈ classify v line previous tokens) : e.IsToken := by
  induction tokens generalizing previous with
  | nil => cases h
  | cons token tokens ih =>
    rcases List.mem_cons.1 h with rfl | h
    · exact ⟨Kind.isToken_ofToken v previous token, rfl, rfl⟩
    · exact ih h

/-- A name holds no parenthesis, so that the name before one is known. -/
def Kind.HasPlainName (kind : Kind) : Prop :=
  ∀ name, kind = .name name → '(' ∉ name.toList

theorem Kind.hasPlainName_ofToken (v : Vocabulary) (previous : Option Kind) (token : String) :
    (ofToken v previous token).HasPlainName := by
  intro name hk hm
  unfold ofToken recognize at hk
  split at hk
  · rename_i kind hr
    subst hk
    split at hr
    · cases hr
    · split at hr
      · split at hr <;> cases hr
      · split at hr
        · rename_i hv
          cases hr
          simp only [Vocabulary.isVariable, Bool.and_eq_true, Bool.not_eq_true', List.any_eq_false]
            at hv
          exact hv.2 '(' hm (by simp [Vocabulary.isKeyword, Vocabulary.structural])
        · split at hr
          · rename_i hs
            cases hr
            obtain ⟨c, -, hc⟩ := Option.bind_eq_some_iff.1 hs
            unfold ofStructural? at hc
            split at hc <;> cases hc
          · cases hr
  · cases hk

theorem hasPlainName_of_mem_classify {v : Vocabulary} {line : Nat} {previous : Option Kind}
    {tokens : List String} {e : Element} (h : e ∈ classify v line previous tokens) :
    e.kind.HasPlainName := by
  induction tokens generalizing previous with
  | nil => cases h
  | cons token tokens ih =>
    rcases List.mem_cons.1 h with rfl | h
    · exact Kind.hasPlainName_ofToken v previous token
    · exact ih h

namespace Store

/-- The tokens of a line have been added. -/
structure Places (s s' : Store) (ids : List ElementId) : Prop where
  size_le : s.size ≤ s'.size
  kept : ∀ id < s.size, s'.get id = s.get id
  token : ∀ id, s.size ≤ id → id < s'.size → (s'.get id).IsToken ∧ (s'.kind id).HasPlainName
  apart : Apart (s.size ≤ ·) s' ids

end Store

open Store

/-- One element is added before the others, whatever is noted about it. -/
theorem ensures_place_cons {e : Element} {elements : List Element} {w : Workspace}
    {Q : List ElementId → Workspace → Prop}
    (h : ∀ log, (place elements).Ensures ⟨w.store.push e, log⟩ fun ids w' =>
      Q (w.store.size :: ids) w') : (place (e :: elements)).Ensures w Q := by
  rw [place]
  split
  · exact h _
  · exact h _

theorem place_places {elements : List Element}
    (h : ∀ e ∈ elements, e.IsToken ∧ e.kind.HasPlainName) (w : Workspace) :
    (place elements).Ensures w fun ids w' => Places w.store w'.store ids := by
  induction elements generalizing w with
  | nil =>
    show Places w.store w.store []
    refine ⟨Nat.le_refl _, fun _ _ => rfl, fun id hid hid' => ?_, .nil, by simp⟩
    exact absurd hid' (Nat.not_lt.2 hid)
  | cons e elements ih =>
    obtain ⟨he, helements⟩ := List.forall_mem_cons.1 h
    refine ensures_place_cons fun log => (ih helements ⟨w.store.push e, log⟩).imp ?_
    rintro ids w' ⟨hsize, hkept, htoken, hnodup, hmem⟩
    dsimp only at hsize hkept htoken hmem
    rw [size_push] at hsize hkept htoken hmem
    refine ⟨Nat.le_of_succ_le hsize, fun id hid => ?_, fun id hid hid' => ?_, ?_, fun id hid => ?_⟩
    · rw [hkept id (Nat.lt_succ_of_lt hid), get_push_of_lt e hid]
    · rcases Nat.lt_or_eq_of_le hid with hlt | rfl
      · exact htoken id hlt hid'
      · rw [kind, hkept _ (Nat.lt_succ_self _), get_push_size]
        exact he
    · exact List.nodup_cons.2 ⟨fun hm => Nat.lt_irrefl _ (hmem _ hm).2, hnodup⟩
    · rcases List.mem_cons.1 hid with rfl | hid
      · exact ⟨hsize, Nat.le_refl _⟩
      · exact ⟨(hmem id hid).1, Nat.le_of_succ_le (hmem id hid).2⟩

/-! ## Statements -/

namespace Store

/-- A function with its body. -/
def IsFunction (s : Store) (f : ElementId) : Prop :=
  ∃ parameters body, s.kind f = .function parameters (some body)

/-- A finished statement with its elements. -/
inductive IsStatement (s : Store) : ElementId → List ElementId → Prop
  | line {id : ElementId} (hk : s.kind id = .blank ∨ s.kind id = .passThrough) :
      IsStatement s id [id]
  | value {id target content : ElementId} {form : Form} {name : String} {all : List ElementId}
      (hk : s.kind id = .declaration target content form) (ht : s.kind target = .name name)
      (hb : Body s.IsFunction s content all)
      (hform : form = .plain ∨ form = .array ∧ ∃ cells, s.kind content = .array cells) :
      IsStatement s id (id :: target :: all)
  | function {id target f body : ElementId} {name : String} {parameters all : List ElementId}
      (hk : s.kind id = .declaration target f .function) (ht : s.kind target = .name name)
      (hf : s.kind f = .function parameters (some body))
      (hp : ∀ p ∈ parameters, ∃ name, s.kind p = .name name)
      (hb : Body (fun g => s.IsFunction g ∧ g ≤ f) s body all) :
      IsStatement s id (id :: target :: f :: (parameters ++ all))

namespace IsStatement

variable {s s' : Store} {id : ElementId} {all : List ElementId}

theorem forest_name {p : ElementId} {name : String} (h : s.kind p = .name name) :
    Forest s [p] [p] :=
  .of_leaves fun x hx => by rw [List.mem_singleton.1 hx, h]; rfl

/-- The elements of a statement are its tree. -/
theorem forest (h : IsStatement s id all) : Forest s [id] all := by
  cases h with
  | line hk =>
    refine .of_leaves fun x hx => ?_
    rw [List.mem_singleton.1 hx]
    rcases hk with hk | hk <;> rw [hk] <;> rfl
  | value hk ht hb hform =>
    refine .singleton ?_
    rw [hk]
    exact (forest_name ht).append hb.forest
  | @function target f body name parameters all hk ht hf hp hb =>
    have hparameters : Forest s parameters parameters := .of_leaves fun p hm => by
      obtain ⟨name, hname⟩ := hp p hm
      rw [hname]
      rfl
    have hfunction : Forest s [f] (f :: (parameters ++ all)) := by
      refine .singleton ?_
      rw [hf]
      exact hparameters.append hb.forest
    refine .singleton ?_
    rw [hk]
    exact (forest_name ht).append hfunction

theorem mem_self (h : IsStatement s id all) : id ∈ all :=
  h.forest.subset List.mem_cons_self

/-- A statement depends on its own elements and on the functions it calls. -/
theorem congr (h : IsStatement s id all)
    (hk : ∀ x ∈ all, s'.kind x = s.kind x ∧ (s'.get x).sealed = (s.get x).sealed)
    (hf : ∀ f, s.IsFunction f → s'.IsFunction f) : IsStatement s' id all := by
  cases h with
  | line hline => exact .line (by rwa [(hk id List.mem_cons_self).1])
  | @value target content form name all hdecl ht hb hform =>
    have hroot := hb.forest.subset List.mem_cons_self
    refine .value (by rwa [(hk id (by simp)).1]) (by rwa [(hk target (by simp)).1])
      ((hb.congr fun x hx => hk x (by simp [hx])).mono hf) ?_
    rwa [(hk content (by simp [hroot])).1]
  | @function target f body name parameters all hdecl ht hfun hp hb =>
    refine .function (by rwa [(hk id (by simp)).1]) (by rwa [(hk target (by simp)).1])
      (by rwa [(hk f (by simp)).1]) (fun p hm => ?_)
      ((hb.congr fun x hx => hk x (by simp [hx])).mono fun g hg => ⟨hf g hg.1, hg.2⟩)
    rw [(hk p (by simp [hm])).1]
    exact hp p hm

end IsStatement

theorem lt_size_of_isFunction {s : Store} {f : ElementId} (h : s.IsFunction f) : f < s.size := by
  obtain ⟨parameters, body, hk⟩ := h
  exact lt_size_of_kind (by simp [hk])

/-- The store with one more statement. -/
structure AddsStatement (s s' : Store) (id : ElementId) : Prop where
  size_le : s.size ≤ s'.size
  kept : ∀ x < s.size, s'.get x = s.get x
  statement : ∃ all, IsStatement s' id all ∧ Apart (s.size ≤ ·) s' all
  unowned : (s'.get id).owner = none
  /-- A new function is declared by the statement. -/
  functions : ∀ f parameters body, s.size ≤ f → s'.kind f = .function parameters body →
    ∃ target, s'.kind id = .declaration target f .function ∧ (s'.get f).owner = some id
  /-- A new error holds leaves. -/
  errors : ∀ x fault ids, s.size ≤ x → s'.kind x = .error fault ids →
    ∀ child ∈ ids, child < s'.size ∧ (s'.kind child).children = []

theorem not_function_of_inTerm {s : Store} {targets : ElementId → Prop} {e : Element}
    (h : e.InTerm s targets) (parameters : List ElementId) (body : Option ElementId) :
    e.kind ≠ .function parameters body := by
  intro hk
  unfold Element.InTerm at h
  rw [hk] at h
  exact h

theorem eq_nil_of_inTerm {s : Store} {targets : ElementId → Prop} {e : Element}
    (h : e.InTerm s targets) {fault : Fault} {ids : List ElementId}
    (hk : e.kind = .error fault ids) : ids = [] := by
  unfold Element.InTerm at h
  rw [hk] at h
  exact h

/-- The last element of a store with one more. -/
theorem eq_size_of_kind {s : Store} {e : Element} {x : ElementId} (hx : ¬ x < s.size)
    (hk : (s.push e).kind x ≠ .blank) : x = s.size := by
  refine Nat.le_antisymm (Nat.le_of_not_lt fun hlt => hk ?_) (Nat.not_lt.1 hx)
  rw [kind, get_of_size_le (by rw [size_push]; exact hlt)]
  rfl

/-- A line without declaration. -/
theorem Places.addsStatement {s s₁ : Store} {ids : List ElementId} (h : Places s s₁ ids)
    {e : Element} (he : e.kind = .blank ∨ e.kind = .passThrough) (ho : e.owner = none) :
    AddsStatement s (s₁.push e) s₁.size where
  size_le := by rw [size_push]; exact Nat.le_succ_of_le h.size_le
  kept x hx := by rw [get_push_of_lt e (Nat.lt_of_lt_of_le hx h.size_le), h.kept x hx]
  statement := by
    refine ⟨[s₁.size], .line (by rwa [kind, get_push_size]), by simp, fun x hx => ?_⟩
    rw [List.mem_singleton.1 hx, size_push]
    exact ⟨Nat.lt_succ_self _, h.size_le⟩
  unowned := by rw [get_push_size, ho]
  functions f parameters body hf hk := by
    by_cases hlt : f < s₁.size
    · rw [kind, get_push_of_lt e hlt] at hk
      exact absurd hk (not_function_of_inTerm ((h.token f hf hlt).1.inTerm s fun _ => False) _ _)
    · rw [eq_size_of_kind hlt (by rw [hk]; simp), kind, get_push_size] at hk
      rcases he with he | he <;> rw [he] at hk <;> cases hk
  errors x fault ids hx hk child hc := by
    by_cases hlt : x < s₁.size
    · rw [kind, get_push_of_lt e hlt] at hk
      rw [eq_nil_of_inTerm ((h.token x hx hlt).1.inTerm s fun _ => False) hk] at hc
      cases hc
    · rw [eq_size_of_kind hlt (by rw [hk]; simp), kind, get_push_size] at hk
      rcases he with he | he <;> rw [he] at hk <;> cases hk

/-- A declaration over a value is a statement. -/
theorem isStatement_declaration {n : Nat} {s : Store} {target content : ElementId} {form : Form}
    {name : String} {targets : ElementId → Prop} {e : Element}
    (hv : Term.Value n targets s [target] content form) (ht : s.kind target = .name name)
    (he : e.kind = .declaration target content form) (hn : n ≤ s.size)
    (htargets : ∀ f, targets f → f < n ∧ (s.push e).IsFunction f) :
    ∃ all, IsStatement (s.push e) s.size all ∧ Apart (n ≤ ·) (s.push e) all := by
  have hkept : ∀ x < s.size, (s.push e).kind x = s.kind x :=
    fun x hx => by rw [kind, get_push_of_lt e hx, kind]
  have hdecl : (s.push e).kind s.size = .declaration target content form := by
    rw [kind, get_push_size, he]
  cases hv with
  | @term _ all hb ha hin hform =>
    have hmem : ∀ x ∈ target :: all, x < s.size := fun x hx => (ha.mem x hx).1
    have htarget := (hkept target (hmem target List.mem_cons_self)).trans ht
    refine ⟨s.size :: target :: all, .value hdecl htarget ?_ ?_, ha.cons_push e hn⟩
    · refine (hb.congr fun x hx => ?_).mono fun f hf => (htargets f hf).2
      have hx := hmem x (List.mem_cons_of_mem _ hx)
      exact ⟨hkept x hx, by rw [get_push_of_lt e hx]⟩
    · rwa [hkept content (hmem content
        (List.mem_cons_of_mem _ (hb.forest.subset List.mem_cons_self)))]
  | @function body parameters all hk hp hb ha hin =>
    have hmem : ∀ x ∈ target :: content :: (parameters ++ all), x < s.size :=
      fun x hx => (ha.mem x hx).1
    have hcontent := hmem content (by simp)
    have hfunction : (s.push e).IsFunction content :=
      ⟨parameters, body, by rw [hkept _ hcontent, hk]⟩
    have htarget := (hkept target (hmem target List.mem_cons_self)).trans ht
    refine ⟨_, .function hdecl htarget ((hkept _ hcontent).trans hk) ?_ ?_, ha.cons_push e hn⟩
    · intro p hm
      rw [hkept p (hmem p (by simp [hm]))]
      exact hp p hm
    · refine (hb.congr fun x hx => ?_).mono fun f hf => ?_
      · have hx := hmem x (by simp [hx])
        exact ⟨hkept x hx, by rw [get_push_of_lt e hx]⟩
      · rcases hf with hf | rfl
        · obtain ⟨hlt, hf⟩ := htargets f hf
          exact ⟨hf, Nat.le_trans (Nat.le_of_lt hlt) (ha.mem content (by simp)).2⟩
        · exact ⟨hfunction, Nat.le_refl _⟩

theorem Body.not_function {targets : ElementId → Prop} {s : Store} {root : ElementId}
    {all : List ElementId} (h : Body targets s root all) (parameters : List ElementId)
    (body : Option ElementId) : s.kind root ≠ .function parameters body := by
  intro hk
  rcases h.finished with hc | ⟨fault, ids, hr, -⟩
  · exact not_function_of_inTerm (hc root (h.forest.subset List.mem_cons_self)).2 _ _ hk
  · rw [hr] at hk
    cases hk

/-- What an error at the root of a body holds. -/
theorem Body.leaf_of_error {targets : ElementId → Prop} {s : Store} {root : ElementId}
    {all : List ElementId} (h : Body targets s root all) {fault : Fault} {ids : List ElementId}
    (hk : s.kind root = .error fault ids) {child : ElementId} (hc : child ∈ ids) :
    child ∈ all ∧ (s.kind child).children = [] := by
  have hroot := h.forest.subset List.mem_cons_self
  refine ⟨?_, ?_⟩
  · obtain ⟨below, hb, hs⟩ := h.forest.children hroot
    rw [hk] at hb
    exact hs (hb.subset hc)
  · rcases h.finished with hall | ⟨fault', ids', hr, hleaf⟩
    · rw [eq_nil_of_inTerm (hall root hroot).2 hk] at hc
      cases hc
    · rw [hk] at hr
      cases hr
      exact (hleaf child hc).1

section Value

variable {n : Nat} {s : Store} {target content : ElementId} {form : Form}
  {targets : ElementId → Prop}

/-- Of what a line adds before its statement, at most the value is a
    function. -/
theorem eq_of_function (hv : Term.Value n targets s [target] content form) {f : ElementId}
    {parameters : List ElementId} {body : Option ElementId} (hn : n ≤ f) (hlt : f < s.size)
    (hk : s.kind f = .function parameters body) : f = content ∧ form = .function := by
  cases hv with
  | term hb ha hin hform =>
    by_cases he : f = content
    · subst he
      exact absurd hk (hb.not_function _ _)
    · exact absurd hk (not_function_of_inTerm (hin f hlt ⟨hn, he⟩) _ _)
  | @function root _ _ hkind hp hb ha hin =>
    refine ⟨?_, rfl⟩
    by_cases he : f = content
    · exact he
    · by_cases hroot : f = root
      · subst hroot
        exact absurd hk (hb.not_function _ _)
      · exact absurd hk (not_function_of_inTerm (hin f hlt ⟨⟨hn, he⟩, hroot⟩) _ _)

/-- Of what a line adds before its statement, at most the value or the body of a
    function is an error that holds anything. -/
theorem leaf_of_error (hv : Term.Value n targets s [target] content form) {x : ElementId}
    {fault : Fault} {ids : List ElementId} (hn : n ≤ x) (hlt : x < s.size)
    (hk : s.kind x = .error fault ids) {child : ElementId} (hc : child ∈ ids) :
    child < s.size ∧ (s.kind child).children = [] := by
  cases hv with
  | term hb ha hin hform =>
    by_cases he : x = content
    · subst he
      obtain ⟨hm, hleaf⟩ := hb.leaf_of_error hk hc
      exact ⟨(ha.mem child (by simp [hm])).1, hleaf⟩
    · rw [eq_nil_of_inTerm (hin x hlt ⟨hn, he⟩) hk] at hc
      cases hc
  | @function root _ _ hkind hp hb ha hin =>
    have hne : x ≠ content := by
      rintro rfl
      rw [hkind] at hk
      cases hk
    by_cases he : x = root
    · subst he
      obtain ⟨hm, hleaf⟩ := hb.leaf_of_error hk hc
      exact ⟨(ha.mem child (by simp [hm])).1, hleaf⟩
    · rw [eq_nil_of_inTerm (hin x hlt ⟨⟨hn, hne⟩, he⟩) hk] at hc
      cases hc

end Value

/-- The tokens of a declaration besides its `=`. -/
theorem Places.apart_rhs {s s₁ : Store} {ids rhs : List ElementId} {target : ElementId}
    (h : Places s s₁ ids) (hsub : (target :: rhs).Sublist ids) :
    Apart (s.size ≤ ·) s₁ (rhs ++ [target]) :=
  Apart.perm ⟨hsub.nodup h.apart.nodup, fun id hid => h.apart.mem id (hsub.subset hid)⟩
    (List.perm_append_singleton target rhs).symm

/-- They are the pool from which the value is read. -/
theorem Places.pool {s s₁ : Store} {ids rhs : List ElementId} {target : ElementId}
    (h : Places s s₁ ids) (hsub : (target :: rhs).Sublist ids) :
    Pool s₁ s₁ Element.Shaped (s.size ≤ ·) (rhs ++ [target]) [] := by
  have hap := h.apart_rhs hsub
  refine .of_fresh (fun id hid => ?_) hap.nodup fun id hid => Nat.le_trans h.size_le hid
  obtain ⟨hlt, hge⟩ := hap.mem id hid
  exact ⟨(h.token id hge hlt).1.fresh, hlt, hge⟩

section Declaration

variable {s s₁ s₂ : Store} {ids rhs : List ElementId}

/-- What a line adds has no owner before its statement is there. -/
theorem Places.unowned (h : Places s s₁ ids) (hb : Builds rhs s₁ s₂) {x : ElementId}
    (hx : s.size ≤ x) : (s₂.get x).owner = none := by
  rw [hb.owner x]
  by_cases hlt : x < s₁.size
  · exact (h.token x hx hlt).1.unowned
  · rw [get_of_size_le (Nat.not_lt.1 hlt)]
    rfl

/-- What was there before a line is the same after its value has been read. -/
theorem Places.kept_push (h : Places s s₁ ids) (hrhs : ∀ id ∈ rhs, s.size ≤ id)
    (hb : Builds rhs s₁ s₂) (e : Element) {x : ElementId} (hx : x < s.size) :
    (s₂.push e).get x = s.get x := by
  rw [get_push_of_lt e (Nat.lt_of_lt_of_le hx (Nat.le_trans h.size_le hb.size_le)),
    hb.kept x (Nat.lt_of_lt_of_le hx h.size_le) fun hm => Nat.not_lt.2 (hrhs x hm) hx, h.kept x hx]

variable {target content : ElementId} {form : Form} {name : String} {e : Element}

/-- The declaration that a line adds after its value is a statement. -/
theorem Places.isStatement (h : Places s s₁ ids) (hrhs : ∀ id ∈ rhs, s.size ≤ id)
    (hb : Builds rhs s₁ s₂) (hv : Term.Value s.size s.IsFunction s₂ [target] content form)
    (ht : s₂.kind target = .name name) (he : e.kind = .declaration target content form) :
    ∃ all, IsStatement (s₂.push e) s₂.size all ∧ Apart (s.size ≤ ·) (s₂.push e) all := by
  refine isStatement_declaration hv ht he (Nat.le_trans h.size_le hb.size_le) fun f hf => ?_
  have hlt := lt_size_of_isFunction hf
  obtain ⟨parameters, body, hk⟩ := hf
  exact ⟨hlt, parameters, body, by rw [kind, h.kept_push hrhs hb e hlt]; exact hk⟩

/-- A declaration. -/
theorem Places.addsDeclaration (h : Places s s₁ ids) (hrhs : ∀ id ∈ rhs, s.size ≤ id)
    (hb : Builds rhs s₁ s₂) (hv : Term.Value s.size s.IsFunction s₂ [target] content form)
    (ht : s₂.kind target = .name name) (he : e.kind = .declaration target content form)
    (ho : e.owner = none) :
    AddsStatement s ((s₂.push e).setOwners s₂.size) s₂.size := by
  have hsize : s.size ≤ s₂.size := Nat.le_trans h.size_le hb.size_le
  obtain ⟨all, hst, hap⟩ := h.isStatement hrhs hb hv ht he
  -- Owners are written inside the statement only.
  have hclosed : ∀ p, p ∈ all → ∀ child ∈ ((s₂.push e).kind p).children, child ∈ all := by
    intro p hp child hc
    obtain ⟨below, hbelow, hsub⟩ := hst.forest.children hp
    exact hsub (hbelow.subset hc)
  have hclaimed : Claimed s₂.size (· ∈ all) (s₂.push e) ((s₂.push e).setOwners s₂.size) :=
    setOwners_claimed hst.mem_self hclosed
  have hkind := hclaimed.kind_eq
  have hdecl : (s₂.push e).kind s₂.size = .declaration target content form := by
    rw [kind, get_push_size, he]
  refine ⟨?_, fun x hx => ?_, ⟨all, hst.congr (fun x _ => ⟨hkind x, hclaimed.sealed_eq x⟩) ?_, ?_⟩,
    ?_, fun f parameters body hf hk => ?_, fun x fault ids hx hk child hc => ?_⟩
  · rw [hclaimed.size_eq, size_push]
    exact Nat.le_succ_of_le hsize
  · rw [hclaimed.get_of_not fun hm => Nat.not_lt.2 (hap.mem x hm).2 hx,
      h.kept_push hrhs hb e hx]
  · rintro f ⟨parameters, body, hk⟩
    exact ⟨parameters, body, (hkind f).trans hk⟩
  · exact hap.mono (fun _ h => h) (Nat.le_of_eq hclaimed.size_eq.symm)
  · rw [hclaimed.get_root, get_push_size, ho]
  · rw [hkind] at hk ⊢
    have hlt : f < s₂.size := by
      by_contra hge
      rw [eq_size_of_kind hge (by rw [hk]; simp), hdecl] at hk
      cases hk
    rw [kind, get_push_of_lt e hlt] at hk
    obtain ⟨rfl, rfl⟩ := eq_of_function hv hf hlt hk
    refine ⟨target, hdecl, owner_setOwners hst.mem_self hclosed
      (by rw [hdecl]; simp [Kind.children]) ?_⟩
    rw [isFree, get_push_of_lt e hlt, h.unowned hb hf, size_push]
    simpa [Nat.ne_of_lt hlt] using Nat.lt_succ_of_lt hlt
  · rw [hkind] at hk ⊢
    have hlt : x < s₂.size := by
      by_contra hge
      rw [eq_size_of_kind hge (by rw [hk]; simp), hdecl] at hk
      cases hk
    rw [kind, get_push_of_lt e hlt] at hk
    obtain ⟨hchild, hleaf⟩ := leaf_of_error hv hx hlt hk hc
    rw [hclaimed.size_eq, size_push, kind, get_push_of_lt e hchild]
    exact ⟨Nat.lt_succ_of_lt hchild, hleaf⟩

end Declaration

end Store

/-! ## Lines -/

/-- Every declared name belongs to a statement. -/
def Registry.Names (registry : Registry) (s : Store) : Prop :=
  ∀ name id, registry.get? name = some id → id < s.size ∧ ∃ all, IsStatement s id all

/-- What a declared name refers to stays while declarations and functions
    stay. -/
theorem Registry.Names.callee_eq {registry : Registry} {s s' : Store} (h : registry.Names s)
    {c : Term.Context} (hc : c.registry = registry)
    (hk : ∀ x < s.size, s'.kind x = s.kind x ∨
      (s.kind x).isBinding = false ∧ (s'.kind x).isBinding = false) (name : String) :
    Term.callee c s' name = Term.callee c s name := by
  subst hc
  have kept : ∀ {x : ElementId}, (s.kind x).isBinding = true → s'.kind x = s.kind x := by
    intro x hb
    have hlt : x < s.size := lt_size_of_kind fun he => by
      rw [he] at hb
      cases hb
    exact (hk x hlt).resolve_right fun hn => by
      rw [hb] at hn
      cases hn.1
  cases hget : c.registry.get? name with
  | none =>
    unfold Term.callee
    rw [hget]
    rfl
  | some id =>
    obtain ⟨hlt, all, hst⟩ := h name id hget
    cases hst with
    | line hline =>
      have hb : (s.kind id).isBinding = false := by rcases hline with he | he <;> rw [he] <;> rfl
      have hb' : (s'.kind id).isBinding = false := by
        rcases hk id hlt with he | he
        · rw [he, hb]
        · exact he.2
      rw [Term.callee_of_not_isBinding hget hb', Term.callee_of_not_isBinding hget hb]
    | value hdecl ht hb hform =>
      unfold Term.callee
      rw [hget, Option.map_some, Option.map_some, kept (by rw [hdecl]; rfl), hdecl]
      rcases hform with rfl | ⟨rfl, -⟩
      · rfl
      · rfl
    | function hdecl ht hf hp hb =>
      unfold Term.callee
      rw [hget, Option.map_some, Option.map_some, kept (by rw [hdecl]; rfl), hdecl]
      dsimp only
      rw [kept (by rw [hf]; rfl)]

/-- A declared name calls a function. -/
theorem Registry.Names.isFunction {registry : Registry} {s : Store} (h : registry.Names s)
    {c : Term.Context} (hc : c.registry = registry) (hf : c.function = none) {name : String}
    {f : ElementId} (hcallee : Term.callee c s name = .function f) : s.IsFunction f := by
  subst hc
  rcases Term.callee_eq_function hcallee with ⟨id, target, parameters, body, hget, hk, -⟩ | ⟨-, hin⟩
  · obtain ⟨-, all, hst⟩ := h name id hget
    cases hst with
    | line hline => rcases hline with he | he <;> rw [he] at hk <;> cases hk
    | value hdecl ht hb hform =>
      rw [hdecl] at hk
      cases hk
      rcases hform with hform | hform
      · cases hform
      · cases hform.1
    | function hdecl ht hf hp hb =>
      rw [hdecl] at hk
      cases hk
      exact ⟨_, _, hf⟩
  · rw [hf] at hin
    cases hin

/-- While a line is read, names call functions of the statements before it. -/
theorem Registry.Names.settled {registry : Registry} {s s₁ : Store} {ids : List ElementId}
    (h : registry.Names s) (hp : Places s s₁ ids) (v : Vocabulary) (line : Nat) :
    Term.Settled s.IsFunction { vocabulary := v, registry, line } s₁ := by
  intro ids' s' hl name f hcallee
  rw [h.callee_eq rfl fun x hx => ?_] at hcallee
  · exact h.isFunction rfl rfl hcallee
  · have hr := hl.retouched x (Nat.lt_of_lt_of_le hx hp.size_le)
    rw [hp.kept x hx] at hr
    exact hr.isBinding

theorem dropTerminator_sublist (s : Store) (ids : List ElementId) :
    (Statement.dropTerminator s ids).Sublist ids := by
  unfold Statement.dropTerminator
  split
  · split
    · exact List.dropLast_sublist ids
    · exact List.Sublist.refl _
  · exact List.Sublist.refl _

/-- What reading a line does to the store: its tokens are placed and then its
    statement is added; a declaration comes after its value, and owners are
    written below it.  The result is the statement and the name it declares. -/
inductive Store.ReadsLine (registry : Registry) (s : Store) :
    Store → ElementId × Option String → Prop
  | plain {s₁ : Store} {ids : List ElementId} {e : Element} (h : Places s s₁ ids)
      (he : e.kind = .blank ∨ e.kind = .passThrough) (ho : e.owner = none) :
      ReadsLine registry s (s₁.push e) (s₁.size, none)
  | declaration {s₁ s₂ : Store} {c : Term.Context} {ids rhs : List ElementId}
      {target content : ElementId} {form : Form} {name : String} {e : Element}
      (h : Places s s₁ ids) (hrhs : ∀ id ∈ rhs, s.size ≤ id ∧ id < s₁.size) (hb : Builds rhs s₁ s₂)
      (hc : c.registry = registry ∧ c.function = none)
      (hr : Term.Reads c name rhs s₁ s₂ content form)
      (hv : Term.Value s.size s.IsFunction s₂ [target] content form)
      (ht : s₂.kind target = .name name) (he : e.kind = .declaration target content form)
      (ho : e.owner = none) :
      ReadsLine registry s ((s₂.push e).setOwners s₂.size) (s₂.size, some name)

theorem Store.ReadsLine.addsStatement {registry : Registry} {s s' : Store}
    {r : ElementId × Option String} (h : ReadsLine registry s s' r) : AddsStatement s s' r.1 := by
  cases h with
  | plain h he ho => exact h.addsStatement he ho
  | declaration h hrhs hb hc hr hv ht he ho =>
    exact h.addsDeclaration (fun id hid => (hrhs id hid).1) hb hv ht he ho

/-- Reading a declaration. -/
theorem buildDeclaration_readsLine {s : Store} {w : Workspace} {registry : Registry}
    {ids rhs : List ElementId} {target : ElementId} {name : String} (h : Places s w.store ids)
    (hr : registry.Names s) (hsub : (target :: rhs).Sublist ids)
    (ht : w.store.kind target = .name name) (v : Vocabulary) (l : LogicalLine) :
    (Statement.buildDeclaration v registry l target name rhs).Ensures w fun id w' =>
      ReadsLine registry s w'.store (id, some name) := by
  have hap := h.apart_rhs hsub
  have hin : InTerms (s.size ≤ ·) s.IsFunction w.store :=
    fun id hid hA => (h.token id hA hid).1.inTerm _ _
  rw [Statement.buildDeclaration, Building.ensures_bind]
  have hvalue := Term.declarationValue_value (h.pool hsub) (hr.settled h v l.line) hin name
  refine (hvalue.and (Term.declarationValue_reads name rhs w)).imp ?_
  rintro ⟨content, form⟩ w' ⟨⟨hb, hv⟩, hreads⟩
  have htarget : target ∉ rhs := fun hm => (List.nodup_append.1 hap.nodup).2.2 _ hm _ (by simp) rfl
  have hname : w'.store.kind target = .name name := by
    rw [kind, hb.kept target (hap.mem target (by simp)).1 htarget]
    exact ht
  exact .declaration h (fun id hid => (hap.mem id (by simp [hid])).symm) hb ⟨rfl, rfl⟩ hreads hv
    hname rfl rfl

/-- **Reading a line** places its tokens and adds its statement. -/
theorem read_readsLine {w : Workspace} {registry : Registry} (hr : registry.Names w.store)
    (v : Vocabulary) (l : LogicalLine) :
    (Statement.read v registry l).Ensures w fun r w' => ReadsLine registry w.store w'.store r := by
  rw [Statement.read, Building.ensures_bind]
  refine (place_places (fun e he => ⟨isToken_of_mem_classify he, hasPlainName_of_mem_classify he⟩)
    w).imp fun ids w₁ h => ?_
  rw [Building.ensures_bind, Building.Ensures, Building.run_store]
  dsimp only
  have hsub := dropTerminator_sublist w₁.store ids
  split
  · exact .plain h (Or.inl rfl) rfl
  · exact .plain h (Or.inr rfl) rfl
  · rename_i target second rhs hd
    split
    · rename_i name ht hs
      rw [Building.ensures_bind]
      refine (buildDeclaration_readsLine h hr ?_ ht v l).imp fun id w' h => h
      rw [hd] at hsub
      exact ((List.sublist_cons_self second rhs).cons_cons target).trans hsub
    · exact .plain h (Or.inr rfl) rfl

theorem read_addsStatement {w : Workspace} {registry : Registry} (hr : registry.Names w.store)
    (v : Vocabulary) (l : LogicalLine) :
    (Statement.read v registry l).Ensures w fun r w' => AddsStatement w.store w'.store r.1 :=
  (read_readsLine hr v l).imp fun _ _ h => h.addsStatement

end FormulaSheet
