/-
  Renaming elements: the same elements at other positions of a store.

  * `Joinable P`: texts with the property `P` can be put together to texts with
    that property.
  * `Renaming`: where the elements of one store are in another one, which lines
    may stand for each other, what all source texts are like, and whether
    declarations have the same source text.
  * `Kind.rename` and `Element.Like`: what an element is there.
  * `Renames ρ n s s'`: `s'` has every element of `s` at its new position, and new
    elements go to corresponding positions.  The source texts of elements from `n`
    on are the same in any case.  Pushing and changing elements keep it
    (`Renames.push`, `Renames.modify`).
  * What is read off a store is renamed with it: the parts of a term, what a
    name refers to, the first fault of a tree.
-/
import FormulaSheet.Classification
import FormulaSheet.Proofs.Frame
import Mathlib.Logic.Function.Basic

namespace FormulaSheet

/-! ## Kinds -/

namespace Kind

/-- The ids that an element of this kind holds: its children, and the function
    that it calls. -/
def links : Kind → List ElementId
  | .call f arguments => f :: arguments
  | kind => kind.children

theorem children_subset_links (kind : Kind) : kind.children ⊆ kind.links := by
  cases kind with
  | call f arguments => exact List.subset_cons_self f arguments
  | _ => exact List.Subset.refl _

end Kind

/-- A cell with another value. -/
def Cell.rename (f : ElementId → ElementId) (cell : Cell) : Cell :=
  { cell with value := f cell.value }

namespace Kind

/-- The kind with other ids. -/
def rename (f : ElementId → ElementId) : Kind → Kind
  | .error fault ids => .error fault (ids.map f)
  | .operator symbol role first second => .operator symbol role (first.map f) (second.map f)
  | .array cells => .array (cells.map (Cell.rename f))
  | .access target indexes => .access (f target) (indexes.map f)
  | .function parameters body => .function (parameters.map f) (body.map f)
  | .call g arguments => .call (f g) (arguments.map f)
  | .declaration target content form => .declaration (f target) (f content) form
  | kind => kind

variable (f : ElementId → ElementId) (kind : Kind)

@[simp] theorem children_rename : (kind.rename f).children = kind.children.map f := by
  cases kind with
  | operator symbol role first second => cases first <;> cases second <;> rfl
  | array cells => simp [rename, children, Cell.rename]
  | function parameters body => cases body <;> simp [rename, children]
  | _ => rfl

@[simp] theorem links_rename : (kind.rename f).links = kind.links.map f := by
  have h := children_rename f kind
  cases kind with
  | call g arguments => rfl
  | _ => exact h

@[simp] theorem isStructural_rename : (kind.rename f).isStructural = kind.isStructural := by
  cases kind <;> rfl

@[simp] theorem isOperator_rename : (kind.rename f).isOperator = kind.isOperator := by
  cases kind <;> rfl

@[simp] theorem name?_rename : (kind.rename f).name? = kind.name? := by
  cases kind <;> rfl

variable {f kind}

theorem map_eq_self {ids : List ElementId} (h : ∀ id ∈ ids, f id = id) : ids.map f = ids := by
  rw [List.map_congr_left h, List.map_id']

theorem option_map_eq_self {id : Option ElementId} (h : ∀ x ∈ id.toList, f x = x) :
    id.map f = id := by
  cases id with
  | none => rfl
  | some x => rw [Option.map_some, h x List.mem_cons_self]

/-- A kind stays the same if the ids it holds do. -/
theorem rename_eq_self (h : ∀ id ∈ kind.links, f id = id) : kind.rename f = kind := by
  cases kind with
  | error fault ids => rw [rename, map_eq_self (show ∀ id ∈ ids, f id = id from h)]
  | operator symbol role first second =>
    rw [rename, option_map_eq_self fun x hx => h x (List.mem_append_left _ hx),
      option_map_eq_self fun x hx => h x (List.mem_append_right _ hx)]
  | array cells =>
    have hcells : cells.map (Cell.rename f) = cells.map id := List.map_congr_left fun cell hc => by
      rw [Cell.rename, h cell.value (List.mem_map.2 ⟨cell, hc, rfl⟩), id]
    rw [rename, hcells, List.map_id]
  | access target indexes =>
    rw [rename, h target List.mem_cons_self,
      map_eq_self fun x hx => h x (List.mem_cons_of_mem _ hx)]
  | function parameters body =>
    rw [rename, map_eq_self fun x hx => h x (List.mem_append_left _ hx),
      option_map_eq_self fun x hx => h x (List.mem_append_right _ hx)]
  | call function arguments =>
    rw [rename, h function List.mem_cons_self,
      map_eq_self fun x hx => h x (List.mem_cons_of_mem _ hx)]
  | declaration target content form =>
    rw [rename, h target List.mem_cons_self, h content (List.mem_cons_of_mem _ List.mem_cons_self)]
  | _ => rfl

/-- Being of a kind that holds no ids does not depend on the ids. -/
theorem rename_eq_iff {leaf : Kind} (h : leaf.links = []) : kind.rename f = leaf ↔ kind = leaf := by
  have same : ∀ k : Kind, k.links = [] → k.rename f = k :=
    fun k hk => rename_eq_self fun id hid => by rw [hk] at hid; cases hid
  constructor
  · intro he
    have hlinks : kind.links = [] := by
      rw [← he, links_rename] at h
      exact List.map_eq_nil_iff.1 h
    rw [← he, same kind hlinks]
  · rintro rfl
    exact same _ h

end Kind

/-! ## Texts -/

/-- The source texts in a fault. -/
def Fault.texts : Fault → List String
  | .unrecognizedToken token | .missingOperand token | .unexpectedToken token
  | .unsupportedCell token => [token]
  | .unmatched _ | .notReduced _ | .emptyTerm | .missingValue | .expectedParameterList => []

namespace Kind

/-- The source texts that an element of this kind holds itself. -/
def texts : Kind → List String
  | .value text | .name text | .operator text _ _ _ => [text]
  | .error fault _ => fault.texts
  | _ => []

/-- Declarations keep their line as it is written. -/
def isDeclaration : Kind → Bool
  | .declaration .. => true
  | _ => false

theorem isDeclaration_of_isStructural {kind : Kind} (h : kind.isStructural = true) :
    kind.isDeclaration = false := by
  cases kind with
  | declaration => cases h
  | _ => rfl

/-- A token holds no text but itself. -/
theorem eq_of_mem_texts_ofToken {v : Vocabulary} {previous : Option Kind}
    {token text : String} (h : text ∈ (Kind.ofToken v previous token).texts) : text = token := by
  have structural : ∀ {c : Char} {kind : Kind}, Kind.ofStructural? c = some kind →
      kind.texts = [] := by
    intro c kind hc
    unfold Kind.ofStructural? at hc
    split at hc <;> cases hc <;> rfl
  unfold Kind.ofToken Kind.recognize at h
  split at h
  · rename_i kind hk
    split at hk
    · cases hk
      exact List.mem_singleton.1 h
    · split at hk
      · split at hk
        · cases hk
          exact List.mem_singleton.1 h
        · cases hk
      · split at hk
        · cases hk
          exact List.mem_singleton.1 h
        · split at hk
          · rename_i hs
            cases hk
            obtain ⟨c, -, hc⟩ := Option.bind_eq_some_iff.1 hs
            rw [structural hc] at h
            cases h
          · cases hk
  · rename_i fault hf
    split at hf
    · cases hf
    · split at hf
      · split at hf
        · cases hf
        · cases hf
          exact List.mem_singleton.1 h
      · split at hf
        · cases hf
        · split at hf
          · cases hf
          · cases hf
            exact List.mem_singleton.1 h

end Kind

/-- A property of texts that putting them together keeps. -/
structure Joinable (P : String → Prop) : Prop where
  append : ∀ {a b : String}, P a → P b → P (a ++ b)
  /-- What is put between source texts. -/
  fixed : ∀ text ∈ ["", " ", ",", "(", ")", "[", "]", "@("], P text

theorem joinable_true : Joinable fun _ => True :=
  ⟨fun _ _ => trivial, fun _ _ => trivial⟩

theorem Joinable.intercalate {P : String → Prop} (h : Joinable P) {separator : String}
    (hs : P separator) {texts : List String} (ht : ∀ text ∈ texts, P text) :
    P (separator.intercalate texts) := by
  induction texts with
  | nil => exact h.fixed _ (by simp)
  | cons text texts ih =>
    obtain ⟨htext, htexts⟩ := List.forall_mem_cons.1 ht
    cases texts with
    | nil => exact htext
    | cons next texts =>
      rw [String.intercalate_cons_cons]
      exact h.append (h.append htext hs) (ih htexts)

/-! ## Renamings -/

/-- Where the elements of one store are in another one. -/
structure Renaming where
  position : ElementId → ElementId
  injective : Function.Injective position
  /-- The lines that may stand for each other. -/
  line : Nat → Nat → Prop
  /-- What holds of all source texts. -/
  text : String → Prop := fun _ => True
  joinable : Joinable text := by exact joinable_true
  /-- Whether declarations have the same source text, too. -/
  verbatim : Prop := True

instance : CoeFun Renaming fun _ => ElementId → ElementId := ⟨Renaming.position⟩

variable {ρ : Renaming} {n : Nat}

/-- The same element at another position.  Unless that is `known`, the source text
    of a declaration may differ. -/
structure Element.Like (ρ : Renaming) (known : Prop) (e e' : Element) : Prop where
  kind : e'.kind = e.kind.rename ρ
  texts : ∀ text ∈ e.kind.texts, ρ.text text
  raw : ρ.verbatim ∨ known ∨ e.kind.isDeclaration = false → e'.raw = e.raw ∧ ρ.text e.raw
  sealed : e'.sealed = e.sealed
  owner : e'.owner = e.owner.map ρ
  line : ρ.line e.line e'.line

namespace Element.Like

variable {known known' : Prop} {e e' : Element}

theorem mono (h : e.Like ρ known e') (hk : known' → known) : e.Like ρ known' e' :=
  ⟨h.kind, h.texts, fun hr => h.raw (hr.imp_right (Or.imp_left hk)), h.sealed, h.owner, h.line⟩

theorem eq (h : e.Like ρ known e') :
    ∃ raw line, e' = ⟨e.kind.rename ρ, raw, line, e.sealed, e.owner.map ρ⟩ :=
  ⟨e'.raw, e'.line, by rw [← h.kind, ← h.sealed, ← h.owner]⟩

theorem pendingRole? (h : e.Like ρ known e') : e'.pendingRole? = e.pendingRole? := by
  unfold Element.pendingRole?
  rw [h.kind, h.sealed]
  cases e.kind <;> rfl

theorem withOperands (h : e.Like ρ known e') (first second : Option ElementId) :
    (e.withOperands first second).Like ρ known
      (e'.withOperands (first.map ρ) (second.map ρ)) := by
  obtain ⟨raw', line', rfl⟩ := h.eq
  obtain ⟨kind, raw, line, isSealed, owner⟩ := e
  cases kind <;> exact ⟨rfl, h.texts, h.raw, rfl, rfl, h.line⟩

theorem signOf (h : e.Like ρ known e') (operand : ElementId) :
    (e.signOf operand).Like ρ known (e'.signOf (ρ operand)) := by
  obtain ⟨raw', line', rfl⟩ := h.eq
  obtain ⟨kind, raw, line, isSealed, owner⟩ := e
  cases kind <;> exact ⟨rfl, h.texts, h.raw, rfl, rfl, h.line⟩

theorem released (h : e.Like ρ known e') : e.released.Like ρ known e'.released := by
  obtain ⟨raw', line', rfl⟩ := h.eq
  obtain ⟨kind, raw, line, isSealed, owner⟩ := e
  cases kind <;> exact ⟨rfl, h.texts, h.raw, rfl, rfl, h.line⟩

theorem openingSign (h : e.Like ρ known e') : e.openingSign.Like ρ known e'.openingSign := by
  obtain ⟨raw', line', rfl⟩ := h.eq
  obtain ⟨kind, raw, line, isSealed, owner⟩ := e
  cases kind with
  | operator symbol role first second =>
    cases role <;> cases isSealed <;> exact ⟨rfl, h.texts, h.raw, rfl, rfl, h.line⟩
  | _ => exact h

end Element.Like

/-- There is nothing to an element that is not there. -/
theorem Element.like_absent {known : Prop} (hl : ρ.line Store.absent.line Store.absent.line) :
    Store.absent.Like ρ known Store.absent :=
  ⟨rfl, by simp [Store.absent, Kind.texts],
    fun _ => ⟨rfl, ρ.joinable.fixed _ (by simp [Store.absent])⟩, rfl, rfl, hl⟩

/-! ## Stores -/

namespace Store

theorem get_push (s : Store) (e : Element) (id : ElementId) :
    (s.push e).get id = if id = s.size then e else s.get id := by
  rcases Nat.lt_trichotomy id s.size with hlt | rfl | hgt
  · rw [get_push_of_lt e hlt, if_neg (Nat.ne_of_lt hlt)]
  · rw [get_push_size, if_pos rfl]
  · rw [get_of_size_le (by rwa [size_push]), get_of_size_le (Nat.le_of_lt hgt),
      if_neg (Nat.ne_of_gt hgt)]

theorem get_modify (s : Store) (id : ElementId) (f : Element → Element) (x : ElementId) :
    (s.modify id f).get x = if id = x ∧ x < s.size then f (s.get x) else s.get x := by
  by_cases hne : id = x
  · subst hne
    by_cases hlt : id < s.size
    · rw [get_modify_self f hlt, if_pos ⟨rfl, hlt⟩]
    · rw [if_neg fun h => hlt h.2, get_of_size_le (by rw [size_modify]; exact Nat.not_lt.1 hlt),
        get_of_size_le (Nat.not_lt.1 hlt)]
  · rw [get_modify_of_ne f hne, if_neg fun h => hne h.1]

/-- The elements of `s` at their new positions, and maybe more.  The source texts of
    elements from `n` on are the same. -/
structure Renames (ρ : Renaming) (n : Nat) (s s' : Store) : Prop where
  /-- New elements go to corresponding positions. -/
  next : ∀ k, ρ (s.size + k) = s'.size + k
  get : ∀ id, (s.get id).Like ρ (n ≤ id) (s'.get (ρ id))

namespace Renames

variable {s s' : Store} (h : Renames ρ n s s')
include h

theorem mono {m : Nat} (hm : n ≤ m) : Renames ρ m s s' :=
  ⟨h.next, fun id => (h.get id).mono fun hid => Nat.le_trans hm hid⟩

theorem size_eq : ρ s.size = s'.size :=
  h.next 0

/-- What is not there yet is the same. -/
theorem current : Renames ρ s.size s s' := by
  refine ⟨h.next, fun id => ?_⟩
  by_cases hid : s.size ≤ id
  · obtain ⟨k, rfl⟩ := Nat.exists_eq_add_of_le hid
    have hline := (h.get (s.size + k)).line
    rw [h.next, get_of_size_le hid, get_of_size_le (Nat.le_add_right _ _)] at hline ⊢
    exact Element.like_absent hline
  · exact (h.get id).mono fun hid' => absurd hid' hid

theorem kind (id : ElementId) : s'.kind (ρ id) = (s.kind id).rename ρ :=
  (h.get id).kind

theorem kind_eq_iff {leaf : Kind} (hl : leaf.links = []) (id : ElementId) :
    s'.kind (ρ id) = leaf ↔ s.kind id = leaf := by
  rw [h.kind, Kind.rename_eq_iff hl]

/-- The source text of an element of the line that is read. -/
theorem raw {id : ElementId} (hid : n ≤ id) :
    (s'.get (ρ id)).raw = (s.get id).raw ∧ ρ.text (s.get id).raw :=
  (h.get id).raw (Or.inr (Or.inl hid))

theorem raw_of_isDeclaration {id : ElementId} (hk : (s.kind id).isDeclaration = false) :
    (s'.get (ρ id)).raw = (s.get id).raw ∧ ρ.text (s.get id).raw :=
  (h.get id).raw (Or.inr (Or.inr hk))

theorem raw_of_pendingRole? {id : ElementId} (hp : (s.get id).pendingRole?.isSome) :
    (s'.get (ρ id)).raw = (s.get id).raw ∧ ρ.text (s.get id).raw := by
  refine h.raw_of_isDeclaration ?_
  unfold Element.pendingRole? at hp
  rw [Store.kind]
  cases hk : (s.get id).kind with
  | declaration => simp [hk] at hp
  | _ => rfl

theorem lt_size_iff (id : ElementId) : ρ id < s'.size ↔ id < s.size := by
  constructor
  · intro hlt
    by_contra hge
    obtain ⟨k, rfl⟩ := Nat.exists_eq_add_of_le (Nat.not_lt.1 hge)
    rw [h.next] at hlt
    exact Nat.not_lt.2 (Nat.le_add_right _ _) hlt
  · intro hlt
    by_contra hge
    obtain ⟨k, hk⟩ := Nat.exists_eq_add_of_le (Nat.not_lt.1 hge)
    obtain rfl := ρ.injective (hk.trans (h.next k).symm)
    exact Nat.not_lt.2 (Nat.le_add_right _ _) hlt

theorem push {e e' : Element} (he : e.Like ρ (n ≤ s.size) e') :
    Renames ρ n (s.push e) (s'.push e') where
  next k := by
    rw [size_push, size_push, Nat.add_assoc, Nat.add_assoc, h.next]
  get id := by
    rw [get_push, get_push, ← h.size_eq]
    by_cases hid : id = s.size
    · rw [if_pos hid, if_pos (congrArg ρ hid), hid]
      exact he
    · rw [if_neg hid, if_neg fun he => hid (ρ.injective he)]
      exact h.get id

theorem modify {f f' : Element → Element}
    (hf : ∀ {known : Prop} {e e' : Element}, e.Like ρ known e' → (f e).Like ρ known (f' e'))
    (id : ElementId) : Renames ρ n (s.modify id f) (s'.modify (ρ id) f') where
  next k := by rw [size_modify, size_modify, h.next]
  get x := by
    rw [get_modify, get_modify]
    by_cases hx : id = x ∧ x < s.size
    · rw [if_pos hx, if_pos ⟨congrArg ρ hx.1, (h.lt_size_iff x).2 hx.2⟩]
      exact hf (h.get x)
    · rw [if_neg hx, if_neg fun hx' => hx ⟨ρ.injective hx'.1, (h.lt_size_iff x).1 hx'.2⟩]
      exact h.get x

theorem release (ids : List ElementId) :
    Renames ρ n (s.release ids) (s'.release (ids.map ρ)) := by
  induction ids generalizing s s' with
  | nil => exact h
  | cons id ids ih => exact ih (h.modify (fun he => he.released) id)

theorem rawText {separator : String} (hsep : ρ.text separator) {ids : List ElementId}
    (hids : ∀ id ∈ ids, n ≤ id) :
    s'.rawText separator (ids.map ρ) = s.rawText separator ids ∧
      ρ.text (s.rawText separator ids) := by
  unfold Store.rawText
  rw [List.map_map]
  refine ⟨congrArg separator.intercalate (List.map_congr_left fun id hid => ?_), ?_⟩
  · exact (h.raw (hids id hid)).1
  · refine ρ.joinable.intercalate hsep fun text ht => ?_
    obtain ⟨id, hid, rfl⟩ := List.mem_map.1 ht
    exact (h.raw (hids id hid)).2

end Renames

end Store

/-! ## The parts of a term -/

open Store

/-- The registry with other ids. -/
def Registry.rename (f : ElementId → ElementId) (registry : Registry) : Registry :=
  ⟨registry.entries.map fun entry => (entry.1, f entry.2)⟩

theorem Registry.get?_rename (f : ElementId → ElementId) (registry : Registry) (name : String) :
    (registry.rename f).get? name = (registry.get? name).map f := by
  unfold get? rename
  dsimp only
  rw [List.find?_map, Option.map_map, Option.map_map]
  rfl

namespace Term

/-- A part of a term with other ids. -/
def Segment.rename (f : ElementId → ElementId) : Segment → Segment
  | .single id => .single (f id)
  | .group g inner => .group g (inner.map f)
  | .unmatched g => .unmatched g

/-- A part of an array literal with other ids. -/
def Item.rename (f : ElementId → ElementId) : Item → Item
  | cell id => cell (f id)
  | signed sign operand => signed (f sign) (f operand)
  | nested inner => nested (inner.map f)
  | unsupported id => unsupported (f id)
  | rowEnd => rowEnd
  | unclosed => unclosed

/-- What a name refers to, with other ids. -/
def Callee.rename (f : ElementId → ElementId) : Callee → Callee
  | function id => function (f id)
  | indexed => indexed
  | unresolved => unresolved

/-- The same context for the other store. -/
structure Context.Renames (ρ : Renaming) (c c' : Context) : Prop where
  vocabulary : c'.vocabulary = c.vocabulary
  registry : c'.registry = c.registry.rename ρ
  line : ρ.line c.line c'.line
  function : c'.function = c.function.map fun f => { f with id := ρ f.id }

variable {s s' : Store} (h : s.Renames ρ n s')
include h

theorem splitClosing?_rename (group : Group) (depth : Nat) (ids : List ElementId) :
    splitClosing? s' group depth (ids.map ρ) =
      (splitClosing? s group depth ids).map fun p => (p.1.map ρ, p.2.map ρ) := by
  induction ids generalizing depth with
  | nil => rfl
  | cons id rest ih =>
    -- Where the group goes on, the element is put before what comes of the rest.
    have step : ∀ depth, (splitClosing? s' group depth (rest.map ρ)).map
          (fun p => (ρ id :: p.1, p.2)) =
        ((splitClosing? s group depth rest).map fun p => (id :: p.1, p.2)).map
          fun p => (p.1.map ρ, p.2.map ρ) := by
      intro depth
      rw [ih, Option.map_map, Option.map_map]
      rfl
    rw [List.map_cons, splitClosing?, splitClosing?, h.kind]
    cases s.kind id with
    | delimiter g side =>
      dsimp only [Kind.rename]
      split
      · cases side with
        | opening => exact step (depth + 1)
        | closing =>
          cases depth with
          | zero => rfl
          | succ depth => exact step depth
      · exact step depth
    | _ => exact step depth

theorem segments_rename (term : List ElementId) :
    segments s' (term.map ρ) = (segments s term).map (Segment.rename ρ) := by
  fun_induction segments s term with
  | case1 => simp [segments]
  | case2 id rest group hk =>
    rw [List.map_cons, segments, h.kind, hk]
    simp [Kind.rename, Segment.rename]
  | case3 id rest group hk hs =>
    rw [List.map_cons, segments, h.kind, hk]
    simp only [Kind.rename]
    rw [splitClosing?_rename h, hs]
    simp [Segment.rename]
  | case4 id rest group hk inner after hs ih =>
    rw [List.map_cons, segments, h.kind, hk]
    simp only [Kind.rename]
    rw [splitClosing?_rename h, hs]
    simp [ih, Segment.rename]
  | case5 id rest h₁ h₂ ih =>
    rw [List.map_cons, segments, h.kind]
    cases hk : s.kind id with
    | delimiter group side =>
      cases side with
      | opening => exact absurd hk (h₂ group)
      | closing => exact absurd hk (h₁ group)
    | _ => simp [Kind.rename, ih, Segment.rename]

theorem splitArguments_rename (depth : Nat) (ids : List ElementId) :
    splitArguments s' depth (ids.map ρ) = (splitArguments s depth ids).map (List.map ρ) := by
  induction ids generalizing depth with
  | nil => rfl
  | cons id rest ih =>
    have step : ∀ depth, (splitArguments s' depth (rest.map ρ)).modifyHead (ρ id :: ·) =
        ((splitArguments s depth rest).modifyHead (id :: ·)).map (List.map ρ) := by
      intro depth
      rw [ih]
      cases splitArguments s depth rest <;> rfl
    rw [List.map_cons, splitArguments, splitArguments, h.kind]
    cases s.kind id with
    | delimiter g side =>
      cases side with
      | opening => exact step (depth + 1)
      | closing => exact step (depth - 1)
    | comma =>
      dsimp only [Kind.rename]
      split
      · rw [ih]
        rfl
      · exact step depth
    | _ => exact step depth

theorem arguments_rename (inner : List ElementId) :
    arguments s' (inner.map ρ) = (arguments s inner).map (List.map ρ) := by
  unfold arguments
  rw [List.isEmpty_map]
  split
  · rfl
  · exact splitArguments_rename h 0 inner

omit h in
theorem canBeSigned_rename (f : ElementId → ElementId) (kind : Kind) :
    canBeSigned (kind.rename f) = canBeSigned kind := by
  cases kind <;> rfl

theorem items_rename (v : Vocabulary) (inner : List ElementId) :
    items v s' (inner.map ρ) = (items v s inner).map (Item.rename ρ) := by
  fun_induction items v s inner with
  | case1 => simp [items]
  | case2 id rest hk ih =>
    rw [List.map_cons, items, h.kind, hk]
    simp [Kind.rename, ih, Item.rename]
  | case3 id rest hk ih =>
    rw [List.map_cons, items, h.kind, hk]
    simp [Kind.rename, ih]
  | case4 id rest hk hs =>
    rw [List.map_cons, items, h.kind, hk]
    simp only [Kind.rename]
    rw [splitClosing?_rename h, hs]
    rfl
  | case5 id rest hk nested after hs ih =>
    rw [List.map_cons, items, h.kind, hk]
    simp only [Kind.rename]
    rw [splitClosing?_rename h, hs]
    simp [ih, Item.rename]
  | case6 id symbol role first second hk =>
    rw [List.map_cons, items, h.kind, hk]
    rfl
  | case7 id symbol role first second hk operand after hc ih =>
    have hkind : s'.kind (ρ id) = .operator symbol role (first.map ρ) (second.map ρ) := by
      rw [h.kind, hk]
      rfl
    rw [List.map_cons, items, hkind]
    simp only [List.map_cons, h.kind, canBeSigned_rename, hc, if_true, ih]
    rfl
  | case8 id symbol role first second hk operand after hc =>
    have hkind : s'.kind (ρ id) = .operator symbol role (first.map ρ) (second.map ρ) := by
      rw [h.kind, hk]
      rfl
    rw [List.map_cons, items, hkind]
    simp only [List.map_cons, h.kind, canBeSigned_rename, hc]
    rfl
  | case9 id rest h₁ h₂ h₃ h₄ hs =>
    rw [List.map_cons, items, h.kind]
    cases hk : s.kind id <;> simp_all [Kind.rename, Kind.isStructural, Item.rename]
  | case10 id rest h₁ h₂ h₃ h₄ hs ih =>
    rw [List.map_cons, items, h.kind]
    cases hk : s.kind id with
    | operator symbol role first second => exact absurd hk (h₄ symbol role first second)
    | _ => simp_all [Kind.rename, Kind.isStructural, Item.rename]

theorem wholeArray?_rename (ids : List ElementId) :
    wholeArray? s' (ids.map ρ) = (wholeArray? s ids).map (List.map ρ) := by
  cases ids with
  | nil => rfl
  | cons first rest =>
    have hiff : s'.kind (ρ first) = .delimiter .bracket .opening ↔
        s.kind first = .delimiter .bracket .opening := h.kind_eq_iff rfl first
    rw [List.map_cons, wholeArray?, wholeArray?]
    by_cases hk : s.kind first = .delimiter .bracket .opening
    · rw [if_pos (hiff.2 hk), if_pos hk, splitClosing?_rename h]
      cases splitClosing? s .bracket 0 rest with
      | none => rfl
      | some p =>
        obtain ⟨inner, after⟩ := p
        cases after <;> rfl
    · rw [if_neg fun hk' => hk (hiff.1 hk'), if_neg hk]
      rfl

/-! ## Names and trees -/

theorem callText_rename {name : String} (hname : ρ.text name) {inner : List ElementId}
    (hi : ∀ id ∈ inner, n ≤ id) : callText s' name (inner.map ρ) = callText s name inner ∧
      ρ.text (callText s name inner) := by
  have hP := ρ.joinable
  obtain ⟨hraw, htext⟩ := h.rawText (hP.fixed "" (by simp)) hi
  refine ⟨by rw [callText, callText, hraw], ?_⟩
  exact hP.append (hP.append (hP.append hname (hP.fixed _ (by simp))) htext) (hP.fixed _ (by simp))

/-- A name refers to the same thing. -/
theorem callee_rename {c c' : Context} (hc : c.Renames ρ c') (name : String) :
    callee c' s' name = (callee c s name).rename ρ := by
  have inside : calleeInside c'.function name = (calleeInside c.function name).rename ρ := by
    rw [hc.function]
    unfold calleeInside
    cases c.function with
    | none => rfl
    | some f =>
      dsimp only [Option.map_some]
      split
      · rfl
      · split <;> rfl
  unfold callee
  rw [hc.registry, Registry.get?_rename]
  cases c.registry.get? name with
  | none => exact inside
  | some id =>
    rw [Option.map_some, Option.map_some, Option.map_some, h.kind]
    cases s.kind id with
    | declaration target content form =>
      dsimp only [Kind.rename]
      rw [h.kind]
      cases form with
      | function => cases s.kind content <;> rfl
      | _ => rfl
    | _ => exact inside

omit h in
theorem findSome?_congr {α β : Type} {f g : α → Option β} {xs : List α}
    (h : ∀ x ∈ xs, f x = g x) : xs.findSome? f = xs.findSome? g := by
  induction xs with
  | nil => rfl
  | cons x xs ih =>
    obtain ⟨hx, hxs⟩ := List.forall_mem_cons.1 h
    rw [List.findSome?_cons, List.findSome?_cons, hx, ih hxs]

/-- The check of a tree finds the same. -/
theorem unfinishedWithin_rename (depth : Nat) (id : ElementId) :
    unfinishedWithin s' depth (ρ id) = unfinishedWithin s depth id ∧
      ∀ fault, unfinishedWithin s depth id = some fault → ∀ text ∈ fault.texts, ρ.text text := by
  induction depth generalizing id with
  | zero => exact ⟨rfl, by simp [unfinishedWithin]⟩
  | succ depth ih =>
    have hchildren : ∀ kind : Kind,
        (kind.rename ρ).children.reverse.findSome? (unfinishedWithin s' depth) =
          kind.children.reverse.findSome? (unfinishedWithin s depth) ∧
        ∀ fault, kind.children.reverse.findSome? (unfinishedWithin s depth) = some fault →
          ∀ text ∈ fault.texts, ρ.text text := by
      intro kind
      rw [Kind.children_rename, ← List.map_reverse, List.findSome?_map]
      refine ⟨findSome?_congr fun x _ => (ih x).1, fun fault hf => ?_⟩
      obtain ⟨x, -, hx⟩ := List.exists_of_findSome?_eq_some hf
      exact (ih x).2 fault hx
    simp only [unfinishedWithin]
    rw [(h.get id).kind, (h.get id).pendingRole?, Kind.isStructural_rename]
    split
    · rename_i hk
      obtain ⟨hraw, htext⟩ := h.raw_of_isDeclaration (Kind.isDeclaration_of_isStructural hk)
      rw [hraw]
      refine ⟨rfl, ?_⟩
      rintro _ ⟨⟩
      simpa [Fault.texts] using htext
    split
    · rename_i hrole
      obtain ⟨hraw, htext⟩ := h.raw_of_pendingRole? hrole
      rw [hraw]
      refine ⟨rfl, ?_⟩
      rintro _ ⟨⟩
      simpa [Fault.texts] using htext
    generalize (s.get id).kind = kind
    have hkind := hchildren kind
    cases kind with
    | error fault ids => exact ⟨rfl, by simp⟩
    | _ => exact hkind

end Term

end FormulaSheet
