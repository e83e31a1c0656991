/-
  The grammar of terms.

    T ::= P | P binary T | sign T
    P ::= A | function A
    A ::= value | name | unrecognized token | "(" T ")"

  * `Derives s symbol ids t`: the elements `ids` derive from `symbol`, and `t`
    is the tree of the derivation.  Parentheses leave no trace in it.
  * `Tree.bindFunctions` and `Tree.bindOperators` are the second and the third
    pass of a reduction on trees.
  * `bind_of_derives`: the passes build the tree of every derivation;
    `derives_of_bind`: what they build is the tree of a derivation if it is
    clean, that is, if no structure and no operator without operands is left in
    it.
-/
import FormulaSheet.Proofs.Statement
import Mathlib.Data.List.Chain
import Mathlib.Data.List.Forall2

namespace FormulaSheet

/-- A term as a tree of elements. -/
inductive Tree where
  | leaf (id : ElementId)
  /-- A sign or a function with its operand. -/
  | applied (operator : ElementId) (operand : Tree)
  /-- A binary operator with its operands. -/
  | joined (operator : ElementId) (left right : Tree)
  deriving DecidableEq, Repr

namespace Tree

/-- The element at the root. -/
def root : Tree → ElementId
  | leaf id => id
  | applied operator _ => operator
  | joined operator _ _ => operator

/-- The elements from left to right. -/
def ids : Tree → List ElementId
  | leaf id => [id]
  | applied operator operand => operator :: operand.ids
  | joined operator left right => left.ids ++ operator :: right.ids

theorem root_mem_ids (t : Tree) : t.root ∈ t.ids := by
  cases t <;> simp [root, ids]

/-- The role in which the root waits for operands. -/
def pendingRole? (s : Store) : Tree → Option Role
  | leaf id => (s.get id).pendingRole?
  | applied _ _ | joined _ _ _ => none

theorem pendingRole?_root {s : Store} {t : Tree} {role : Role}
    (h : t.pendingRole? s = some role) : (s.get t.root).pendingRole? = some role := by
  cases t with
  | leaf id => exact h
  | applied => cases h
  | joined => cases h

/-- No structure and no operator without operands is left. -/
def Clean (s : Store) : Tree → Prop
  | leaf id => (s.kind id).isStructural = false ∧ (s.get id).pendingRole? = none
  | applied _ operand => operand.Clean s
  | joined _ left right => left.Clean s ∧ right.Clean s

end Tree

/-! ## Derivations -/

/-- The symbols of the grammar. -/
inductive Symbol where
  | term
  | operand
  | atom
  deriving DecidableEq, Repr

/-- What stands for itself in a term. -/
def Kind.isAtom : Kind → Bool
  | value _ | name _ | error (.unrecognizedToken _) [] => true
  | _ => false

/-- The elements derive from the symbol by the derivation with the given
    tree. -/
inductive Derives (s : Store) : Symbol → List ElementId → Tree → Prop
  | atom {id : ElementId} (h : (s.kind id).isAtom = true) : Derives s .atom [id] (.leaf id)
  | group {opening closing : ElementId} {inner : List ElementId} {t : Tree}
      (ho : s.kind opening = .delimiter .parenthesis .opening) (h : Derives s .term inner t)
      (hc : s.kind closing = .delimiter .parenthesis .closing) :
      Derives s .atom (opening :: (inner ++ [closing])) t
  | operand {ids : List ElementId} {t : Tree} (h : Derives s .atom ids t) :
      Derives s .operand ids t
  | function {id : ElementId} {ids : List ElementId} {t : Tree}
      (hid : (s.get id).pendingRole? = some .function) (h : Derives s .atom ids t) :
      Derives s .operand (id :: ids) (.applied id t)
  | term {ids : List ElementId} {t : Tree} (h : Derives s .operand ids t) : Derives s .term ids t
  | binary {id : ElementId} {left right : List ElementId} {l r : Tree}
      (hl : Derives s .operand left l) (hid : (s.get id).pendingRole? = some .binary)
      (hr : Derives s .term right r) : Derives s .term (left ++ id :: right) (.joined id l r)
  | sign {id : ElementId} {ids : List ElementId} {t : Tree}
      (hid : (s.get id).pendingRole? = some .sign) (h : Derives s .term ids t) :
      Derives s .term (id :: ids) (.applied id t)

namespace Term

variable {s : Store} {group : Group} {id : ElementId}

theorem splitClosing?_other (h : ∀ side, s.kind id ≠ .delimiter group side) (depth : Nat)
    (rest : List ElementId) : splitClosing? s group depth (id :: rest) =
      (splitClosing? s group depth rest).map fun p => (id :: p.1, p.2) := by
  rw [splitClosing?]
  split
  · rename_i g side hk
    split
    · rename_i hg
      exact absurd (hg ▸ hk) (h side)
    · rfl
  · rfl

theorem splitClosing?_opening (h : s.kind id = .delimiter group .opening) (depth : Nat)
    (rest : List ElementId) : splitClosing? s group depth (id :: rest) =
      (splitClosing? s group (depth + 1) rest).map fun p => (id :: p.1, p.2) := by
  simp [splitClosing?, h]

theorem splitClosing?_closing (h : s.kind id = .delimiter group .closing) (depth : Nat)
    (rest : List ElementId) : splitClosing? s group (depth + 1) (id :: rest) =
      (splitClosing? s group depth rest).map fun p => (id :: p.1, p.2) := by
  simp [splitClosing?, h]

end Term

namespace Derives

variable {s s' : Store} {symbol : Symbol} {ids : List ElementId} {t : Tree}

/-- The tree keeps the order of the elements. -/
theorem ids_sublist (h : Derives s symbol ids t) : t.ids.Sublist ids := by
  induction h with
  | atom => exact .refl _
  | group _ _ _ ih => exact (ih.trans (List.sublist_append_left _ _)).cons _
  | operand _ ih => exact ih
  | function _ _ ih => exact ih.cons_cons _
  | term _ ih => exact ih
  | binary _ _ _ ihl ihr => exact ihl.append (ihr.cons_cons _)
  | sign _ _ ih => exact ih.cons_cons _

theorem congr (h : Derives s symbol ids t) (hs : ∀ id ∈ ids, s'.get id = s.get id) :
    Derives s' symbol ids t := by
  induction h with
  | @atom id h => exact .atom (by rwa [Store.kind, hs id (by simp)])
  | @group opening closing inner t ho h hc ih =>
    refine .group ?_ (ih fun x hx => hs x (by simp [hx])) ?_
    · rwa [Store.kind, hs opening (by simp)]
    · rwa [Store.kind, hs closing (by simp)]
  | operand _ ih => exact .operand (ih hs)
  | @function id ids t hid _ ih =>
    exact .function (by rwa [hs id (by simp)]) (ih fun x hx => hs x (by simp [hx]))
  | term _ ih => exact .term (ih hs)
  | @binary id left right l r _ hid _ ihl ihr =>
    exact .binary (ihl fun x hx => hs x (by simp [hx])) (by rwa [hs id (by simp)])
      (ihr fun x hx => hs x (by simp [hx]))
  | @sign id ids t hid _ ih =>
    exact .sign (by rwa [hs id (by simp)]) (ih fun x hx => hs x (by simp [hx]))

/-- A derivation is balanced: no closing parenthesis in it closes a group
    around it. -/
theorem splitClosing? (h : Derives s symbol ids t) (depth : Nat) (rest : List ElementId) :
    Term.splitClosing? s .parenthesis depth (ids ++ rest) =
      (Term.splitClosing? s .parenthesis depth rest).map fun p => (ids ++ p.1, p.2) := by
  have operator : ∀ {id : ElementId} {role : Role}, (s.get id).pendingRole? = some role →
      ∀ side, s.kind id ≠ .delimiter .parenthesis side := by
    intro id role hid side hk
    obtain ⟨symbol, first, second, hkind, -⟩ := Element.pendingRole?_eq_some_iff.1 hid
    rw [Store.kind, hkind] at hk
    cases hk
  induction h generalizing depth rest with
  | @atom id h =>
    refine Term.splitClosing?_other (fun side hk => ?_) depth rest
    rw [hk] at h
    cases h
  | group ho _ hc ih =>
    rw [List.cons_append, Term.splitClosing?_opening ho, List.append_assoc, ih,
      List.singleton_append, Term.splitClosing?_closing hc]
    simp [Function.comp_def]
  | operand _ ih => exact ih depth rest
  | function hid _ ih =>
    rw [List.cons_append, Term.splitClosing?_other (operator hid), ih]
    simp [Function.comp_def]
  | term _ ih => exact ih depth rest
  | binary _ hid _ ihl ihr =>
    rw [List.append_assoc, ihl, List.cons_append, Term.splitClosing?_other (operator hid), ihr]
    simp [Function.comp_def]
  | sign hid _ ih =>
    rw [List.cons_append, Term.splitClosing?_other (operator hid), ih]
    simp [Function.comp_def]

end Derives

/-! ## The passes on trees -/

namespace Tree

variable (s : Store)

/-- The second pass: a function takes the tree after it. -/
def bindFunctions : List Tree → Option (List Tree)
  | [] => some []
  | [t] => if t.pendingRole? s = some .function then none else some [t]
  | t :: next :: rest =>
    if t.pendingRole? s = some .function then
      (bindFunctions rest).map (.applied t.root next :: ·)
    else (bindFunctions (next :: rest)).map (t :: ·)

/-- The third pass: a sign takes what follows, a binary operator its
    neighbours. -/
def bindOperators : (before after : List Tree) → Option (List Tree)
  | [], after => some after
  | t :: before, after =>
    match t.pendingRole? s, before, after with
    | some .sign, before, operand :: after =>
      bindOperators before (.applied t.root operand :: after)
    | some .sign, _, [] => none
    | some .binary, left :: before, right :: after =>
      bindOperators before (.joined t.root left right :: after)
    | some .binary, _, _ => none
    | _, before, after => bindOperators before (t :: after)
termination_by before => before.length

end Tree

/-- The elements are those of the trees, one slice for each tree. -/
def Row (R : List ElementId → Tree → Prop) (ids : List ElementId) (ts : List Tree) : Prop :=
  ∃ slices, ids = slices.flatten ∧ List.Forall₂ R slices ts

theorem Row.append {R : List ElementId → Tree → Prop} {ids ids' : List ElementId}
    {ts ts' : List Tree} (h : Row R ids ts) (h' : Row R ids' ts') :
    Row R (ids ++ ids') (ts ++ ts') := by
  obtain ⟨slices, rfl, hs⟩ := h
  obtain ⟨slices', rfl, hs'⟩ := h'
  exact ⟨slices ++ slices', by simp, List.rel_append hs hs'⟩

theorem Row.single {R : List ElementId → Tree → Prop} {ids : List ElementId} {t : Tree}
    (h : R ids t) : Row R ids [t] :=
  ⟨[ids], by simp, .cons h .nil⟩

/-- What the first pass leaves: a token, or the tree of a group. -/
inductive Piece (s : Store) : List ElementId → Tree → Prop
  | token {id : ElementId} (h : ∀ group side, s.kind id ≠ .delimiter group side) :
      Piece s [id] (.leaf id)
  | group {opening closing : ElementId} {inner : List ElementId} {t : Tree}
      (ho : s.kind opening = .delimiter .parenthesis .opening) (h : Derives s .term inner t)
      (hc : s.kind closing = .delimiter .parenthesis .closing) :
      Piece s (opening :: (inner ++ [closing])) t

/-! ## Every derivation is built -/

section Complete

variable {s : Store} {symbol : Symbol} {ids : List ElementId} {t : Tree}

theorem pendingRole?_of_isAtom {e : Element} (h : e.kind.isAtom = true) :
    e.pendingRole? = none := by
  unfold Element.pendingRole?
  split
  · rename_i hk
    rw [hk] at h
    cases h
  · rfl

theorem Derives.pendingRole? (h : Derives s symbol ids t) : t.pendingRole? s = none := by
  induction h with
  | atom h => exact pendingRole?_of_isAtom h
  | group _ _ _ ih => exact ih
  | operand _ ih => exact ih
  | term _ ih => exact ih
  | function => rfl
  | binary => rfl
  | sign => rfl

theorem Derives.clean (h : Derives s symbol ids t) : t.Clean s := by
  induction h with
  | @atom id h =>
    refine ⟨?_, pendingRole?_of_isAtom h⟩
    cases hk : s.kind id <;> simp_all [Kind.isAtom, Kind.isStructural]
  | group _ _ _ ih => exact ih
  | operand _ ih => exact ih
  | function _ _ ih => exact ih
  | term _ ih => exact ih
  | binary _ _ _ ihl ihr => exact ⟨ihl, ihr⟩
  | sign _ _ ih => exact ih

theorem Derives.piece (h : Derives s .atom ids t) : Piece s ids t := by
  cases h with
  | atom h =>
    refine .token fun group side hk => ?_
    rw [hk] at h
    cases h
  | group ho h hc => exact .group ho h hc

theorem piece_of_pendingRole? {id : ElementId} {role : Role}
    (hid : (s.get id).pendingRole? = some role) : Piece s [id] (.leaf id) := by
  refine .token fun group side hk => ?_
  obtain ⟨symbol, first, second, hkind, -⟩ := Element.pendingRole?_eq_some_iff.1 hid
  rw [Store.kind, hkind] at hk
  cases hk

theorem Tree.bindFunctions_cons (h : t.pendingRole? s ≠ some .function) (rest : List Tree) :
    Tree.bindFunctions s (t :: rest) = (Tree.bindFunctions s rest).map (t :: ·) := by
  cases rest with
  | nil => simp [Tree.bindFunctions, h]
  | cons next rest => simp [Tree.bindFunctions, h]

/-- The second pass builds operands. -/
theorem bindFunctions_of_derives (h : Derives s .operand ids t) :
    ∃ ts, Row (Piece s) ids ts ∧ ∀ rest,
      Tree.bindFunctions s (ts ++ rest) = (Tree.bindFunctions s rest).map (t :: ·) := by
  cases h with
  | operand h =>
    refine ⟨[t], .single h.piece, Tree.bindFunctions_cons ?_⟩
    rw [h.pendingRole?]
    simp
  | @function id ids t hid h =>
    refine ⟨[.leaf id, t], (Row.single (piece_of_pendingRole? hid)).append (.single h.piece),
      fun rest => ?_⟩
    have hrole : (Tree.leaf id).pendingRole? s = some .function := hid
    simp [Tree.bindFunctions, hrole, Tree.root]

/-- **The passes build every derivation.** -/
theorem bind_of_derives : ∀ {ids : List ElementId} {t : Tree}, Derives s .term ids t →
    ∃ ts ts', Row (Piece s) ids ts ∧
      (∀ rest, Tree.bindFunctions s (ts ++ rest) = (Tree.bindFunctions s rest).map (ts' ++ ·)) ∧
      ∀ before, Tree.bindOperators s (ts'.reverse ++ before) [] = Tree.bindOperators s before [t]
  | ids, t, .term h => by
    obtain ⟨ts, hrow, hf⟩ := bindFunctions_of_derives h
    refine ⟨ts, [t], hrow, hf, fun before => ?_⟩
    have hrole := h.pendingRole?
    simp [Tree.bindOperators, hrole]
  | _, _, @Derives.binary _ id _ _ l _ hl hid hr => by
    obtain ⟨tsl, hrowl, hfl⟩ := bindFunctions_of_derives hl
    obtain ⟨tsr, tsr', hrowr, hfr, hor⟩ := bind_of_derives hr
    refine ⟨tsl ++ .leaf id :: tsr, l :: .leaf id :: tsr',
      hrowl.append ((Row.single (piece_of_pendingRole? hid)).append hrowr), fun rest => ?_,
      fun before => ?_⟩
    · have hrole : (Tree.leaf id).pendingRole? s ≠ some .function := by
        intro h
        rw [Tree.pendingRole?, hid] at h
        cases h
      rw [List.append_assoc, hfl, List.cons_append, Tree.bindFunctions_cons hrole, hfr]
      simp [Function.comp_def]
    · have hrole : (Tree.leaf id).pendingRole? s = some .binary := hid
      rw [List.reverse_cons, List.reverse_cons, List.append_assoc, List.append_assoc, hor]
      simp [Tree.bindOperators, hrole, Tree.root]
  | _, _, @Derives.sign _ id _ _ hid h => by
    obtain ⟨ts, ts', hrow, hf, ho⟩ := bind_of_derives h
    refine ⟨.leaf id :: ts, .leaf id :: ts',
      (Row.single (piece_of_pendingRole? hid)).append hrow, fun rest => ?_, fun before => ?_⟩
    · have hrole : (Tree.leaf id).pendingRole? s ≠ some .function := by
        intro h
        rw [Tree.pendingRole?, hid] at h
        cases h
      rw [List.cons_append, Tree.bindFunctions_cons hrole, hf]
      simp [Function.comp_def]
    · have hrole : (Tree.leaf id).pendingRole? s = some .sign := hid
      rw [List.reverse_cons, List.append_assoc, ho]
      simp [Tree.bindOperators, hrole, Tree.root]

end Complete

/-! ## What is built is derived -/

section Sound

variable {s : Store}

theorem isAtom_of_isToken {e : Element} (h : e.IsToken) (hs : e.kind.isStructural = false)
    (hp : e.pendingRole? = none) : e.kind.isAtom = true := by
  have hk := h.kind
  unfold Kind.isToken at hk
  split at hk <;> simp_all [Kind.isAtom, Kind.isStructural, Element.pendingRole?, h.unsealed]

/-- A piece that is clean is an atom. -/
theorem Piece.derives {slice : List ElementId} {t : Tree} (h : Piece s slice t)
    (htoken : ∀ id ∈ slice, (s.get id).IsToken) (hc : t.Clean s) : Derives s .atom slice t := by
  cases h with
  | token => exact .atom (isAtom_of_isToken (htoken _ List.mem_cons_self) hc.1 hc.2)
  | group ho h hclosing => exact .group ho h hclosing

theorem Piece.eq_root {slice : List ElementId} {t : Tree} (h : Piece s slice t) {role : Role}
    (hp : t.pendingRole? s = some role) : slice = [t.root] := by
  cases h with
  | token => rfl
  | group ho h hc =>
    rw [h.pendingRole?] at hp
    cases hp

/-- What the second pass leaves: an operand if it is clean, or a lone
    operator. -/
structure Bound (s : Store) (slice : List ElementId) (t : Tree) : Prop where
  derives : t.Clean s → Derives s .operand slice t
  eq_root : ∀ role, t.pendingRole? s = some role → slice = [t.root]

theorem Piece.bound {slice : List ElementId} {t : Tree} (h : Piece s slice t)
    (htoken : ∀ id ∈ slice, (s.get id).IsToken) : Bound s slice t :=
  ⟨fun hc => .operand (h.derives htoken hc), fun _ => h.eq_root⟩

theorem bound_of_bindFunctions {slices : List (List ElementId)} {ts ts' : List Tree}
    (h : List.Forall₂ (Piece s) slices ts)
    (htoken : ∀ id ∈ slices.flatten, (s.get id).IsToken)
    (hb : Tree.bindFunctions s ts = some ts') : Row (Bound s) slices.flatten ts' := by
  fun_induction Tree.bindFunctions s ts generalizing slices ts' with
  | case1 =>
    cases h
    cases hb
    exact ⟨[], rfl, .nil⟩
  | case2 => cases hb
  | case3 t hrole =>
    obtain ⟨slice, _, hp, hnil, rfl⟩ := List.forall₂_cons_right_iff.1 h
    cases hnil
    cases hb
    simp only [List.flatten_cons, List.flatten_nil, List.append_nil] at htoken ⊢
    exact .single (hp.bound htoken)
  | case4 t next rest hrole ih =>
    obtain ⟨slice, _, hp, hrest, rfl⟩ := List.forall₂_cons_right_iff.1 h
    obtain ⟨slice', slices', hp', hrest', rfl⟩ := List.forall₂_cons_right_iff.1 hrest
    obtain ⟨ts'', hb', rfl⟩ := Option.map_eq_some_iff.1 hb
    simp only [List.flatten_cons, List.mem_append] at htoken ⊢
    have hroot := hp.eq_root hrole
    have happlied : Bound s (slice ++ slice') (.applied t.root next) := by
      refine ⟨fun hc => ?_, by simp [Tree.pendingRole?]⟩
      rw [hroot]
      refine .function ?_ (hp'.derives (fun id hid => htoken id (Or.inr (Or.inl hid))) hc)
      cases hp with
      | token => exact hrole
      | group ho h hc =>
        rw [h.pendingRole?] at hrole
        cases hrole
    rw [← List.append_assoc]
    exact (Row.single happlied).append
      (ih hrest' (fun id hid => htoken id (Or.inr (Or.inr hid))) hb')
  | case5 t next rest hrole ih =>
    obtain ⟨slice, slices', hp, hrest, rfl⟩ := List.forall₂_cons_right_iff.1 h
    obtain ⟨ts'', hb', rfl⟩ := Option.map_eq_some_iff.1 hb
    simp only [List.flatten_cons, List.mem_append] at htoken ⊢
    exact (Row.single (hp.bound fun id hid => htoken id (Or.inl hid))).append
      (ih hrest (fun id hid => htoken id (Or.inr hid)) hb')

/-- What stands right of the tree at hand is never taken. -/
theorem length_of_bindOperators : ∀ {before : List Tree} {t : Tree} {after out : List Tree},
    Tree.bindOperators s before (t :: after) = some out → after.length < out.length
  | [], t, after, out, h => by
    rw [Tree.bindOperators] at h
    cases h
    exact Nat.lt_succ_self _
  | u :: before, t, after, out, h => by
    unfold Tree.bindOperators at h
    split at h
    · rename_i heq
      cases heq
      exact length_of_bindOperators h
    · cases h
    · rename_i heq
      cases heq
      exact length_of_bindOperators h
    · cases h
    · exact Nat.lt_of_succ_lt (length_of_bindOperators h)

/-- What the third pass builds from operands and lone operators on the left of
    a term is a term. -/
theorem derives_of_bindOperators : ∀ {before : List Tree} {slices : List (List ElementId)}
    {ids : List ElementId} {x t : Tree}, List.Forall₂ (Bound s) slices before →
    (x.Clean s → Derives s .term ids x) → Tree.bindOperators s before [x] = some [t] →
    t.Clean s → Derives s .term (slices.reverse.flatten ++ ids) t
  | [], slices, ids, x, t, hs, hx, h, hc => by
    cases hs
    rw [Tree.bindOperators] at h
    cases h
    exact hx hc
  | u :: before, slices, ids, x, t, hs, hx, h, hc => by
    obtain ⟨slice, slices', hu, hrest, rfl⟩ := List.forall₂_cons_right_iff.1 hs
    unfold Tree.bindOperators at h
    split at h
    · rename_i hrole heq
      cases heq
      have hsign : (Tree.applied u.root x).Clean s → Derives s .term (u.root :: ids)
          (.applied u.root x) := fun hclean => .sign (Tree.pendingRole?_root hrole) (hx hclean)
      have := derives_of_bindOperators hrest hsign h hc
      simpa [hu.eq_root _ hrole] using this
    · cases h
    · rename_i left before right after hrole heq
      cases heq
      obtain ⟨sliceL, slices'', hl, hrest', rfl⟩ := List.forall₂_cons_right_iff.1 hrest
      have hbinary : (Tree.joined u.root left x).Clean s →
          Derives s .term (sliceL ++ u.root :: ids) (.joined u.root left x) := fun hclean =>
        .binary (hl.derives hclean.1) (Tree.pendingRole?_root hrole) (hx hclean.2)
      have := derives_of_bindOperators hrest' hbinary h hc
      simpa [hu.eq_root _ hrole] using this
    · cases h
    · exact absurd (length_of_bindOperators h) (by simp)

/-- **What the passes build is derived** if it is clean. -/
theorem derives_of_bind {ids : List ElementId} {ts ts' : List Tree} {t : Tree}
    (h : Row (Piece s) ids ts) (htoken : ∀ id ∈ ids, (s.get id).IsToken)
    (hf : Tree.bindFunctions s ts = some ts')
    (ho : Tree.bindOperators s ts'.reverse [] = some [t]) (hc : t.Clean s) :
    Derives s .term ids t := by
  obtain ⟨slices, rfl, hpieces⟩ := h
  obtain ⟨slices', heq, hbound⟩ := bound_of_bindFunctions hpieces htoken hf
  rw [heq]
  have hrev := List.forall₂_reverse_iff.2 hbound
  generalize ts'.reverse = before at ho hrev
  cases before with
  | nil =>
    rw [Tree.bindOperators] at ho
    cases ho
  | cons u before =>
    obtain ⟨slice, rest, hu, hrest, he⟩ := List.forall₂_cons_right_iff.1 hrev
    unfold Tree.bindOperators at ho
    have hslices : slices'.flatten = rest.reverse.flatten ++ slice := by
      rw [← List.reverse_reverse slices', he]
      simp
    rw [hslices]
    split at ho
    · rename_i heq'
      cases heq'
    · cases ho
    · rename_i heq'
      cases heq'
    · cases ho
    · exact derives_of_bindOperators hrest (fun hclean => .term (hu.derives hclean)) ho hc

end Sound

end FormulaSheet
