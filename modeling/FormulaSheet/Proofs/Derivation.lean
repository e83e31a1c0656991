/-
  Reduction is parsing.

  On terms without brackets in which no parenthesis opens a call, a reduction
  succeeds exactly if the term derives from `T`, and what it builds is the tree
  of the derivation.

  * `Tree.Holds s s' t`: in `s'` the elements of `t` are linked as in `t`, and
    apart from that they are as in `s`.
  * `bindFunctions_holds` and `bindOperators_holds`: the passes on elements do
    what the passes on trees do.
  * `reduce_sound` and `reduce_complete`: the two directions, by induction on the
    length of the term.
-/
import FormulaSheet.Proofs.Grammar

namespace FormulaSheet

open Store

theorem lt_size_of_isToken {s : Store} {id : ElementId} (h : (s.get id).IsToken) :
    id < s.size := by
  refine Nat.lt_of_not_le fun hle => ?_
  have hk := h.kind
  rw [get_of_size_le hle] at hk
  cases hk

/-! ## Trees in a store -/

namespace Tree

/-- The elements of the tree are linked, and apart from that they are as in
    `s`. -/
def Holds (s s' : Store) : Tree → Prop
  | leaf id => s'.get id = s.get id
  | applied operator operand =>
    ((s.kind operator).isOperator = true ∧
      s'.get operator = (s.get operator).withOperands (some operand.root) none) ∧ operand.Holds s s'
  | joined operator left right =>
    ((s.kind operator).isOperator = true ∧
      s'.get operator = (s.get operator).withOperands (some left.root) (some right.root)) ∧
      left.Holds s s' ∧ right.Holds s s'

variable {s s₁ s₂ s' s'' : Store} {t : Tree}

theorem Holds.congr (h : t.Holds s s') (hs : ∀ id ∈ t.ids, s''.get id = s'.get id) :
    t.Holds s s'' := by
  induction t with
  | leaf id => exact (hs id List.mem_cons_self).trans h
  | applied operator operand ih =>
    refine ⟨⟨h.1.1, ?_⟩, ih h.2 fun id hid => hs id (by simp [ids, hid])⟩
    rw [hs operator (by simp [ids]), h.1.2]
  | joined operator left right ihl ihr =>
    refine ⟨⟨h.1.1, ?_⟩, ihl h.2.1 fun id hid => hs id (by simp [ids, hid]),
      ihr h.2.2 fun id hid => hs id (by simp [ids, hid])⟩
    rw [hs operator (by simp [ids]), h.1.2]

theorem Holds.congr_left (h : t.Holds s₁ s') (hs : ∀ id ∈ t.ids, s₁.get id = s₂.get id) :
    t.Holds s₂ s' := by
  induction t with
  | leaf id => exact h.trans (hs id List.mem_cons_self)
  | applied operator operand ih =>
    have hop := hs operator (by simp [ids])
    exact ⟨by rw [kind, ← hop]; exact h.1, ih h.2 fun id hid => hs id (by simp [ids, hid])⟩
  | joined operator left right ihl ihr =>
    have hop := hs operator (by simp [ids])
    exact ⟨by rw [kind, ← hop]; exact h.1, ihl h.2.1 fun id hid => hs id (by simp [ids, hid]),
      ihr h.2.2 fun id hid => hs id (by simp [ids, hid])⟩

theorem Holds.modify (h : t.Holds s s') {id : ElementId} (hid : id ∉ t.ids)
    (f : Element → Element) : t.Holds s (s'.modify id f) :=
  h.congr fun _ hx => get_modify_of_ne f fun he => hid (he ▸ hx)

/-- Operators with operands wait for nothing. -/
theorem Holds.pendingRole? (h : t.Holds s s') :
    (s'.get t.root).pendingRole? = t.pendingRole? s := by
  have sealed : ∀ (e : Element) (first second : Option ElementId),
      (e.withOperands first second).pendingRole? = none := by
    intro e first second
    unfold Element.withOperands Element.pendingRole?
    cases e.kind <;> simp
  cases t with
  | leaf id => exact congrArg _ h
  | applied operator operand => rw [root, h.1.2, sealed]; rfl
  | joined operator left right => rw [root, h.1.2, sealed]; rfl

theorem Holds.lt_size (h : t.Holds s s') (htoken : ∀ id ∈ t.ids, (s.get id).IsToken)
    {id : ElementId} (hid : id ∈ t.ids) : id < s'.size := by
  have operator : ∀ {op : ElementId} {first second : Option ElementId},
      (s.kind op).isOperator = true → s'.get op = (s.get op).withOperands first second →
      op < s'.size := by
    intro op first second ho hget
    refine lt_size_of_isOperator ?_
    rw [kind, hget, (Element.retouched_withOperands ho first second).isOperator_eq]
    exact ho
  induction t with
  | leaf x =>
    obtain rfl := List.mem_singleton.1 hid
    exact lt_size_of_isToken (h ▸ htoken id hid)
  | applied op operand ih =>
    rcases List.mem_cons.1 hid with rfl | hid
    · exact operator h.1.1 h.1.2
    · exact ih h.2 (fun x hx => htoken x (by simp [ids, hx])) hid
  | joined op left right ihl ihr =>
    rcases List.mem_append.1 hid with hid | hid
    · exact ihl h.2.1 (fun x hx => htoken x (by simp [ids, hx])) hid
    · rcases List.mem_cons.1 hid with rfl | hid
      · exact operator h.1.1 h.1.2
      · exact ihr h.2.2 (fun x hx => htoken x (by simp [ids, hx])) hid

/-- A pending tree is an operator as it was. -/
theorem Holds.get_modify_root {role : Role} (h : t.Holds s s')
    (hrole : t.pendingRole? s = some role)
    (f : Element → Element) : (s.kind t.root).isOperator = true ∧
      (s'.modify t.root f).get t.root = f (s.get t.root) := by
  cases t with
  | leaf id =>
    have hop := Element.isOperator_of_pendingRole? hrole
    have hlt : id < s'.size := lt_size_of_isOperator (by rw [kind, h]; exact hop)
    exact ⟨hop, by rw [root, get_modify_self f hlt, h]⟩
  | applied => cases hrole
  | joined => cases hrole

theorem Holds.applied {operand : Tree} {role : Role} (h : t.Holds s s') (ho : operand.Holds s s')
    (hrole : t.pendingRole? s = some role) (hid : t.root ∉ operand.ids) :
    (Tree.applied t.root operand).Holds s
      (s'.modify t.root (·.withOperands (some operand.root) none)) :=
  ⟨h.get_modify_root hrole _, ho.modify hid _⟩

theorem Holds.joined {left right : Tree} {role : Role} (h : t.Holds s s') (hl : left.Holds s s')
    (hr : right.Holds s s') (hrole : t.pendingRole? s = some role) (hidl : t.root ∉ left.ids)
    (hidr : t.root ∉ right.ids) : (Tree.joined t.root left right).Holds s
      (s'.modify t.root (·.withOperands (some left.root) (some right.root))) :=
  ⟨h.get_modify_root hrole _, hl.modify hidl _, hr.modify hidr _⟩

/-- A pending tree is a single element. -/
theorem ids_of_pendingRole? {role : Role} (h : t.pendingRole? s = some role) :
    t.ids = [t.root] := by
  cases t with
  | leaf => rfl
  | applied => cases h
  | joined => cases h

/-- The second pass keeps the order of the elements. -/
theorem ids_bindFunctions {ts ts' : List Tree} (h : bindFunctions s ts = some ts') :
    ts'.flatMap ids = ts.flatMap ids := by
  fun_induction bindFunctions s ts generalizing ts' with
  | case1 => cases h; rfl
  | case2 => cases h
  | case3 => cases h; rfl
  | case4 t next rest hrole ih =>
    obtain ⟨us, hus, rfl⟩ := Option.map_eq_some_iff.1 h
    simp [ih hus, ids, ids_of_pendingRole? hrole]
  | case5 t next rest _ ih =>
    obtain ⟨us, hus, rfl⟩ := Option.map_eq_some_iff.1 h
    simp [ih hus]

/-- The third pass keeps the order of the elements. -/
theorem ids_bindOperators {before after out : List Tree}
    (h : bindOperators s before after = some out) :
    out.flatMap ids = (before.reverse ++ after).flatMap ids := by
  fun_induction bindOperators s before after with
  | case1 => cases h; rfl
  | case2 t before operand after hrole ih =>
    simp [ih h, ids, ids_of_pendingRole? hrole]
  | case3 => cases h
  | case4 t left before right after hrole ih =>
    simp [ih h, ids, ids_of_pendingRole? hrole]
  | case5 => cases h
  | case6 t before after _ _ _ _ ih => simp [ih h]

/-- Trees without common elements do not hold each other's roots. -/
theorem root_not_mem_ids {us vs : List Tree} (h : ((us ++ t :: vs).flatMap ids).Nodup) :
    ∀ u ∈ us ++ vs, t.root ∉ u.ids := by
  intro u hu hm
  have hperm : (us ++ t :: vs).Perm (t :: (us ++ vs)) := List.perm_middle
  rw [(hperm.flatMap_right ids).nodup_iff, List.flatMap_cons, List.nodup_append] at h
  exact h.2.2 _ t.root_mem_ids _ (List.mem_flatMap.2 ⟨u, hu, hm⟩) rfl

end Tree

/-! ## The passes on elements -/

namespace Term

open Reducing

/-- The outcome of a pass whose counterpart on trees has the given result. -/
def Builds (s : Store) (trees : Option (List Tree)) (r : Except Fault (List ElementId))
    (s' : Store) : Prop :=
  match trees with
  | some ts => r = .ok (ts.map Tree.root) ∧ ∀ t ∈ ts, t.Holds s s'
  | none => ∃ fault, r = .error fault

theorem Builds.of_ok {s s' : Store} {trees : Option (List Tree)} {work : List ElementId}
    (h : Builds s trees (.ok work) s') :
    ∃ ts, trees = some ts ∧ work = ts.map Tree.root ∧ ∀ t ∈ ts, t.Holds s s' := by
  cases trees with
  | none => obtain ⟨fault, ⟨⟩⟩ := h
  | some ts =>
    obtain ⟨⟨⟩, hts⟩ := h
    exact ⟨ts, rfl, rfl, hts⟩

theorem Builds.of_error {s s' : Store} {trees : Option (List Tree)} {fault : Fault}
    (h : Builds s trees (.error fault) s') : trees = none := by
  cases trees with
  | none => rfl
  | some ts => cases h.1

/-- A tree that is in place stays so while the trees after it are bound. -/
theorem ensures_cons {s : Store} {t : Tree} {trees : Option (List Tree)} {ids : List ElementId}
    {x : Reducing (List ElementId)} {w : Workspace} (ht : t.Holds s w.store)
    (hids : ∀ id ∈ t.ids, id ∉ ids)
    (hx : x.Ensures w fun r w' => (∀ id ∉ ids, w'.store.get id = w.store.get id) ∧
      Builds s trees r w'.store) :
    (x >>= fun rest => pure (t.root :: rest)).Ensures w fun r w' =>
      (∀ id ∉ ids, w'.store.get id = w.store.get id) ∧
        Builds s (trees.map (t :: ·)) r w'.store := by
  refine ensures_bind hx ?_ ?_
  · rintro rest w' ⟨hframe, hb⟩
    obtain ⟨ts, rfl, rfl, hts⟩ := hb.of_ok
    refine ⟨hframe, rfl, List.forall_mem_cons.2 ⟨?_, hts⟩⟩
    exact ht.congr fun id hid => hframe id (hids id hid)
  · rintro fault w' ⟨hframe, hb⟩
    rw [hb.of_error]
    exact ⟨hframe, fault, rfl⟩

theorem bindFunctions_holds {s : Store} : ∀ {ts : List Tree} {w : Workspace},
    (ts.flatMap Tree.ids).Nodup → (∀ t ∈ ts, t.Holds s w.store) →
    (bindFunctions (ts.map Tree.root)).Ensures w fun r w' =>
      (∀ id ∉ ts.flatMap Tree.ids, w'.store.get id = w.store.get id) ∧
        Builds s (Tree.bindFunctions s ts) r w'.store
  | [], w, _, _ => ⟨fun _ _ => rfl, rfl, by simp⟩
  | [t], w, hn, ht => by
    have hrole := (ht t List.mem_cons_self).pendingRole?
    rw [List.map_cons, List.map_nil, bindFunctions, ensures_store_bind, hrole,
      Tree.bindFunctions]
    split
    · simp [Builds]
    · exact ⟨fun _ _ => rfl, rfl, ht⟩
  | t :: next :: rest, w, hn, ht => by
    have hholds := ht t List.mem_cons_self
    have hnext := ht next (by simp)
    rw [List.flatMap_cons, List.nodup_append] at hn
    obtain ⟨-, hn, hdisj⟩ := hn
    rw [List.map_cons, List.map_cons, bindFunctions, ensures_store_bind, hholds.pendingRole?,
      Tree.bindFunctions]
    split
    · rename_i hrole
      rw [List.flatMap_cons, List.nodup_append] at hn
      obtain ⟨-, hn, hdisj'⟩ := hn
      have hroot : ∀ id ∈ (next :: rest).flatMap Tree.ids, t.root ≠ id :=
        hdisj t.root t.root_mem_ids
      have hin : ∀ {u id}, u ∈ next :: rest → id ∈ u.ids → id ∈ (next :: rest).flatMap Tree.ids :=
        fun hu hid => List.mem_flatMap.2 ⟨_, hu, hid⟩
      have happlied := hholds.applied hnext hrole fun h => hroot _ (hin (by simp) h) rfl
      rw [ensures_lift_bind, run_giveOperands]
      refine (ensures_cons (t := .applied t.root next) happlied ?_
        (bindFunctions_holds hn fun u hu => ?_)).imp ?_
      · rintro id hid hmem
        rcases List.mem_cons.1 hid with rfl | hid
        · exact hroot _ (List.mem_append_right _ hmem) rfl
        · exact hdisj' id hid id hmem rfl
      · exact (ht u (by simp [hu])).modify (fun h => hroot _ (hin (by simp [hu]) h) rfl) _
      · rintro r w' ⟨hframe, hb⟩
        refine ⟨fun id hid => ?_, hb⟩
        simp only [List.flatMap_cons, List.mem_append, not_or] at hid
        rw [hframe id hid.2.2]
        exact get_modify_of_ne _ fun he => hid.1 (he ▸ t.root_mem_ids)
    · refine (ensures_cons hholds (fun id hid hm => hdisj id hid id hm rfl)
        (bindFunctions_holds hn fun u hu => ht u (List.mem_cons_of_mem t hu))).imp ?_
      rintro r w' ⟨hframe, hb⟩
      refine ⟨fun id hid => hframe id fun hm => hid ?_, hb⟩
      exact List.mem_append_right _ hm

theorem bindOperators_holds {s : Store} : ∀ {before after : List Tree} {w : Workspace},
    ((before.reverse ++ after).flatMap Tree.ids).Nodup →
    (∀ t ∈ before.reverse ++ after, t.Holds s w.store) →
    (bindOperators (before.map Tree.root) (after.map Tree.root)).Ensures w fun r w' =>
      Builds s (Tree.bindOperators s before after) r w'.store
  | [], after, w, _, ht => by
    rw [List.map_nil, bindOperators, Tree.bindOperators]
    exact ⟨rfl, ht⟩
  | t :: before, after, w, hn, ht => by
    rw [List.reverse_cons, List.append_assoc] at hn ht
    have hholds := ht t (by simp)
    have hfree := Tree.root_not_mem_ids hn
    have skip := @bindOperators_holds s before (t :: after) w hn ht
    rw [List.map_cons]
    unfold bindOperators Tree.bindOperators
    rw [ensures_store_bind, hholds.pendingRole?]
    cases hrole : t.pendingRole? s with
    | none => exact skip
    | some role =>
      have hroot : t.ids = [t.root] := Tree.ids_of_pendingRole? hrole
      cases role with
      | function => exact skip
      | sign =>
        cases after with
        | nil => exact ⟨_, rfl⟩
        | cons operand after =>
          have happlied := hholds.applied (ht operand (by simp)) hrole (hfree operand (by simp))
          refine @bindOperators_holds s before (.applied t.root operand :: after) _ ?_
            fun u hu => ?_
          · simpa [Tree.ids, hroot] using hn
          · rw [List.mem_append, List.mem_cons] at hu
            rcases hu with hu | rfl | hu
            · exact (ht u (by simp [hu])).modify (hfree u (by simp [hu])) _
            · exact happlied
            · exact (ht u (by simp [hu])).modify (hfree u (by simp [hu])) _
      | binary =>
        cases before with
        | nil => exact ⟨_, rfl⟩
        | cons left before =>
          cases after with
          | nil => exact ⟨_, rfl⟩
          | cons right after =>
            have hjoined := hholds.joined (ht left (by simp)) (ht right (by simp)) hrole
              (hfree left (by simp)) (hfree right (by simp))
            refine @bindOperators_holds s before (.joined t.root left right :: after) _ ?_
              fun u hu => ?_
            · simpa [Tree.ids, hroot] using hn
            · rw [List.mem_append, List.mem_cons] at hu
              rcases hu with hu | rfl | hu
              · exact (ht u (by simp [hu])).modify (hfree u (by simp [hu])) _
              · exact hjoined
              · exact (ht u (by simp [hu])).modify (hfree u (by simp [hu])) _

/-- The check looks through an operator with operands. -/
theorem unfinishedWithin_of_withOperands {s s' : Store} {id : ElementId}
    {first second : Option ElementId} (ho : (s.kind id).isOperator = true)
    (hget : s'.get id = (s.get id).withOperands first second) (depth : Nat) :
    unfinishedWithin s' (depth + 1) id =
      (first.toList ++ second.toList).reverse.findSome? (unfinishedWithin s' depth) := by
  obtain ⟨symbol, role, a, b, hk⟩ := Kind.isOperator_iff.1 ho
  rw [kind] at hk
  rw [unfinishedWithin, hget]
  simp [Element.withOperands, hk, Kind.isStructural, Element.pendingRole?, Kind.children]

/-- The check of a reduction accepts the trees that are clean. -/
theorem unfinishedWithin_eq_none_iff {s s' : Store} {t : Tree} {depth : Nat} (h : t.Holds s s')
    (htoken : ∀ id ∈ t.ids, (s.get id).IsToken) (hd : t.ids.length ≤ depth) :
    unfinishedWithin s' depth t.root = none ↔ t.Clean s := by
  induction t generalizing depth with
  | leaf id =>
    obtain ⟨depth, rfl⟩ := Nat.exists_eq_succ_of_ne_zero (Nat.ne_of_gt hd)
    have hchildren := (htoken id List.mem_cons_self).fresh.children
    have hget : s'.get id = s.get id := h
    rw [Tree.root, unfinishedWithin, hget, Tree.Clean, kind]
    split
    · simp_all
    · cases (s.get id).pendingRole? with
      | some role => simp
      | none =>
        simp only [Option.isSome_none, Bool.false_eq_true, if_false]
        split <;> simp_all
  | applied operator operand ih =>
    rw [Tree.ids, List.length_cons] at hd
    obtain ⟨depth, rfl⟩ : ∃ d, depth = d + 1 := ⟨depth - 1, by omega⟩
    obtain ⟨⟨hop, hget⟩, ho⟩ := h
    rw [Tree.root, unfinishedWithin_of_withOperands hop hget]
    simpa [Tree.Clean] using ih ho (fun id hid => htoken id (by simp [Tree.ids, hid]))
      (Nat.le_of_succ_le_succ hd)
  | joined operator left right ihl ihr =>
    rw [Tree.ids, List.length_append, List.length_cons] at hd
    obtain ⟨depth, rfl⟩ : ∃ d, depth = d + 1 := ⟨depth - 1, by omega⟩
    obtain ⟨⟨hop, hget⟩, hl, hr⟩ := h
    rw [Tree.root, unfinishedWithin_of_withOperands hop hget]
    have hleft : unfinishedWithin s' depth left.root = none ↔ left.Clean s :=
      ihl hl (fun id hid => htoken id (by simp [Tree.ids, hid])) (by omega)
    have hright : unfinishedWithin s' depth right.root = none ↔ right.Clean s :=
      ihr hr (fun id hid => htoken id (by simp [Tree.ids, hid])) (by omega)
    simp [Tree.Clean, ← hleft, ← hright, and_comm]

end Term

/-! ## Groups -/

/-- What a parenthesis right after it may call: a name, or a group that may hold
    one. -/
def Kind.mayBeCalled : Kind → Bool
  | name _ | delimiter .parenthesis .closing => true
  | _ => false

/-- A term of fresh elements, without brackets, in which no parenthesis opens a
    call. -/
structure Plain (s : Store) (term : List ElementId) : Prop where
  nodup : term.Nodup
  token : ∀ id ∈ term, (s.get id).IsToken
  noBracket : ∀ id ∈ term, s.kind id ≠ .delimiter .bracket .opening ∧
    s.kind id ≠ .delimiter .bracket .closing
  noCall : term.IsChain fun previous id => s.kind id = .delimiter .parenthesis .opening →
    (s.kind previous).mayBeCalled = false

instance (s : Store) (term : List ElementId) : Decidable (Plain s term) :=
  decidable_of_iff (term.Nodup ∧ (∀ id ∈ term, (s.get id).IsToken) ∧
      (∀ id ∈ term, s.kind id ≠ .delimiter .bracket .opening ∧
        s.kind id ≠ .delimiter .bracket .closing) ∧
      term.IsChain fun previous id => s.kind id = .delimiter .parenthesis .opening →
        (s.kind previous).mayBeCalled = false)
    ⟨fun ⟨h₁, h₂, h₃, h₄⟩ => ⟨h₁, h₂, h₃, h₄⟩, fun ⟨h₁, h₂, h₃, h₄⟩ => ⟨h₁, h₂, h₃, h₄⟩⟩

namespace Plain

variable {s s' : Store} {id opening closing : ElementId} {term inner rest : List ElementId}

theorem congr (h : Plain s term) (hs : ∀ id ∈ term, s'.get id = s.get id) : Plain s' term where
  nodup := h.nodup
  token id hid := by rw [hs id hid]; exact h.token id hid
  noBracket id hid := by rw [kind, hs id hid]; exact h.noBracket id hid
  noCall := by
    refine h.noCall.imp_of_mem_imp fun a b ha hb => ?_
    rw [kind, kind, kind, kind, hs a ha, hs b hb]
    exact fun h => h

theorem tail (h : Plain s (id :: rest)) : Plain s rest where
  nodup := h.nodup.of_cons
  token x hx := h.token x (List.mem_cons_of_mem id hx)
  noBracket x hx := h.noBracket x (List.mem_cons_of_mem id hx)
  noCall := h.noCall.tail

theorem append_left (h : Plain s (inner ++ rest)) : Plain s inner where
  nodup := (List.nodup_append.1 h.nodup).1
  token x hx := h.token x (List.mem_append_left rest hx)
  noBracket x hx := h.noBracket x (List.mem_append_left rest hx)
  noCall := h.noCall.left_of_append

theorem append_right (h : Plain s (inner ++ rest)) : Plain s rest where
  nodup := (List.nodup_append.1 h.nodup).2.1
  token x hx := h.token x (List.mem_append_right inner hx)
  noBracket x hx := h.noBracket x (List.mem_append_right inner hx)
  noCall := h.noCall.right_of_append

end Plain

/-- The first pass has read up to a plain term: the term is as it was, and no
    name stands before a parenthesis that opens it. -/
structure Ready (s s' : Store) (done term : List ElementId) : Prop where
  plain : Plain s term
  same : ∀ id ∈ term, s'.get id = s.get id
  noName : ∀ previous ∈ done.head?, ∀ id ∈ term.head?,
    s.kind id = .delimiter .parenthesis .opening → ∀ name, s'.kind previous ≠ .name name

namespace Ready

variable {s s' s₁ : Store} {id opening closing root : ElementId}
  {done inner rest : List ElementId}

theorem lt_size {term : List ElementId} (h : Ready s s' done term) (hid : id ∈ term) :
    id < s'.size :=
  lt_size_of_isToken (by rw [h.same id hid]; exact h.plain.token id hid)

theorem single (h : Ready s s' done (id :: rest)) : Ready s s' (id :: done) rest where
  plain := h.plain.tail
  same x hx := h.same x (List.mem_cons_of_mem id hx)
  noName := by
    intro previous hprevious next hnext hk name
    obtain rfl : id = previous := by simpa using hprevious
    rw [kind, h.same id List.mem_cons_self]
    cases rest with
    | nil => cases hnext
    | cons x rest =>
      obtain rfl : x = next := by simpa using hnext
      have hcalled := (List.isChain_cons_cons.1 h.plain.noCall).1 hk
      rintro hname
      rw [kind, hname] at hcalled
      cases hcalled

/-- The inside of a group is plain. -/
theorem plain_inner (h : Ready s s' done (opening :: (inner ++ closing :: rest))) :
    Plain s' inner :=
  h.plain.tail.append_left.congr fun x hx => h.same x (by simp [hx])

/-- After a group. -/
theorem group (h : Ready s s' done (opening :: (inner ++ closing :: rest)))
    (hc : s.kind closing = .delimiter .parenthesis .closing) (hs : Later inner s' s₁) :
    Ready s s₁ (root :: done) rest := by
  have hplain := h.plain.tail.append_right
  refine ⟨hplain.tail, fun x hx => ?_, fun previous _ next hnext hk => ?_⟩
  · have hn := (List.nodup_append.1 h.plain.tail.nodup).2.2
    rw [hs.kept x (h.lt_size (by simp [hx])) fun hm => hn x hm x (by simp [hx]) rfl]
    exact h.same x (by simp [hx])
  · cases rest with
    | nil => cases hnext
    | cons x rest =>
      obtain rfl : x = next := by simpa using hnext
      have hcalled := (List.isChain_cons_cons.1 hplain.noCall).1 hk
      rw [hc] at hcalled
      cases hcalled

end Ready

/-- The first pass has read a term: it has left the given trees, and has changed
    nothing outside the term. -/
structure Collapsed (s s₁ s₂ : Store) (done term : List ElementId) (ts : List Tree)
    (work : List ElementId) : Prop where
  eq_append : work = done.reverse ++ ts.map Tree.root
  holds : ∀ t ∈ ts, t.Holds s s₂
  kept : ∀ id < s₁.size, id ∉ term → s₂.get id = s₁.get id

namespace Collapsed

variable {s s₁ s₂ s₃ : Store} {id opening closing : ElementId}
  {done inner rest work : List ElementId} {t : Tree} {ts : List Tree}

theorem nil (s s₁ : Store) (done : List ElementId) : Collapsed s s₁ s₁ done [] [] done.reverse :=
  ⟨by simp, by simp, fun _ _ _ => rfl⟩

theorem single (hr : Ready s s₁ done (id :: rest))
    (h : Collapsed s s₁ s₂ (id :: done) rest ts work) :
    Collapsed s s₁ s₂ done (id :: rest) (.leaf id :: ts) work where
  eq_append := by simp [h.eq_append, Tree.root]
  holds := by
    refine List.forall_mem_cons.2 ⟨?_, h.holds⟩
    have hid : id ∉ rest := (List.nodup_cons.1 hr.plain.nodup).1
    exact (h.kept id (hr.lt_size List.mem_cons_self) hid).trans (hr.same id List.mem_cons_self)
  kept x hx hm := h.kept x hx fun hmem => hm (List.mem_cons_of_mem id hmem)

theorem group (hr : Ready s s₁ done (opening :: (inner ++ closing :: rest)))
    (ht : Derives s .term inner t) (hholds : t.Holds s₁ s₂) (hs : Later inner s₁ s₂)
    (h : Collapsed s s₂ s₃ (t.root :: done) rest ts work) :
    Collapsed s s₁ s₃ done (opening :: (inner ++ closing :: rest)) (t :: ts) work where
  eq_append := by simp [h.eq_append]
  holds := by
    have hn := (List.nodup_append.1 hr.plain.tail.nodup).2.2
    have hin : ∀ {x}, x ∈ t.ids → x ∈ inner := fun hx => ht.ids_sublist.subset hx
    refine List.forall_mem_cons.2 ⟨?_, h.holds⟩
    refine (hholds.congr_left fun x hx => hr.same x (by simp [hin hx])).congr fun x hx => ?_
    refine h.kept x (Nat.lt_of_lt_of_le (hr.lt_size (by simp [hin hx])) hs.size_le) fun hm => ?_
    exact hn x (hin hx) x (by simp [hm]) rfl
  kept x hx hm := by
    simp only [List.mem_cons, List.mem_append, not_or] at hm
    rw [h.kept x (Nat.lt_of_lt_of_le hx hs.size_le) hm.2.2.2, hs.kept x hx hm.2.1]

end Collapsed

namespace Term

open Reducing

variable {c : Context} {s : Store}

/-- A group that no name stands before is a term of its own. -/
theorem ensures_group {reduce : List ElementId → Reducing ElementId} {done inner : List ElementId}
    {parts : List Segment} {w : Workspace}
    {Q : Except Fault (List ElementId) → Workspace → Prop}
    (hd : ∀ previous ∈ done.head?, ∀ name, w.store.kind previous ≠ .name name) :
    (collapseGroups c reduce done (.group .parenthesis inner :: parts)).Ensures w Q ↔
      (reduce inner >>= fun node => collapseGroups c reduce (node :: done) parts).Ensures w Q := by
  cases done with
  | nil => rw [collapseGroups]
  | cons previous done =>
    rw [collapseGroups, ensures_store_bind]
    split
    · rename_i name hk
      exact absurd hk (hd previous rfl name)
    · rfl

/-- A reduction changes its own term at most. -/
theorem reduce_later (c : Context) (term : List ElementId) (w : Workspace) :
    (reduce c term).Ensures w fun _ w' => Later term w.store w'.store :=
  (reduce_steps c term w).imp fun _ _ h => h.1.later

/-- What a reduction returns is derived. -/
def Sound (c : Context) (term : List ElementId) : Prop :=
  ∀ w : Workspace, Plain w.store term → (reduce c term).Returns w fun root w' =>
    ∃ t, Derives w.store .term term t ∧ root = t.root ∧ t.Holds w.store w'.store

theorem collapseGroups_sound {n : Nat}
    (hr : ∀ inner : List ElementId, inner.length < n → Sound c inner)
    {term done : List ElementId} {w : Workspace} (hn : term.length ≤ n)
    (h : Ready s w.store done term) :
    (collapseGroups c (reduce c) done (segments s term)).Returns w fun work w' =>
      ∃ ts, Row (Piece s) term ts ∧ Collapsed s w.store w'.store done term ts work := by
  fun_induction segments s term generalizing done w with
  | case1 =>
    rw [collapseGroups, returns_pure]
    exact ⟨[], ⟨[], rfl, .nil⟩, .nil s w.store done⟩
  | case2 => exact returns_throw
  | case3 => exact returns_throw
  | case4 opening rest g hk inner after hs ih =>
    obtain ⟨closing, rfl, hclosing⟩ := eq_append_of_splitClosing? hs
    cases g with
    | bracket => exact absurd hk (h.plain.noBracket opening List.mem_cons_self).1
    | parenthesis =>
      simp only [List.length_cons, List.length_append] at hn
      refine (ensures_group fun p hp => h.noName p hp opening rfl hk).2 ?_
      refine ensures_bind ((hr inner (by omega) w h.plain_inner).and (reduce_later c inner w)) ?_
        (by simp)
      rintro node w₁ ⟨hnode, hlater⟩
      obtain ⟨t, ht, rfl, hholds⟩ := hnode node rfl
      have ht : Derives s .term inner t := ht.congr fun x hx => (h.same x (by simp [hx])).symm
      refine Returns.imp (ih (by omega) (h.group hclosing hlater)) ?_
      rintro work w' ⟨ts, hrow, hts⟩
      refine ⟨t :: ts, ?_, hts.group h ht hholds hlater⟩
      simpa using (Row.single (Piece.group hk ht hclosing)).append hrow
  | case5 id rest hc ho ih =>
    rw [collapseGroups]
    refine Returns.imp (ih (Nat.le_of_succ_le hn) h.single) ?_
    rintro work w' ⟨ts, hrow, hts⟩
    refine ⟨.leaf id :: ts, (Row.single (.token fun g side hk => ?_)).append hrow, hts.single h⟩
    cases side with
    | opening => exact ho g hk
    | closing => exact hc g hk

/-- What is derived is returned. -/
def Complete (c : Context) (term : List ElementId) : Prop :=
  ∀ w : Workspace, Plain w.store term → ∀ t, Derives w.store .term term t →
    (reduce c term).Ensures w fun r w' => r = .ok t.root ∧ t.Holds w.store w'.store

theorem segments_group {opening closing : ElementId} {inner rest : List ElementId} {t : Tree}
    (ho : s.kind opening = .delimiter .parenthesis .opening) (h : Derives s .term inner t)
    (hc : s.kind closing = .delimiter .parenthesis .closing) :
    segments s (opening :: (inner ++ closing :: rest)) =
      .group .parenthesis inner :: segments s rest := by
  have hsplit : splitClosing? s .parenthesis 0 (inner ++ closing :: rest) = some (inner, rest) := by
    rw [h.splitClosing?]
    simp [splitClosing?, hc]
  rw [segments, ho]
  simp only
  split
  · rename_i hnone
    rw [hsplit] at hnone
    cases hnone
  · rename_i hsome
    rw [hsplit] at hsome
    cases hsome
    rfl

theorem segments_single {id : ElementId} {rest : List ElementId}
    (h : ∀ group side, s.kind id ≠ .delimiter group side) :
    segments s (id :: rest) = .single id :: segments s rest := by
  rw [segments]
  split
  · rename_i hk
    exact absurd hk (h _ _)
  · rename_i hk
    exact absurd hk (h _ _)
  · rfl

theorem collapseGroups_complete {n : Nat}
    (hr : ∀ inner : List ElementId, inner.length < n → Complete c inner)
    {slices : List (List ElementId)} {ts : List Tree} (hp : List.Forall₂ (Piece s) slices ts)
    {done : List ElementId} {w : Workspace} (hn : slices.flatten.length ≤ n)
    (h : Ready s w.store done slices.flatten) :
    (collapseGroups c (reduce c) done (segments s slices.flatten)).Ensures w fun r w' =>
      ∃ work, r = .ok work ∧ Collapsed s w.store w'.store done slices.flatten ts work := by
  induction hp generalizing done w with
  | nil =>
    rw [List.flatten_nil, segments, collapseGroups, ensures_pure]
    exact ⟨_, rfl, .nil s w.store done⟩
  | @cons slice t slices ts hpiece _ ih =>
    rw [List.flatten_cons] at hn h ⊢
    cases hpiece with
    | @token id hid =>
      rw [List.singleton_append] at hn h ⊢
      rw [segments_single hid, collapseGroups]
      refine (ih (Nat.le_of_succ_le hn) h.single).imp ?_
      rintro r w' ⟨work, rfl, hts⟩
      exact ⟨work, rfl, hts.single h⟩
    | @group opening closing inner _ ho ht hc =>
      rw [List.cons_append, List.append_assoc, List.singleton_append] at hn h ⊢
      simp only [List.length_cons, List.length_append] at hn
      have ht' : Derives w.store .term inner t := ht.congr fun x hx => h.same x (by simp [hx])
      rw [segments_group ho ht hc, ensures_group fun p hp => h.noName p hp opening rfl ho]
      refine ensures_bind
        ((hr inner (by omega) w h.plain_inner t ht').and (reduce_later c inner w)) ?_
        (by simp)
      rintro node w₁ ⟨⟨⟨⟩, hholds⟩, hlater⟩
      refine (ih (by omega) (h.group hc hlater)).imp ?_
      rintro r w' ⟨work, rfl, hts⟩
      exact ⟨work, rfl, hts.group h ht hholds hlater⟩

/-! ## The passes together -/

/-- The second and the third pass build a clean tree. -/
def Binds (s : Store) (ts : List Tree) (t : Tree) : Prop :=
  ∃ ts', Tree.bindFunctions s ts = some ts' ∧ Tree.bindOperators s ts'.reverse [] = some [t] ∧
    t.Clean s

/-- The check after the passes. -/
def checkResult (work : List ElementId) : Reducing ElementId := do
  match work with
  | [root] =>
    match unfinished? (← Building.store) root with
    | none => return root
    | some fault => throw fault
  | _ => throw (.notReduced work.length)

theorem unfinished?_eq_none_iff {s' : Store} {t : Tree} (h : t.Holds s s') (hn : t.ids.Nodup)
    (htoken : ∀ id ∈ t.ids, (s.get id).IsToken) : unfinished? s' t.root = none ↔ t.Clean s := by
  have hsub : t.ids ⊆ List.range s'.size := fun id hid => List.mem_range.2 (h.lt_size htoken hid)
  have hlen := (List.subperm_of_subset hn hsub).length_le
  rw [List.length_range] at hlen
  exact unfinishedWithin_eq_none_iff h htoken (Nat.le_succ_of_le hlen)

theorem checkResult_holds {out : List Tree} {w : Workspace} (hn : (out.flatMap Tree.ids).Nodup)
    (htoken : ∀ id ∈ out.flatMap Tree.ids, (s.get id).IsToken)
    (ht : ∀ t ∈ out, t.Holds s w.store) :
    (checkResult (out.map Tree.root)).Ensures w fun r w' =>
      match r with
      | .ok root => ∃ t, out = [t] ∧ t.Clean s ∧ root = t.root ∧ t.Holds s w'.store
      | .error _ => ∀ t, out = [t] → ¬ t.Clean s := by
  unfold checkResult
  match out with
  | [] => simp
  | [t] =>
    have hids : [t].flatMap Tree.ids = t.ids := by simp
    rw [hids] at hn htoken
    have hclean := unfinished?_eq_none_iff (ht t List.mem_cons_self) hn htoken
    rw [List.map_cons, List.map_nil, ensures_store_bind]
    split
    · rename_i hnone
      exact ⟨t, rfl, hclean.1 hnone, rfl, ht t List.mem_cons_self⟩
    · rename_i fault hsome
      rintro u ⟨⟩ hc
      rw [hclean.2 hc] at hsome
      cases hsome
  | _ :: _ :: _ => simp

/-- The passes after the first one build what they build on trees. -/
theorem bind_holds {ts : List Tree} {w : Workspace} (hn : (ts.flatMap Tree.ids).Nodup)
    (htoken : ∀ id ∈ ts.flatMap Tree.ids, (s.get id).IsToken)
    (ht : ∀ t ∈ ts, t.Holds s w.store) :
    (bindFunctions (ts.map Tree.root) >>= fun work =>
        bindOperators work.reverse [] >>= checkResult).Ensures w fun r w' =>
      match r with
      | .ok root => ∃ t, Binds s ts t ∧ root = t.root ∧ t.Holds s w'.store
      | .error _ => ∀ t, ¬ Binds s ts t := by
  refine ensures_bind (bindFunctions_holds hn ht) ?_ ?_
  · rintro work w₁ ⟨-, hb⟩
    obtain ⟨ts', hf, rfl, ht'⟩ := hb.of_ok
    have hids : (ts'.reverse.reverse ++ []).flatMap Tree.ids = ts.flatMap Tree.ids := by
      simp [Tree.ids_bindFunctions hf]
    have hpass := @bindOperators_holds s ts'.reverse [] w₁ (by rwa [hids]) (by simpa using ht')
    rw [List.map_reverse] at hpass
    refine ensures_bind hpass ?_ ?_
    · rintro work w₂ hb
      obtain ⟨out, ho, rfl, hout⟩ := hb.of_ok
      have hids' := (Tree.ids_bindOperators ho).trans hids
      refine (checkResult_holds (by rwa [hids']) (by rwa [hids']) hout).imp ?_
      rintro (fault | root) w' h
      · rintro t ⟨us, hus, hus', hc⟩
        cases hf.symm.trans hus
        exact h t (Option.some.inj (ho.symm.trans hus')) hc
      · obtain ⟨t, rfl, hc, rfl, hholds⟩ := h
        exact ⟨t, ⟨ts', hf, ho, hc⟩, rfl, hholds⟩
    · rintro fault w' hb t ⟨us, hus, hus', -⟩
      cases hf.symm.trans hus
      cases hb.of_error.symm.trans hus'
  · rintro fault w' ⟨-, hb⟩ t ⟨ts', hf, -⟩
    cases hb.of_error.symm.trans hf

theorem runPasses_eq (c : Context) (reduce : List ElementId → Reducing ElementId)
    {term : List ElementId} (h : term ≠ []) : runPasses c reduce term =
      ((do collapseGroups c reduce [] (segments (← Building.store) term)) >>= fun work =>
        bindFunctions work >>= fun work => bindOperators work.reverse [] >>= checkResult) := by
  rw [runPasses, List.isEmpty_eq_false_iff.2 h]
  rfl

theorem ids_sublist_of_row {ids : List ElementId} {ts : List Tree} (h : Row (Piece s) ids ts) :
    (ts.flatMap Tree.ids).Sublist ids := by
  obtain ⟨slices, rfl, h⟩ := h
  induction h with
  | nil => exact .refl _
  | cons hp _ ih =>
    rw [List.flatMap_cons, List.flatten_cons]
    refine List.Sublist.append ?_ ih
    cases hp with
    | token => exact .refl _
    | group ho ht hc => exact (ht.ids_sublist.trans (List.sublist_append_left _ _)).cons _

/-- The passes over what the first one has left. -/
theorem bind_of_collapsed {term work : List ElementId} {ts : List Tree} {w₁ w : Workspace}
    (hplain : Plain s term) (hrow : Row (Piece s) term ts)
    (h : Collapsed s w₁.store w.store [] term ts work) :
    (bindFunctions work >>= fun work => bindOperators work.reverse [] >>= checkResult).Ensures w
      fun r w' => match r with
        | .ok root => ∃ t, Binds s ts t ∧ root = t.root ∧ t.Holds s w'.store
        | .error _ => ∀ t, ¬ Binds s ts t := by
  have hsub := ids_sublist_of_row hrow
  rw [h.eq_append]
  exact bind_holds (hsub.nodup hplain.nodup) (fun id hid => hplain.token id (hsub.subset hid))
    h.holds

theorem ready_of_plain {term : List ElementId} (h : Plain s term) : Ready s s [] term :=
  ⟨h, fun _ _ => rfl, by simp⟩

theorem reduce_sound (c : Context) (term : List ElementId) : Sound c term := by
  induction hl : term.length using Nat.strongRecOn generalizing term with
  | _ n ih =>
    intro w hplain
    rw [reduce_eq]
    refine returns_releasing ?_
    rcases eq_or_ne term [] with rfl | hne
    · exact returns_throw
    rw [runPasses_eq c _ hne]
    refine returns_bind (returns_store_bind.2 (collapseGroups_sound
      (fun inner hi => ih inner.length (hl ▸ hi) inner rfl) (Nat.le_refl _)
      (ready_of_plain hplain))) ?_
    rintro work w₁ ⟨ts, hrow, hts⟩
    refine (bind_of_collapsed hplain hrow hts).imp ?_
    rintro r w' h root rfl
    obtain ⟨t, ⟨ts', hf, ho, hc⟩, rfl, hholds⟩ := h
    exact ⟨t, derives_of_bind hrow hplain.token hf ho hc, rfl, hholds⟩

theorem reduce_complete (c : Context) (term : List ElementId) : Complete c term := by
  induction hl : term.length using Nat.strongRecOn generalizing term with
  | _ n ih =>
    intro w hplain t ht
    have hne : term ≠ [] := List.ne_nil_of_mem (ht.ids_sublist.subset t.root_mem_ids)
    obtain ⟨ts, ts', ⟨slices, rfl, hpieces⟩, hf, ho⟩ := bind_of_derives ht
    rw [reduce_eq]
    refine ensures_releasing ?_
    rw [runPasses_eq c _ hne]
    refine ensures_bind (ensures_store_bind.2 (collapseGroups_complete
      (fun inner hi => ih inner.length (hl ▸ hi) inner rfl) hpieces (Nat.le_refl _)
      (ready_of_plain hplain))) ?_ (by simp)
    rintro work w₁ ⟨_, ⟨⟩, hts⟩
    have hbinds : Binds w.store ts t :=
      ⟨ts', by simpa [Tree.bindFunctions] using hf [], by simpa [Tree.bindOperators] using ho [],
        ht.clean⟩
    refine (bind_of_collapsed hplain ⟨slices, rfl, hpieces⟩ hts).imp ?_
    rintro (fault | root) w' h
    · exact absurd hbinds (h t)
    · obtain ⟨u, ⟨us, hf', ho', -⟩, rfl, hholds⟩ := h
      obtain ⟨vs, hf, ho, -⟩ := hbinds
      cases hf.symm.trans hf'
      cases ho.symm.trans ho'
      exact ⟨rfl, hholds⟩

end Term

/-- **Reduction is parsing.**  On terms without brackets and calls a reduction
    succeeds exactly if the term derives from `T`, and it builds the tree of the
    derivation. -/
theorem reduce_ok_iff_derives (c : Term.Context) (w : Workspace) (term : List ElementId)
    (h : Plain w.store term) :
    ((∃ root w', StateT.run (Term.reduce c term).run w = (.ok root, w')) ↔
      ∃ t, Derives w.store .term term t) ∧
    ∀ root w' t, StateT.run (Term.reduce c term).run w = (.ok root, w') →
      Derives w.store .term term t → root = t.root ∧ t.Holds w.store w'.store := by
  have sound := Term.reduce_sound c term w h
  have complete := Term.reduce_complete c term w h
  unfold Reducing.Returns at sound
  simp only [Reducing.Ensures] at sound complete
  refine ⟨⟨?_, ?_⟩, ?_⟩
  · rintro ⟨root, w', hrun⟩
    rw [hrun] at sound
    obtain ⟨t, ht, -⟩ := sound root rfl
    exact ⟨t, ht⟩
  · rintro ⟨t, ht⟩
    exact ⟨t.root, _, Prod.ext (complete t ht).1 rfl⟩
  · intro root w' t hrun ht
    have hc := complete t ht
    rw [hrun] at hc
    exact ⟨Except.ok.inj hc.1, hc.2⟩

/-- The term `-(a + sqrt b) * 2`. -/
theorem reduce_ok_iff_derives_signed_product :
    let tokens := ["-", "(", "a", "+", "sqrt", "b", ")", "*", "2"]
    let w : Workspace := { store := { elements := (classify {} 1 none tokens).toArray } }
    let t : Tree := .applied 0 (.joined 7 (.joined 3 (.leaf 2) (.applied 4 (.leaf 5))) (.leaf 8))
    let term : List ElementId := [0, 1, 2, 3, 4, 5, 6, 7, 8]
    Plain w.store term ∧ Derives w.store .term term t ∧
      ∃ w', StateT.run (Term.reduce {} term).run w = (.ok 0, w') ∧ t.Holds w.store w'.store := by
  intro tokens w t term
  have hplain : Plain w.store term := by decide +kernel
  have hsum : Derives w.store .term [2, 3, 4, 5] (.joined 3 (.leaf 2) (.applied 4 (.leaf 5))) :=
    @Derives.binary _ 3 [2] [4, 5] _ _ (.operand (.atom (by decide +kernel))) (by decide +kernel)
      (.term (.function (by decide +kernel) (.atom (by decide +kernel))))
  have ht : Derives w.store .term term t := by
    refine .sign (by decide +kernel) ?_
    exact @Derives.binary _ 7 [1, 2, 3, 4, 5, 6] [8] _ _
      (.operand (.group (by decide +kernel) hsum (by decide +kernel))) (by decide +kernel)
      (.term (.operand (.atom (by decide +kernel))))
  have h := reduce_ok_iff_derives {} w term hplain
  obtain ⟨root, w', hrun⟩ := h.1.2 ⟨t, ht⟩
  obtain ⟨rfl, hholds⟩ := h.2 root w' t hrun ht
  exact ⟨hplain, ht, w', hrun, hholds⟩

end FormulaSheet
