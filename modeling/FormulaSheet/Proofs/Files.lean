/-
  Files and paths: where the entries of a directory are found, and what a write
  changes.

  * `Path.IsName`: what an entry of a directory can be called.
  * `withExtension_join`: the extension of a path is that of its name.
  * `FileTree.Opens t path location`: `path` leads to a directory at `location`
    that the system lets a program list and search.
  * `Opens.resolve_join`, `Opens.read_join` and `Opens.write_join`: the path of a
    name in such a directory leads to the entry of that name.
  * `FileTree.Keeps t t'`: all directories stay.  So paths lead to the same
    location (`Keeps.resolve`).
  * `FileTree.WellFormed`: every location holds one node, and all names are ones.
    What a directory lists are its files (`WellFormed.exists_list`).
-/
import FormulaSheet.FileTree
import Mathlib.Data.List.Nodup
import Mathlib.Data.List.TakeWhile

namespace FormulaSheet

/-! ## Parts of paths -/

namespace Path

/-- What an entry of a directory can be called. -/
structure IsName (name : String) : Prop where
  ne_empty : name ≠ ""
  ne_point : name ≠ "."
  ne_points : name ≠ ".."
  noSlash : '/' ∉ name.toList

theorem parts_ne_nil (cs : List Char) : parts cs ≠ [] := by
  induction cs with
  | nil => simp [parts]
  | cons c cs ih =>
    rw [parts]
    split
    · simp
    · cases h : parts cs with
      | nil => exact absurd h ih
      | cons p ps => simp

theorem parts_append_slash (a b : List Char) : parts (a ++ '/' :: b) = parts a ++ parts b := by
  induction a with
  | nil => simp [parts]
  | cons c a ih =>
    rw [List.cons_append, parts, parts, ih]
    split
    · rfl
    · cases h : parts a with
      | nil => exact absurd h (parts_ne_nil a)
      | cons p ps => rfl

theorem parts_of_noSlash {cs : List Char} (h : '/' ∉ cs) : parts cs = [cs] := by
  induction cs with
  | nil => rfl
  | cons c cs ih =>
    simp only [List.mem_cons, not_or] at h
    rw [parts, if_neg (Ne.symm h.1), ih h.2]
    rfl

/-- What stands before the name in the path of an entry. -/
def base (directory : String) : String :=
  if directory.toList.getLast? = some '/' then directory else directory ++ "/"

theorem join_eq (directory name : String) : join directory name = base directory ++ name := by
  unfold join base
  split <;> simp

theorem exists_base (directory : String) : ∃ front, (base directory).toList = front ++ ['/'] ∧
    (directory.toList = front ∨ directory.toList = front ++ ['/']) := by
  unfold base
  split
  · rename_i h
    obtain ⟨front, hf⟩ := List.getLast?_eq_some_iff.1 h
    exact ⟨front, hf, Or.inr hf⟩
  · exact ⟨directory.toList, by simp, Or.inl rfl⟩

/-- The path of an entry has the parts of its directory and one more; a slash at
    the end of the directory is none. -/
theorem parts_join {name : String} (directory : String) (h : '/' ∉ name.toList) :
    ∃ front, front ≠ [] ∧ parts (join directory name).toList = front ++ [name.toList] ∧
      (parts directory.toList = front ∨ parts directory.toList = front ++ [[]]) := by
  obtain ⟨front, hbase, hdirectory⟩ := exists_base directory
  refine ⟨parts front, parts_ne_nil front, ?_, ?_⟩
  · rw [join_eq, String.toList_append, hbase, List.append_assoc, List.singleton_append,
      parts_append_slash, parts_of_noSlash h]
  · rcases hdirectory with hd | hd
    · exact Or.inl (by rw [hd])
    · refine Or.inr ?_
      rw [hd, parts_append_slash]
      rfl

/-! ## Extensions -/

theorem splitLast?_append {p : Char → Bool} {c : Char} {rest : List Char} (front : List Char)
    (hc : p c = true) (hrest : ∀ x ∈ rest, p x = false) :
    splitLast? p (front ++ c :: rest) = some (front, c :: rest) := by
  have hdrop : (front ++ c :: rest).reverse.dropWhile (!p ·) = c :: front.reverse := by
    rw [List.reverse_append, List.reverse_cons, List.append_assoc,
      List.dropWhile_append_of_pos (by simpa using hrest), List.singleton_append,
      List.dropWhile_cons_of_neg (by simp [hc])]
  rw [splitLast?, hdrop]
  simp

theorem splitLast?_eq_none {p : Char → Bool} {cs : List Char} (h : ∀ x ∈ cs, p x = false) :
    splitLast? p cs = none := by
  have hdrop : cs.reverse.dropWhile (!p ·) = [] := by
    rw [List.dropWhile_eq_nil_iff]
    simpa using h
  rw [splitLast?, hdrop]

/-- A list is parted where it can be parted. -/
theorem splitLast?_cases (p : Char → Bool) (cs : List Char) : (∀ x ∈ cs, p x = false) ∨
    ∃ front c rest, cs = front ++ c :: rest ∧ p c = true ∧ ∀ x ∈ rest, p x = false := by
  induction cs with
  | nil => simp
  | cons c cs ih =>
    rcases ih with h | ⟨front, d, rest, rfl, hd, hrest⟩
    · cases hc : p c with
      | true => exact Or.inr ⟨[], c, cs, rfl, hc, h⟩
      | false => exact Or.inl (by simpa [hc] using h)
    · exact Or.inr ⟨c :: front, d, rest, rfl, hd, hrest⟩

theorem splitExtension?_eq_some {name stem extension : List Char}
    (h : splitExtension? name = some (stem, extension)) :
    name = stem ++ '.' :: extension ∧ stem ≠ [] := by
  rcases splitLast?_cases (· == '.') name with hnone | ⟨front, c, rest, rfl, hc, hrest⟩
  · rw [splitExtension?, splitLast?_eq_none hnone] at h
    cases h
  · obtain rfl : c = '.' := by simpa using hc
    rw [splitExtension?, splitLast?_append front rfl hrest] at h
    cases front with
    | nil => cases h
    | cons x front =>
      cases h
      exact ⟨rfl, by simp⟩

theorem splitName_of_noSlash {name : List Char} (h : '/' ∉ name) : splitName name = ([], name) := by
  have hnone : splitLast? (· == '/') name = none :=
    splitLast?_eq_none fun x hx => by
      simp only [beq_eq_false_iff_ne]
      rintro rfl
      exact h hx
  rw [splitName, hnone]

theorem splitName_join {name : String} (directory : String) (h : '/' ∉ name.toList) :
    splitName (join directory name).toList = ((base directory).toList, name.toList) := by
  obtain ⟨front, hbase, -⟩ := exists_base directory
  have hsplit : splitLast? (· == '/') (join directory name).toList =
      some (front, '/' :: name.toList) := by
    rw [join_eq, String.toList_append, hbase, List.append_assoc, List.singleton_append]
    refine splitLast?_append front rfl fun x hx => ?_
    simp only [beq_eq_false_iff_ne]
    rintro rfl
    exact h hx
  rw [splitName, hsplit, hbase]

/-- The extension of a path is that of its name. -/
theorem withExtension_join {name : String} (extension directory : String)
    (h : '/' ∉ name.toList) :
    withExtension extension (join directory name) =
      join directory (withExtension extension name) := by
  unfold withExtension
  rw [splitName_join directory h, splitName_of_noSlash h]
  dsimp only
  split
  · rw [join_eq]
    simp
  · rw [join_eq]
    simp [String.append_assoc]
  · rw [join_eq, join_eq]
    simp [String.append_assoc]

end Path

/-! ## Following paths -/

namespace FileTree

open FormulaSheet.Path

variable {t t' : FileTree} {location : Location} {directory : String}

theorem enter_of_isName {name : String} (h : IsName name) (location : Location) :
    enter location name = location ++ [name] := by
  rw [enter, if_neg (by simp [h.ne_empty, h.ne_point]), if_neg h.ne_points]

theorem follow_append (t : FileTree) (location : Location) (front rest : List String) :
    t.follow location (front ++ rest) =
      (t.follow location front >>= fun location => t.follow location rest) := by
  induction front generalizing location with
  | nil => rfl
  | cons part front ih =>
    rw [List.cons_append, follow, follow]
    cases t.pass location part with
    | error fault => rfl
    | ok _ => exact ih _

theorem needDirectory_eq_ok_iff : t.needDirectory location = .ok () ↔
    t.node? location = some .directory := by
  unfold needDirectory
  cases t.node? location with
  | none => simp
  | some node => cases node <;> simp

theorem permit_eq_ok_iff {use : Use} :
    t.permit use location = .ok () ↔ t.refusal use location = none := by
  unfold permit
  cases t.refusal use location <;> simp

theorem pass_eq_ok_iff {part : String} : t.pass location part = .ok () ↔
    t.node? location = some .directory ∧ (part = "" ∨ t.refusal .search location = none) := by
  rw [← needDirectory_eq_ok_iff, ← permit_eq_ok_iff, pass]
  cases t.needDirectory location with
  | error fault => simp [bind, Except.bind]
  | ok _ =>
    by_cases he : part = ""
    · simp [he, bind, Except.bind, pure, Except.pure]
    · simp [he, bind, Except.bind]

/-- All directories stay, and so does what the system refuses. -/
structure Keeps (t t' : FileTree) : Prop where
  directory : ∀ location, t.node? location = some .directory →
    t'.node? location = some .directory
  workingDirectory : t'.workingDirectory = t.workingDirectory
  refusal : t'.refusal = t.refusal

theorem Keeps.follow (h : Keeps t t') {parts : List String} {start : Location}
    (hf : t.follow start parts = .ok location) : t'.follow start parts = .ok location := by
  induction parts generalizing start with
  | nil => exact hf
  | cons part parts ih =>
    rw [FileTree.follow] at hf ⊢
    cases hp : t.pass start part with
    | error fault =>
      rw [hp] at hf
      cases hf
    | ok _ =>
      rw [hp] at hf
      obtain ⟨hd, hs⟩ := pass_eq_ok_iff.1 hp
      rw [pass_eq_ok_iff.2 ⟨h.directory _ hd, by rwa [h.refusal]⟩]
      exact ih hf

/-- The location of a path with the given parts; that of the empty path is the
    working directory. -/
def walk (t : FileTree) : List String → Except FileFault Location
  | "" :: parts => t.follow [] parts
  | parts => t.follow t.workingDirectory parts

theorem walk_cons (t : FileTree) (part : String) (parts : List String) :
    t.walk (part :: parts) =
      if part = "" then t.follow [] parts else t.follow t.workingDirectory (part :: parts) := by
  split
  · rename_i he
    rw [he, walk]
  · rename_i he
    rw [walk]
    simpa using he

theorem walk_append (t : FileTree) {front : List String} (hf : front ≠ []) (rest : List String) :
    t.walk (front ++ rest) = (t.walk front >>= fun location => t.follow location rest) := by
  cases front with
  | nil => exact absurd rfl hf
  | cons part front =>
    rw [List.cons_append, walk_cons, walk_cons]
    split
    · exact follow_append t [] front rest
    · exact follow_append t t.workingDirectory (part :: front) rest

theorem Keeps.walk (h : Keeps t t') {parts : List String} (hp : t.walk parts = .ok location) :
    t'.walk parts = .ok location := by
  cases parts with
  | nil =>
    rw [FileTree.walk, FileTree.follow] at hp ⊢
    · rwa [h.workingDirectory]
    · simp
    · simp
  | cons part parts =>
    rw [walk_cons] at hp ⊢
    split at hp
    · rename_i he
      rw [if_pos he]
      exact h.follow hp
    · rename_i he
      rw [if_neg he, h.workingDirectory]
      exact h.follow hp

theorem resolve_eq (t : FileTree) (path : String) :
    t.resolve path = if (parts path.toList).map String.ofList = [""] then .error .notFound
      else t.walk ((parts path.toList).map String.ofList) := by
  unfold resolve
  split
  · rename_i h
    rw [if_pos h]
  · rename_i rest hne h
    rw [h, if_neg, walk]
    simpa using hne
  · rename_i h₁ h₂
    rw [if_neg h₁, walk]
    exact h₂

/-- The path of an entry leads from its directory to the entry. -/
theorem resolve_join_eq {name : String} (hd : t.resolve directory = .ok location)
    (hn : '/' ∉ name.toList) : t.resolve (join directory name) = t.follow location [name] := by
  obtain ⟨front, hne, hjoin, hdirectory⟩ := parts_join directory hn
  have hfront : front.map String.ofList ≠ [] := by simpa using hne
  have hwalk : t.walk (front.map String.ofList) = .ok location := by
    rw [resolve_eq] at hd
    split at hd
    · cases hd
    rcases hdirectory with he | he
    · rwa [he] at hd
    · rw [he, List.map_append, walk_append t hfront] at hd
      cases hw : t.walk (front.map String.ofList) with
      | error fault =>
        rw [hw] at hd
        cases hd
      | ok start =>
        rw [hw] at hd
        -- The empty part after the last slash stays where it is.
        have hlast : (t.pass start "" >>= fun _ => .ok start) = .ok location := hd
        cases hpass : t.pass start "" with
        | error fault =>
          rw [hpass] at hlast
          cases hlast
        | ok _ =>
          rw [hpass] at hlast
          exact hlast
  rw [resolve_eq, hjoin, List.map_append, if_neg, walk_append t hfront, hwalk]
  · simp [Except.bind, bind]
  · intro h
    have := congrArg List.length h
    simp only [List.length_append, List.length_map, List.length_cons, List.length_nil] at this
    exact hne (List.length_eq_zero_iff.1 (by omega))

theorem Keeps.resolve (h : Keeps t t') {path : String} (hr : t.resolve path = .ok location) :
    t'.resolve path = .ok location := by
  rw [resolve_eq] at hr ⊢
  split at hr
  · cases hr
  · rename_i hne
    rw [if_neg hne]
    exact h.walk hr

/-- A path leads to a directory that can be listed and searched. -/
structure Opens (t : FileTree) (path : String) (location : Location) : Prop where
  resolve : t.resolve path = .ok location
  directory : t.node? location = some .directory
  search : t.refusal .search location = none
  list : t.refusal .list location = none

theorem Keeps.opens (h : Keeps t t') (ho : t.Opens directory location) :
    t'.Opens directory location :=
  ⟨h.resolve ho.resolve, h.directory _ ho.directory, by rw [h.refusal, ho.search],
    by rw [h.refusal, ho.list]⟩

theorem Opens.resolve_join (h : t.Opens directory location) {name : String}
    (hn : '/' ∉ name.toList) : t.resolve (join directory name) = .ok (enter location name) := by
  rw [resolve_join_eq h.resolve hn, follow, pass_eq_ok_iff.2 ⟨h.directory, Or.inr h.search⟩]
  rfl

/-! ## Reading and writing -/

/-- A file at a location holds a text that may be read. -/
structure HoldsText (t : FileTree) (location : Location) (text : String) : Prop where
  file : ∃ bytes, t.node? location = some (.file bytes) ∧ String.fromUTF8? bytes = some text
  permitted : t.refusal .read location = none

theorem Opens.read_join (h : t.Opens directory location) {name : String} (hn : IsName name)
    {bytes : ByteArray} (hfile : t.node? (location ++ [name]) = some (.file bytes)) :
    t.read (join directory name) = (t.permit .read (location ++ [name])).map fun _ => bytes := by
  rw [read, h.resolve_join hn.noSlash, enter_of_isName hn]
  simp only [bind, Except.bind, hfile]
  cases t.permit .read (location ++ [name]) <;> rfl

theorem namesDirectory_join {name : String} (directory : String) (hn : '/' ∉ name.toList) :
    namesDirectory (join directory name) =
      (name.toList == [] || name.toList == ['.'] || name.toList == ['.', '.']) := by
  obtain ⟨front, -, hjoin, -⟩ := parts_join directory hn
  rw [namesDirectory, hjoin, List.getLast?_concat]

theorem namesDirectory_of_isName {name : String} (directory : String) (hn : IsName name) :
    namesDirectory (join directory name) = false := by
  have hne : ∀ {other : String}, name ≠ other → (name.toList == other.toList) = false := by
    intro other hne
    simpa [← String.toList_inj] using hne
  rw [namesDirectory_join directory hn.noSlash]
  simp only [Bool.or_eq_false_iff]
  exact ⟨⟨hne hn.ne_empty, hne hn.ne_point⟩, hne hn.ne_points⟩

theorem Opens.write_join (h : t.Opens directory location) {name : String} (hn : IsName name)
    (hnode : t.node? (location ++ [name]) ≠ some .directory) (bytes : ByteArray) :
    t.write (join directory name) bytes = (t.permit (.write bytes) (location ++ [name])).map
      fun _ => t.set (location ++ [name]) (.file bytes) := by
  rw [write, namesDirectory_of_isName directory hn, h.resolve_join hn.noSlash, enter_of_isName hn]
  cases hk : t.node? (location ++ [name]) with
  | none =>
    simp only [bind, Except.bind, hk]
    cases t.permit (.write bytes) (location ++ [name]) <;> rfl
  | some node =>
    cases node with
    | directory => exact absurd hk hnode
    | file old =>
      simp only [bind, Except.bind, hk]
      cases t.permit (.write bytes) (location ++ [name]) <;> rfl

theorem Opens.write_directory (h : t.Opens directory location) {name : String} (hn : IsName name)
    (hnode : t.node? (location ++ [name]) = some .directory) (bytes : ByteArray) :
    t.write (join directory name) bytes = .error .isADirectory := by
  rw [write, namesDirectory_of_isName directory hn, h.resolve_join hn.noSlash, enter_of_isName hn]
  simp only [bind, Except.bind, hnode]
  rfl

theorem dropSlashes_join {name : String} (directory : String) (hne : name ≠ "")
    (hn : '/' ∉ name.toList) : dropSlashes (join directory name) = join directory name := by
  have hlast : name.toList.reverse.dropWhile (· == '/') = name.toList.reverse := by
    cases hr : name.toList.reverse with
    | nil => rfl
    | cons c cs =>
      have hc : c ∈ name.toList := List.mem_reverse.1 (hr ▸ List.mem_cons_self)
      have : c ≠ '/' := fun he => hn (he ▸ hc)
      rw [List.dropWhile_cons_of_neg (by simpa using this)]
  have hdrop : (join directory name).toList.reverse.dropWhile (· == '/') =
      (join directory name).toList.reverse := by
    rw [join_eq, String.toList_append, List.reverse_append, List.dropWhile_append, hlast]
    simp [hne]
  have hjoin : (join directory name).toList.reverse ≠ [] := by
    rw [join_eq]
    simp [hne]
  unfold dropSlashes
  rw [hdrop]
  split
  · rename_i h
    exact absurd h hjoin
  · simp

/-- Nothing can be written to the parent directory. -/
theorem Opens.write_points (h : t.Opens directory location) (bytes : ByteArray) :
    t.write (join directory "..") bytes = .error .isADirectory := by
  have hnames : namesDirectory (join directory "..") = true := by
    rw [namesDirectory_join directory (by decide)]
    decide
  rw [write, hnames, if_pos rfl, dropSlashes_join directory (by decide) (by decide),
    h.resolve_join (by decide)]
  rfl

theorem node?_of_ne_nil (t : FileTree) (h : location ≠ []) :
    t.node? location = (t.nodes.find? fun entry => entry.1 == location).map Prod.snd := by
  rw [node?, if_neg (by simpa using h)]

theorem node?_set {other : Location} (h : location ≠ []) (node : Node) :
    (t.set location node).node? other = if other = location then some node else t.node? other := by
  by_cases ho : other = []
  · subst ho
    rw [if_neg (Ne.symm h)]
    rfl
  rw [node?_of_ne_nil _ ho, node?_of_ne_nil _ ho, set, List.find?_cons]
  by_cases he : other = location
  · subst he
    simp
  · have hne : (location == other) = false := by simpa using Ne.symm he
    have hfind : (t.nodes.filter fun entry => entry.1 != location).find?
        (fun entry => entry.1 == other) = t.nodes.find? fun entry => entry.1 == other := by
      rw [List.find?_filter]
      congr 1
      funext entry
      by_cases hl : entry.1 = other
      · simp [hl, he]
      · simp [hl]
    rw [if_neg he, hne, hfind]

/-! ## Listing -/

/-- Every location holds one node, and all names are ones that entries can have. -/
structure WellFormed (t : FileTree) : Prop where
  distinct : (t.nodes.map Prod.fst).Nodup
  names : ∀ entry ∈ t.nodes, ∀ name ∈ entry.1, IsName name

theorem WellFormed.node?_eq_some_iff (h : t.WellFormed) (hl : location ≠ []) {node : Node} :
    t.node? location = some node ↔ (location, node) ∈ t.nodes := by
  rw [node?_of_ne_nil t hl, Option.map_eq_some_iff]
  constructor
  · rintro ⟨⟨l, n⟩, hfind, rfl⟩
    have hl : l = location := by simpa using List.find?_some hfind
    exact hl ▸ List.mem_of_find?_eq_some hfind
  · intro hm
    cases hfind : t.nodes.find? fun entry => entry.1 == location with
    | none =>
      have := List.find?_eq_none.1 hfind _ hm
      simp at this
    | some entry =>
      have hl : entry.1 = location := by simpa using List.find?_some hfind
      have hentry : entry = (location, node) :=
        List.inj_on_of_nodup_map h.distinct (List.mem_of_find?_eq_some hfind) hm hl
      exact ⟨entry, rfl, by rw [hentry]⟩

/-- An entry of a directory has a name. -/
theorem WellFormed.isName (h : t.WellFormed) {name : String} {node : Node}
    (hn : t.node? (location ++ [name]) = some node) : IsName name :=
  h.names _ ((h.node?_eq_some_iff (by simp)).1 hn) name (by simp)

end FileTree

end FormulaSheet
