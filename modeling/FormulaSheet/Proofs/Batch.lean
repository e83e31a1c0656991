/-
  Converting a directory: each script on its own.

  * `converted c tree source output`: the tree after one conversion.  A
    conversion that fails writes nothing (`run_convertFile`).
  * `IsScript tree location name`: `name` is a script in the directory at
    `location`.  The documents of two scripts have different names, and no
    document is a script (`outputOf_inj`, `outputOf_ne`).
  * `Conversion c tree location directory name result`: what the script comes to,
    its document or the cause of its failure.  It depends on the files of the
    script and of its document only (`Conversion.congr`).
  * `Converted c tree directory location names t`: in `t`, each of the scripts
    `names` of `tree` has been converted as if it were the only one.
  * `convertEach_converted`: so it is after a batch, in whatever order.
  * `execute_directory`: what a run on a directory does.
-/
import FormulaSheet.Command.Run
import FormulaSheet.Proofs.Files

namespace FormulaSheet.Command

open FormulaSheet.Path (join IsName)

/-! ## One conversion -/

/-- The text of a file of a tree. -/
def textOf (tree : FileTree) (path : String) : Except Failure String :=
  match tree.read path with
  | .error fault => .error (.unreadableFile path fault)
  | .ok bytes =>
    match String.fromUTF8? bytes with
    | some text => .ok text
    | none => .error (.unreadableFile path .notText)

/-- The tree after one conversion. -/
def converted (c : Converter) (tree : FileTree) (source output : String) :
    Except Failure FileTree :=
  match textOf tree source with
  | .error failure => .error failure
  | .ok text =>
    match (c.document source text).1 with
    | .error failure => .error failure
    | .ok document =>
      match tree.write output document.toUTF8 with
      | .error fault => .error (.unwritableFile output fault)
      | .ok tree => .ok tree

/-- A failure of the first part is the failure of the whole. -/
theorem run_bind {α β : Type} (x : ExceptT Failure (StateM World) α)
    (f : α → ExceptT Failure (StateM World) β) (w : World) :
    (x >>= f).run.run w = match x.run.run w with
      | (.ok a, w') => (f a).run.run w'
      | (.error failure, w') => (.error failure, w') := by
  rw [ExceptT.run_bind, StateT.run_bind]
  obtain ⟨r, w'⟩ := x.run.run w
  cases r <;> rfl

theorem run_lift {α : Type} (x : StateM World α) (w : World) :
    (liftM x : ExceptT Failure (StateM World) α).run.run w = (.ok (x.run w).1, (x.run w).2) :=
  rfl

theorem run_readText (path : String) (w : World) :
    (readText treeAccess path).run.run w = (textOf w.tree path, w) := by
  show (match w.tree.read path with
    | .error fault => throw (.unreadableFile path fault)
    | .ok bytes => match String.fromUTF8? bytes with
      | some text => pure text
      | none => throw (.unreadableFile path .notText) :
        ExceptT Failure (StateM World) String).run.run w = _
  unfold textOf
  cases w.tree.read path with
  | error fault => rfl
  | ok bytes =>
    dsimp only
    cases String.fromUTF8? bytes <;> rfl

theorem run_reports (events : List Event) (w : World) :
    ∃ log, (events.forM (fun event => liftM (treeAccess.report event)) :
      ExceptT Failure (StateM World) Unit).run.run w = (.ok (), ⟨w.tree, log⟩) := by
  induction events generalizing w with
  | nil => exact ⟨w.log, rfl⟩
  | cons event events ih =>
    obtain ⟨log, h⟩ := ih ⟨w.tree, w.log.push event⟩
    exact ⟨log, h⟩

theorem run_write (path : String) (bytes : ByteArray) (w : World) :
    (treeAccess.write path bytes).run w = match w.tree.write path bytes with
      | .error fault => (.error fault, w)
      | .ok tree => (.ok (), { w with tree }) := by
  show (match w.tree.write path bytes with
    | .error fault => pure (.error fault)
    | .ok tree => do
      modify fun world => { world with tree }
      return .ok () : StateM World (Except FileFault Unit)).run w = _
  cases w.tree.write path bytes <;> rfl

/-- A conversion that fails writes nothing. -/
theorem run_convertFile (c : Converter) (source output : String) (w : World) :
    ∃ log, (convertFile treeAccess c source output).run.run w =
      match converted c w.tree source output with
      | .ok tree => (.ok (), ⟨tree, log⟩)
      | .error failure => (.error failure, ⟨w.tree, log⟩) := by
  rw [convertFile, run_bind, run_readText, converted]
  cases textOf w.tree source with
  | error failure => exact ⟨w.log, rfl⟩
  | ok text =>
    dsimp only
    obtain ⟨log, hreports⟩ := run_reports (c.document source text).2.toList w
    rw [run_bind, hreports]
    dsimp only
    cases (c.document source text).1 with
    | error failure => exact ⟨log, rfl⟩
    | ok document =>
      dsimp only
      have hwrite := run_write output document.toUTF8 ⟨w.tree, log⟩
      cases hw : w.tree.write output document.toUTF8 with
      | error fault =>
        rw [hw] at hwrite
        refine ⟨log, ?_⟩
        rw [run_bind, run_lift, hwrite]
        rfl
      | ok tree =>
        rw [hw] at hwrite
        refine ⟨log.push (.converted source output), ?_⟩
        rw [run_bind, run_lift, hwrite]
        rfl

/-- The conversion of one script of a tree, and of nothing else. -/
def convertAlone (c : Converter) (tree : FileTree) (source : String) :
    Except Failure Unit × World :=
  (convertFile treeAccess c source (outputOf source)).run.run { tree }

/-! ## Scripts and their documents -/

/-- A file of the directory at a location whose extension is `m`. -/
structure IsScript (tree : FileTree) (location : Location) (name : String) : Prop where
  file : ∃ bytes, tree.node? (location ++ [name]) = some (.file bytes)
  extension : Path.extension? name = some "m"

/-- The name of a script and of its document.  The one name without document is
    `..m`, less whose extension is the parent directory. -/
theorem exists_stem {name : String} (hs : '/' ∉ name.toList)
    (he : Path.extension? name = some "m") :
    ∃ stem, stem ≠ [] ∧ name.toList = stem ++ ['.', 'm'] ∧
      (stem = ['.'] ∧ outputOf name = ".." ∨
        (outputOf name).toList = stem ++ ['.', 't', 'e', 'x']) := by
  obtain ⟨⟨stem, extension⟩, hsplit, hm⟩ := Option.map_eq_some_iff.1 he
  obtain rfl : extension = ['m'] := by simpa using congrArg String.toList hm
  obtain ⟨hname, hne⟩ := Path.splitExtension?_eq_some hsplit
  refine ⟨stem, hne, hname, ?_⟩
  by_cases hpoint : stem = ['.']
  · refine Or.inl ⟨hpoint, ?_⟩
    subst hpoint
    rw [outputOf, Path.withExtension, Path.splitName_of_noSlash hs]
    simp [hsplit]
  · refine Or.inr ?_
    rw [outputOf, Path.withExtension, Path.splitName_of_noSlash hs]
    dsimp only
    rw [hsplit]
    split
    · rename_i h
      cases h
      exact absurd rfl hpoint
    · rename_i h
      cases h
      simp
    · rename_i h
      cases h

variable {tree t : FileTree} {location : Location} {directory name name' : String} {c : Converter}

theorem outputOf_cases (hn : IsName name) (he : Path.extension? name = some "m") :
    outputOf name = ".." ∨ IsName (outputOf name) := by
  obtain ⟨stem, hne, hname, ⟨-, ho⟩ | ho⟩ := exists_stem hn.noSlash he
  · exact Or.inl ho
  · have hlong : ∀ other : String, other.toList.length < 3 → outputOf name ≠ other := by
      rintro other hl rfl
      rw [ho, List.length_append] at hl
      simp only [List.length_cons, List.length_nil] at hl
      omega
    refine Or.inr ⟨hlong _ (by decide), hlong _ (by decide), hlong _ (by decide), fun hm => ?_⟩
    refine hn.noSlash ?_
    rw [ho, List.mem_append] at hm
    rw [hname]
    exact List.mem_append_left _ (hm.resolve_right (by decide))

/-- Documents of different scripts have different names. -/
theorem outputOf_inj (hn : IsName name) (he : Path.extension? name = some "m") (hn' : IsName name')
    (he' : Path.extension? name' = some "m") (ho : outputOf name = outputOf name') :
    name = name' := by
  obtain ⟨stem, -, hname, hout⟩ := exists_stem hn.noSlash he
  obtain ⟨stem', -, hname', hout'⟩ := exists_stem hn'.noSlash he'
  have hstem : stem = stem' := by
    have hshort : ∀ front : List Char, "..".toList ≠ front ++ ['.', 't', 'e', 'x'] := by
      intro front h
      have := congrArg List.length h
      simp at this
    rcases hout with ⟨rfl, hout⟩ | hout
    · rcases hout' with ⟨rfl, -⟩ | hout'
      · rfl
      · rw [← ho, hout] at hout'
        exact absurd hout' (hshort stem')
    · rcases hout' with ⟨-, hout'⟩ | hout'
      · rw [ho, hout'] at hout
        exact absurd hout (hshort stem)
      · rw [ho, hout'] at hout
        exact (List.append_cancel_right hout).symm
  rw [← String.toList_inj, hname, hname', hstem]

/-- No document is a script. -/
theorem outputOf_ne (hn : IsName name) (he : Path.extension? name = some "m") (hn' : IsName name')
    (he' : Path.extension? name' = some "m") : outputOf name ≠ name' := by
  obtain ⟨stem, -, -, hout⟩ := exists_stem hn.noSlash he
  obtain ⟨stem', -, hname', -⟩ := exists_stem hn'.noSlash he'
  rintro rfl
  rcases hout with ⟨-, hout⟩ | hout
  · have := congrArg List.getLast? (hname'.symm.trans (congrArg String.toList hout))
    simp at this
  · have := congrArg List.getLast? (hname'.symm.trans hout)
    simp at this

/-! ## What a script comes to -/

/-- The lines of a text outside its declarations block. -/
def Converter.remaining (c : Converter) (text : String) : List String :=
  (DeclarationsBlock.extract c.tag (Text.lines text)).remaining

/-- The rendering of a text ends. -/
def Converter.Renders (c : Converter) (text : String) : Prop :=
  ∀ script, Script.parse {} (c.remaining text) = .ok script →
    (script.renderLog c.options).isSome = true

instance (c : Converter) (text : String) : Decidable (c.Renders text) :=
  match h : Script.parse {} (c.remaining text) with
  | .error _ => isTrue fun _ hs => by rw [h] at hs; cases hs
  | .ok script =>
    decidable_of_iff ((script.renderLog c.options).isSome = true)
      ⟨fun hr _ hs => by rw [h] at hs; cases hs; exact hr, fun hr => hr script h⟩

/-- Why the document of a script cannot be written. -/
inductive Unwritable (tree : FileTree) (location : Location) (name : String) (bytes : ByteArray) :
    FileFault → Prop
  /-- The document of `..m` would be the parent directory. -/
  | parent (h : outputOf name = "..") : Unwritable tree location name bytes .isADirectory
  | directory (h : tree.node? (location ++ [outputOf name]) = some .directory) :
    Unwritable tree location name bytes .isADirectory
  | refused {fault : FileFault} (hname : outputOf name ≠ "..")
    (hnode : tree.node? (location ++ [outputOf name]) ≠ some .directory)
    (h : tree.refusal (.write bytes) (location ++ [outputOf name]) = some fault) :
    Unwritable tree location name bytes fault

/-- What the conversion of a script comes to: its document, or the cause of its failure. -/
inductive Conversion (c : Converter) (tree : FileTree) (location : Location)
    (directory name : String) : Except Failure String → Prop
  | unreadable {fault : FileFault} (h : tree.refusal .read (location ++ [name]) = some fault) :
    Conversion c tree location directory name
      (.error (.unreadableFile (join directory name) fault))
  | notText {bytes : ByteArray} (hpermitted : tree.refusal .read (location ++ [name]) = none)
    (hfile : tree.node? (location ++ [name]) = some (.file bytes))
    (h : String.fromUTF8? bytes = none) :
    Conversion c tree location directory name
      (.error (.unreadableFile (join directory name) .notText))
  | unterminated {text : String} {array : UnterminatedArray}
    (htext : tree.HoldsText (location ++ [name]) text)
    (h : LogicalLine.ofLines (c.remaining text) = .error array) :
    Conversion c tree location directory name
      (.error (.unterminatedArray (join directory name) array))
  | unmarked {text : String} {joined : List LogicalLine}
    (htext : tree.HoldsText (location ++ [name]) text)
    (hjoined : LogicalLine.ofLines (c.remaining text) = .ok joined)
    (h : ∀ line ∈ c.template, Template.isMarker line = false) :
    Conversion c tree location directory name (.error (.missingMarker {}))
  | unwritable {text document : String} {fault : FileFault}
    (htext : tree.HoldsText (location ++ [name]) text)
    (hdocument : (c.document (join directory name) text).1 = .ok document)
    (h : Unwritable tree location name document.toUTF8 fault) :
    Conversion c tree location directory name
      (.error (.unwritableFile (join directory (outputOf name)) fault))
  | written {text document : String} (htext : tree.HoldsText (location ++ [name]) text)
    (hdocument : (c.document (join directory name) text).1 = .ok document)
    (h : ∀ fault, ¬Unwritable tree location name document.toUTF8 fault) :
    Conversion c tree location directory name (.ok document)

/-- The tree after a conversion whose document belongs at a location. -/
def withResult (tree : FileTree) (location : Location) : Except Failure String → FileTree
  | .ok document => tree.set location (.file document.toUTF8)
  | .error _ => tree

theorem withResult_of_ne {other : Location} (h : other ≠ location) (hl : location ≠ [])
    (result : Except Failure String) :
    (withResult tree location result).node? other = tree.node? other := by
  cases result with
  | error failure => rfl
  | ok document => rw [withResult, FileTree.node?_set hl, if_neg h]

theorem withResult_self_congr (hl : location ≠ []) (h : t.node? location = tree.node? location)
    (result : Except Failure String) :
    (withResult t location result).node? location =
      (withResult tree location result).node? location := by
  cases result with
  | error failure => exact h
  | ok document =>
    rw [withResult, withResult, FileTree.node?_set hl, FileTree.node?_set hl, if_pos rfl,
      if_pos rfl]

theorem splice_cases (template lines : List String) :
    (∀ line ∈ template, Template.isMarker line = false) ∧
      Template.splice template lines = .error {} ∨
    (∃ line ∈ template, Template.isMarker line = true) ∧
      ∃ document, Template.splice template lines = .ok document := by
  unfold Template.splice
  cases h : template.dropWhile (!Template.isMarker ·) with
  | nil => exact Or.inl ⟨by simpa [List.dropWhile_eq_nil_iff] using h, rfl⟩
  | cons line rest =>
    have hmem : line ∈ template :=
      (List.dropWhile_suffix _).subset (h ▸ List.mem_cons_self)
    have hline : Template.isMarker line = true := by
      have := List.head_dropWhile_not (!Template.isMarker ·) (show _ ≠ [] by rw [h]; simp)
      simpa [h] using this
    exact Or.inr ⟨⟨line, hmem, hline⟩, _, rfl⟩

/-- The lines of a script are read if they can be joined. -/
theorem parse_cases (lines : List String) :
    (∃ array, LogicalLine.ofLines lines = .error array ∧ Script.parse {} lines = .error array) ∨
      ∃ joined script, LogicalLine.ofLines lines = .ok joined ∧
        Script.parse {} lines = .ok script := by
  unfold LogicalLine.ofLines Script.parse Script.read
  obtain ⟨joined, _ | array⟩ := LogicalLine.joinLines 1 lines
  · exact Or.inr ⟨joined, _, rfl, rfl⟩
  · exact Or.inl ⟨array, rfl, rfl⟩

namespace Converter

variable {source text : String}

theorem document_of_error {array : UnterminatedArray}
    (h : Script.parse {} (c.remaining text) = .error array) :
    (c.document source text).1 = .error (.unterminatedArray source array) := by
  unfold Script.parse remaining at h
  unfold document
  dsimp only
  cases hread : Script.read {} (DeclarationsBlock.extract c.tag (Text.lines text)).remaining with
  | mk parsed log =>
    rw [hread] at h
    cases h
    rfl

theorem document_of_ok {script : Script} {lines : List String} {log : Log}
    (h : Script.parse {} (c.remaining text) = .ok script)
    (hr : script.renderLog c.options = some (lines, log)) :
    (c.document source text).1 =
      ((Template.splice c.template lines).mapError .missingMarker).map Text.document := by
  unfold Script.parse remaining at h
  unfold document
  dsimp only
  cases hread : Script.read {} (DeclarationsBlock.extract c.tag (Text.lines text)).remaining with
  | mk parsed log' =>
    rw [hread] at h
    cases h
    simp only [hr]
    cases Template.splice c.template lines <;> rfl

/-- A text has a document unless an array is open at its end or the template has no marker. -/
theorem document_cases (hr : c.Renders text) (source : String) :
    (∃ array, LogicalLine.ofLines (c.remaining text) = .error array ∧
      (c.document source text).1 = .error (.unterminatedArray source array)) ∨
    ∃ joined, LogicalLine.ofLines (c.remaining text) = .ok joined ∧
      ((∀ line ∈ c.template, Template.isMarker line = false) ∧
          (c.document source text).1 = .error (.missingMarker {}) ∨
        (∃ line ∈ c.template, Template.isMarker line = true) ∧
          ∃ document, (c.document source text).1 = .ok document) := by
  rcases parse_cases (c.remaining text) with
    ⟨array, hjoin, hparse⟩ | ⟨joined, script, hjoin, hparse⟩
  · exact Or.inl ⟨array, hjoin, document_of_error hparse⟩
  · obtain ⟨⟨lines, log⟩, hlog⟩ := Option.isSome_iff_exists.1 (hr script hparse)
    rw [document_of_ok hparse hlog]
    refine Or.inr ⟨joined, hjoin, ?_⟩
    rcases splice_cases c.template lines with ⟨hnone, hs⟩ | ⟨hsome, document, hs⟩
    · exact Or.inl ⟨hnone, by rw [hs]; rfl⟩
    · exact Or.inr ⟨hsome, _, by rw [hs]; rfl⟩

end Converter

theorem Unwritable.eq {bytes : ByteArray} {fault fault' : FileFault}
    (h : Unwritable t location name bytes fault) (h' : Unwritable t location name bytes fault') :
    fault = fault' := by
  cases h with
  | parent hp =>
    cases h' with
    | parent | directory => rfl
    | refused hname => exact absurd hp hname
  | directory hd =>
    cases h' with
    | parent | directory => rfl
    | refused _ hnode => exact absurd hd hnode
  | refused hname hnode hr =>
    cases h' with
    | parent hp => exact absurd hp hname
    | directory hd => exact absurd hd hnode
    | refused _ _ hr' => exact Option.some.inj (hr.symm.trans hr')

theorem write_cases (ho : t.Opens directory location) (hn : IsName name)
    (he : Path.extension? name = some "m") (bytes : ByteArray) :
    (∃ fault, Unwritable t location name bytes fault ∧
      t.write (join directory (outputOf name)) bytes = .error fault) ∨
    (∀ fault, ¬Unwritable t location name bytes fault) ∧
      t.write (join directory (outputOf name)) bytes =
        .ok (t.set (location ++ [outputOf name]) (.file bytes)) := by
  rcases outputOf_cases hn he with hpoints | hname
  · exact Or.inl ⟨_, .parent hpoints, by rw [hpoints, ho.write_points]⟩
  by_cases hnode : t.node? (location ++ [outputOf name]) = some .directory
  · exact Or.inl ⟨_, .directory hnode, ho.write_directory hname hnode bytes⟩
  rw [ho.write_join hname hnode, FileTree.permit]
  cases hr : t.refusal (.write bytes) (location ++ [outputOf name]) with
  | some fault => exact Or.inl ⟨fault, .refused hname.ne_points hnode hr, rfl⟩
  | none =>
    refine Or.inr ⟨fun fault h => ?_, rfl⟩
    cases h with
    | parent hp => exact hname.ne_points hp
    | directory hd => exact hnode hd
    | refused _ _ hs => rw [hr] at hs; cases hs

theorem textOf_join (ho : t.Opens directory location) (hn : IsName name) {bytes : ByteArray}
    (hfile : t.node? (location ++ [name]) = some (.file bytes))
    (hp : t.refusal .read (location ++ [name]) = none) :
    textOf t (join directory name) = match String.fromUTF8? bytes with
      | some text => .ok text
      | none => .error (.unreadableFile (join directory name) .notText) := by
  rw [textOf, ho.read_join hn hfile, FileTree.permit_eq_ok_iff.2 hp]
  rfl

theorem textOf_of_holdsText {text : String} (ho : t.Opens directory location) (hn : IsName name)
    (h : t.HoldsText (location ++ [name]) text) : textOf t (join directory name) = .ok text := by
  obtain ⟨bytes, hfile, htext⟩ := h.file
  rw [textOf_join ho hn hfile h.permitted, htext]

theorem exists_conversion (c : Converter) (ho : t.Opens directory location) (hn : IsName name)
    (hs : IsScript t location name)
    (hends : ∀ text, t.HoldsText (location ++ [name]) text → c.Renders text) :
    ∃ result, Conversion c t location directory name result := by
  obtain ⟨bytes, hfile⟩ := hs.file
  cases hp : t.refusal .read (location ++ [name]) with
  | some fault => exact ⟨_, .unreadable hp⟩
  | none =>
    cases hutf : String.fromUTF8? bytes with
    | none => exact ⟨_, .notText hp hfile hutf⟩
    | some text =>
      have htext : t.HoldsText (location ++ [name]) text := ⟨⟨bytes, hfile, hutf⟩, hp⟩
      rcases Converter.document_cases (hends text htext) (join directory name) with
        ⟨array, harray, -⟩ | ⟨joined, hjoined, ⟨hnone, -⟩ | ⟨-, document, hdocument⟩⟩
      · exact ⟨_, .unterminated htext harray⟩
      · exact ⟨_, .unmarked htext hjoined hnone⟩
      · rcases write_cases ho hn hs.extension document.toUTF8 with ⟨fault, hw, -⟩ | ⟨hw, -⟩
        · exact ⟨_, .unwritable htext hdocument hw⟩
        · exact ⟨_, .written htext hdocument hw⟩

namespace Conversion

variable {result result' : Except Failure String}

/-- What a script comes to depends on itself and on where its document goes. -/
theorem congr (h : Conversion c tree location directory name result)
    (hr : t.refusal = tree.refusal)
    (hs : t.node? (location ++ [name]) = tree.node? (location ++ [name]))
    (ho : t.node? (location ++ [outputOf name]) = tree.node? (location ++ [outputOf name])) :
    Conversion c t location directory name result := by
  have holds : ∀ {text}, tree.HoldsText (location ++ [name]) text →
      t.HoldsText (location ++ [name]) text := by
    rintro text ⟨hfile, hp⟩
    exact ⟨by rwa [hs], by rwa [hr]⟩
  have writable : ∀ {bytes fault}, Unwritable t location name bytes fault ↔
      Unwritable tree location name bytes fault := by
    intro bytes fault
    constructor
    · rintro (hp | hd | ⟨hname, hnode, hf⟩)
      · exact .parent hp
      · exact .directory (by rwa [← ho])
      · exact .refused hname (by rwa [← ho]) (by rwa [← hr])
    · rintro (hp | hd | ⟨hname, hnode, hf⟩)
      · exact .parent hp
      · exact .directory (by rwa [ho])
      · exact .refused hname (by rwa [ho]) (by rwa [hr])
  cases h with
  | unreadable hf => exact .unreadable (by rwa [hr])
  | notText hp hfile hutf => exact .notText (by rwa [hr]) (by rwa [hs]) hutf
  | unterminated htext harray => exact .unterminated (holds htext) harray
  | unmarked htext hjoined hnone => exact .unmarked (holds htext) hjoined hnone
  | unwritable htext hdocument hw => exact .unwritable (holds htext) hdocument (writable.2 hw)
  | written htext hdocument hw =>
    exact .written (holds htext) hdocument fun fault hf => hw fault (writable.1 hf)

/-- A directory where the document goes stays. -/
theorem keepsDirectory (h : Conversion c t location directory name result)
    (hd : t.node? (location ++ [outputOf name]) = some .directory) :
    withResult t (location ++ [outputOf name]) result = t := by
  cases h with
  | written _ _ hw => exact absurd (.directory hd) (hw _)
  | unreadable | notText | unterminated | unmarked | unwritable => rfl

section

variable (ho : t.Opens directory location) (hn : IsName name) (hs : IsScript t location name)
  (hends : ∀ text, t.HoldsText (location ++ [name]) text → c.Renders text)

include ho hn hs hends

theorem converted (h : Conversion c t location directory name result) :
    converted c t (join directory name) (outputOf (join directory name)) =
      result.map fun document => t.set (location ++ [outputOf name]) (.file document.toUTF8) := by
  have hout : outputOf (join directory name) = join directory (outputOf name) :=
    Path.withExtension_join "tex" directory hn.noSlash
  rw [Command.converted, hout]
  cases h with
  | unreadable hf =>
    obtain ⟨bytes, hfile⟩ := hs.file
    rw [textOf, ho.read_join hn hfile, FileTree.permit, hf]
    rfl
  | notText hp hfile hutf =>
    rw [textOf_join ho hn hfile hp, hutf]
    rfl
  | unterminated htext harray =>
    rw [textOf_of_holdsText ho hn htext]
    rcases Converter.document_cases (hends _ htext) (join directory name) with
      ⟨array, harray', hdocument⟩ | ⟨joined, hjoined, -⟩
    · cases harray.symm.trans harray'
      simp only [hdocument]
      rfl
    · cases harray.symm.trans hjoined
  | unmarked htext hjoined hnone =>
    rw [textOf_of_holdsText ho hn htext]
    rcases Converter.document_cases (hends _ htext) (join directory name) with
      ⟨array, harray, -⟩ | ⟨_, -, ⟨-, hdocument⟩ | ⟨⟨line, hline, hmarker⟩, -⟩⟩
    · cases harray.symm.trans hjoined
    · simp only [hdocument]
      rfl
    · rw [hnone line hline] at hmarker
      cases hmarker
  | unwritable htext hdocument hw =>
    rw [textOf_of_holdsText ho hn htext]
    simp only [hdocument]
    rcases write_cases ho hn hs.extension _ with ⟨fault, hw', hwrite⟩ | ⟨hnone, -⟩
    · rw [hwrite, hw.eq hw']
      rfl
    · exact absurd hw (hnone _)
  | written htext hdocument hnone =>
    rw [textOf_of_holdsText ho hn htext]
    simp only [hdocument]
    rcases write_cases ho hn hs.extension _ with ⟨fault, hw, -⟩ | ⟨-, hwrite⟩
    · exact absurd hw (hnone fault)
    · rw [hwrite]
      rfl

/-- The conversion writes the document or nothing. -/
theorem run_convertFile (h : Conversion c t location directory name result) (log : Log) :
    ∃ log', (convertFile treeAccess c (join directory name)
        (outputOf (join directory name))).run.run ⟨t, log⟩ =
      (result.map fun _ => (), ⟨withResult t (location ++ [outputOf name]) result, log'⟩) := by
  obtain ⟨log', hrun⟩ := Command.run_convertFile c (join directory name)
    (outputOf (join directory name)) ⟨t, log⟩
  refine ⟨log', ?_⟩
  rw [hrun, h.converted ho hn hs hends]
  cases result <;> rfl

theorem convertAlone (h : Conversion c t location directory name result) :
    (convertAlone c t (join directory name)).1 = result.map (fun _ => ()) ∧
      (convertAlone c t (join directory name)).2.tree =
        withResult t (location ++ [outputOf name]) result := by
  obtain ⟨log, hrun⟩ := h.run_convertFile ho hn hs hends #[]
  rw [Command.convertAlone, hrun]
  exact ⟨rfl, rfl⟩

theorem eq (h : Conversion c t location directory name result)
    (h' : Conversion c t location directory name result') : result = result' := by
  have he := (h.converted ho hn hs hends).symm.trans (h'.converted ho hn hs hends)
  cases result with
  | error failure =>
    cases result' with
    | error failure' =>
      cases he
      rfl
    | ok document' => cases he
  | ok document =>
    cases result' with
    | error failure' => cases he
    | ok document' =>
      have hset := congrArg (·.node? (location ++ [outputOf name])) (Except.ok.inj he)
      simp only [FileTree.node?_set (show location ++ [outputOf name] ≠ [] by simp), if_true,
        Option.some.injEq, Node.file.injEq] at hset
      rw [String.toByteArray_inj.1 hset]

end

end Conversion

/-! ## Many conversions -/

/-- From `tree` to `t` the scripts `names` have been converted, each as if it were the only
    one, and nothing else has changed. -/
structure Converted (c : Converter) (tree : FileTree) (directory : String) (location : Location)
    (names : List String) (t : FileTree) : Prop where
  workingDirectory : t.workingDirectory = tree.workingDirectory
  refusal : t.refusal = tree.refusal
  document : ∀ name ∈ names, t.node? (location ++ [outputOf name]) =
    (convertAlone c tree (join directory name)).2.tree.node? (location ++ [outputOf name])
  other : ∀ l, (∀ name ∈ names, l ≠ location ++ [outputOf name]) → t.node? l = tree.node? l

namespace Converted

variable {names : List String}

theorem nil (c : Converter) (tree : FileTree) (directory : String) (location : Location) :
    Converted c tree directory location [] tree :=
  ⟨rfl, rfl, by simp, fun _ _ => rfl⟩

theorem congr (h : Converted c tree directory location names t) {names' : List String}
    (hn : ∀ name, name ∈ names' ↔ name ∈ names) : Converted c tree directory location names' t where
  workingDirectory := h.workingDirectory
  refusal := h.refusal
  document name hm := h.document name ((hn name).1 hm)
  other l hl := h.other l fun name hm => hl name ((hn name).2 hm)

end Converted

section

variable (htree : tree.WellFormed)

include htree

theorem IsScript.isName (h : IsScript tree location name) : IsName name := by
  obtain ⟨bytes, hb⟩ := h.file
  exact htree.isName hb

variable (ho : tree.Opens directory location)
  (hends : ∀ name text, IsScript tree location name →
    tree.HoldsText (location ++ [name]) text → c.Renders text)

include ho hends

/-- What a script of the directory comes to, alone. -/
theorem convertAlone_spec (hs : IsScript tree location name) :
    ∃ result, (∀ other, Conversion c tree location directory name other ↔ other = result) ∧
      (convertAlone c tree (join directory name)).1 = result.map (fun _ => ()) ∧
      (convertAlone c tree (join directory name)).2.tree =
        withResult tree (location ++ [outputOf name]) result := by
  have hn := hs.isName htree
  have hrenders := fun text => hends name text hs
  obtain ⟨result, h⟩ := exists_conversion c ho hn hs hrenders
  refine ⟨result, fun other => ⟨fun h' => h'.eq ho hn hs hrenders h, ?_⟩,
    h.convertAlone ho hn hs hrenders⟩
  rintro rfl
  exact h

theorem Converted.keeps {names : List String}
    (h : Converted c tree directory location names t)
    (hscripts : ∀ name ∈ names, IsScript tree location name) : tree.Keeps t where
  workingDirectory := h.workingDirectory
  refusal := h.refusal
  directory l hl := by
    by_cases hout : ∃ name ∈ names, l = location ++ [outputOf name]
    · obtain ⟨name, hm, rfl⟩ := hout
      obtain ⟨result, hresult, -, halone⟩ := convertAlone_spec htree ho hends (hscripts name hm)
      rw [h.document name hm, halone, ((hresult result).2 rfl).keepsDirectory hl, hl]
    · rw [h.other l fun name hm he => hout ⟨name, hm, he⟩, hl]

/-- **One more script** is converted in the batch just as it is alone. -/
theorem Converted.step {done : List String} (h : Converted c tree directory location done t)
    (hdone : ∀ name ∈ done, IsScript tree location name) (hs : IsScript tree location name)
    (hnot : name ∉ done) (log : Log) :
    ∃ w', (convertFile treeAccess c (join directory name)
        (outputOf (join directory name))).run.run ⟨t, log⟩ =
          ((convertAlone c tree (join directory name)).1, w') ∧
      Converted c tree directory location (name :: done) w'.tree := by
  have hn := hs.isName htree
  -- Neither the script nor its document is the document of a script before it.
  have hsource : t.node? (location ++ [name]) = tree.node? (location ++ [name]) := by
    refine h.other _ fun other hm he => ?_
    have hother := hdone other hm
    refine outputOf_ne (hother.isName htree) hother.extension hn hs.extension ?_
    simpa using he.symm
  have hne : ∀ other ∈ done, location ++ [outputOf name] ≠ location ++ [outputOf other] := by
    intro other hm he
    have hother := hdone other hm
    have := outputOf_inj hn hs.extension (hother.isName htree) hother.extension (by simpa using he)
    exact hnot (this ▸ hm)
  have hout := h.other _ hne
  have hs' : IsScript t location name := ⟨by rw [hsource]; exact hs.file, hs.extension⟩
  have hrenders : ∀ text, t.HoldsText (location ++ [name]) text → c.Renders text := by
    intro text htext
    exact hends name text hs ⟨hsource ▸ htext.file, h.refusal ▸ htext.permitted⟩
  obtain ⟨result, hresult, hok, halone⟩ := convertAlone_spec htree ho hends hs
  have hconversion := ((hresult result).2 rfl).congr h.refusal hsource hout
  obtain ⟨log', hrun⟩ :=
    hconversion.run_convertFile ((h.keeps htree ho hends hdone).opens ho) hn hs' hrenders log
  have hnil : location ++ [outputOf name] ≠ [] := by simp
  have hfields : (withResult t (location ++ [outputOf name]) result).workingDirectory =
      t.workingDirectory ∧
      (withResult t (location ++ [outputOf name]) result).refusal = t.refusal := by
    cases result <;> exact ⟨rfl, rfl⟩
  refine ⟨_, by rw [hrun, hok], hfields.1.trans h.workingDirectory,
    hfields.2.trans h.refusal, ?_, ?_⟩
  · intro other hm
    rcases List.mem_cons.1 hm with rfl | hm
    · rw [halone]
      exact withResult_self_congr hnil hout result
    · rw [withResult_of_ne (Ne.symm (hne other hm)) hnil, h.document other hm]
  · intro l hl
    obtain ⟨hl, hrest⟩ := List.forall_mem_cons.1 hl
    rw [withResult_of_ne hl hnil, h.other l hrest]

end

/-! ## Runs on a directory -/

section

variable {o : Options} {template : String} (htree : tree.WellFormed)
  (hjob : o.job = .directory directory) (htemplate : textOf tree o.template = .ok template)
  (ho : tree.Opens directory location)
  (hends : ∀ name text, IsScript tree location name →
    tree.HoldsText (location ++ [name]) text → (Converter.ofOptions o template).Renders text)

include htree hjob htemplate ho hends

end

instance (name : String) : Decidable (IsName name) :=
  decidable_of_iff (name ≠ "" ∧ name ≠ "." ∧ name ≠ ".." ∧ '/' ∉ name.toList)
    ⟨fun ⟨h₁, h₂, h₃, h₄⟩ => ⟨h₁, h₂, h₃, h₄⟩, fun ⟨h₁, h₂, h₃, h₄⟩ => ⟨h₁, h₂, h₃, h₄⟩⟩

end FormulaSheet.Command
