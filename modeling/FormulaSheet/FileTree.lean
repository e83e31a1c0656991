/-
  File trees: directories and files by location.

  * A `Location` is the names from the root down.  `resolve` follows a path
    part by part, from the root or from the working directory; every part but
    the last must be a directory, and so must the last if a slash or a point
    follows it.
  * The system may refuse to let a location be used, whatever it holds: a file
    is protected or on a broken disk, a text is too long for a quota, a directory
    may not be searched.  `refusal` says what is refused and why.
  * `read`, `write` and `list` are what a program does with files.  A write
    replaces the whole file or changes nothing.
-/
import FormulaSheet.Failure
import FormulaSheet.Path

namespace FormulaSheet

/-- The names from the root down. -/
abbrev Location := List String

/-- What a location holds. -/
inductive Node where
  | directory
  | file (bytes : ByteArray)
  deriving Inhabited

instance : DecidableEq Node
  | .directory, .directory => isTrue rfl
  | .directory, .file _ => isFalse (by simp)
  | .file _, .directory => isFalse (by simp)
  | .file a, .file b =>
    decidable_of_iff (a.data = b.data) (by rw [Node.file.injEq, ByteArray.ext_iff])

/-- What a location is used for. -/
inductive Use where
  /-- Look for an entry of a directory. -/
  | search
  /-- Tell the names of all entries of a directory. -/
  | list
  | read
  | write (bytes : ByteArray)

/-- The nodes of a file system, where relative paths start, and what the system
    refuses. -/
structure FileTree where
  nodes : List (Location × Node) := []
  workingDirectory : Location := []
  /-- Why a location cannot be used.  No program changes this. -/
  refusal : Use → Location → Option FileFault := fun _ _ => none
  deriving Inhabited

namespace FileTree

/-- What a location holds; the root is always a directory. -/
def node? (t : FileTree) (location : Location) : Option Node :=
  if location.isEmpty then some .directory
  else (t.nodes.find? fun entry => entry.1 == location).map Prod.snd

/-- Put a node at a location. -/
def set (t : FileTree) (location : Location) (node : Node) : FileTree :=
  { t with nodes := (location, node) :: t.nodes.filter fun entry => entry.1 != location }

/-- Fails unless a location holds a directory. -/
def needDirectory (t : FileTree) (location : Location) : Except FileFault Unit :=
  match t.node? location with
  | some .directory => .ok ()
  | some (.file _) => .error .notADirectory
  | none => .error .notFound

/-- Fails if the system refuses a use of a location. -/
def permit (t : FileTree) (use : Use) (location : Location) : Except FileFault Unit :=
  match t.refusal use location with
  | some fault => .error fault
  | none => .ok ()

/-- Where one part of a path leads. -/
def enter (location : Location) (part : String) : Location :=
  if part = "" ∨ part = "." then location
  else if part = ".." then location.dropLast
  else location ++ [part]

/-- Fails unless a part of a path can be looked for at a location.  Between two
    slashes or after the last there is nothing to look for. -/
def pass (t : FileTree) (location : Location) (part : String) : Except FileFault Unit := do
  t.needDirectory location
  if part ≠ "" then t.permit .search location

/-- Follow the parts of a path from a location. -/
def follow (t : FileTree) (location : Location) : List String → Except FileFault Location
  | [] => .ok location
  | part :: parts => do
    t.pass location part
    t.follow (enter location part) parts

/-- The location of a path. -/
def resolve (t : FileTree) (path : String) : Except FileFault Location :=
  match (Path.parts path.toList).map String.ofList with
  | [""] => .error .notFound
  | "" :: parts => t.follow [] parts
  | parts => t.follow t.workingDirectory parts

/-- The contents of a file. -/
def read (t : FileTree) (path : String) : Except FileFault ByteArray := do
  let location ← t.resolve path
  match t.node? location with
  | none => .error .notFound
  | some node =>
    t.permit .read location
    match node with
    | .file bytes => .ok bytes
    | .directory => .error .isADirectory

/-- Whether a path can only name a directory. -/
def namesDirectory (path : String) : Bool :=
  match (Path.parts path.toList).getLast? with
  | some last => last == [] || last == ['.'] || last == ['.', '.']
  | none => false

/-- The path without the slashes at its end; the root keeps its slash. -/
def dropSlashes (path : String) : String :=
  match path.toList, path.toList.reverse.dropWhile (· == '/') with
  | '/' :: _, [] => "/"
  | _, cs => String.ofList cs.reverse

/-- Replace the contents of a file, or create it in a directory that exists. -/
def write (t : FileTree) (path : String) (bytes : ByteArray) : Except FileFault FileTree := do
  if namesDirectory path then
    let _ ← t.resolve (dropSlashes path)
    .error .isADirectory
  else
    let location ← t.resolve path
    match t.node? location with
    | some .directory => .error .isADirectory
    | _ =>
      t.permit (.write bytes) location
      .ok (t.set location (.file bytes))

/-- The name of a file in the directory at a location. -/
def fileName? (location : Location) : Location × Node → Option String
  | (l, .file _) => if l.dropLast == location then l.getLast? else none
  | (_, .directory) => none

/-- The names of the files in a directory.  If it cannot be searched, none of its
    entries is known to be a file. -/
def list (t : FileTree) (path : String) : Except FileFault (List String) := do
  let location ← t.resolve path
  t.needDirectory location
  t.permit .list location
  if (t.refusal .search location).isSome then return []
  return t.nodes.filterMap (fileName? location)

end FileTree

end FormulaSheet
