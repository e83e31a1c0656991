/-
  Paths as text.

  * `splitName` parts a path after its last slash, `splitExtension?` a file
    name before its last point.  A name whose only point is its first character
    has no extension.
  * `withExtension` replaces the extension of the file name of a path or adds
    one; `join` is the path of a name in a directory.
-/

namespace FormulaSheet.Path

/-- Part a list before the last element that satisfies `p`: what comes before
    it, and the rest that starts with it. -/
def splitLast? {α : Type} (p : α → Bool) (xs : List α) : Option (List α × List α) :=
  match xs.reverse.dropWhile (!p ·) with
  | [] => none
  | _ :: front => some (front.reverse, xs.drop front.length)

/-- What a path says before its file name, with the slash, and the file
    name. -/
def splitName (path : List Char) : List Char × List Char :=
  match splitLast? (· == '/') path with
  | some (front, slash :: name) => (front ++ [slash], name)
  | _ => ([], path)

/-- A file name before its last point and after it. -/
def splitExtension? (name : List Char) : Option (List Char × List Char) :=
  match splitLast? (· == '.') name with
  | some (c :: stem, _ :: extension) => some (c :: stem, extension)
  | _ => none

/-- The extension of a file name. -/
def extension? (name : String) : Option String :=
  (splitExtension? name.toList).map fun parts => String.ofList parts.2

/-- A path with another extension.  The old extension goes before the new one
    comes; if `..` is left of the name, it stands for the parent directory and
    takes none. -/
def withExtension (extension path : String) : String :=
  let (front, name) := splitName path.toList
  match splitExtension? name with
  | some (['.'], _) => String.ofList front ++ ".."
  | some (stem, _) => String.ofList (front ++ stem) ++ "." ++ extension
  | none => path ++ "." ++ extension

/-- The path of a name in a directory. -/
def join (directory name : String) : String :=
  if directory.toList.getLast? = some '/' then directory ++ name else directory ++ "/" ++ name

/-- The parts of a path between its slashes. -/
def parts : List Char → List (List Char)
  | [] => [[]]
  | c :: cs => if c = '/' then [] :: parts cs else (parts cs).modifyHead (c :: ·)

end FormulaSheet.Path
