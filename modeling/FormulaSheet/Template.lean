/-
  Templates: documents with a marker line above which the formulas go.

  * A marker line is `%labtotextstart` between blanks, in any mix of ASCII
    upper and lower case.
  * `splice` puts lines before the first marker line and keeps the marker; a
    template without one is refused.
-/
import FormulaSheet.Text.Blank

namespace FormulaSheet.Template

/-- The text of a marker line. -/
def marker : String :=
  "%labtotextstart"

/-- A template without a marker line. -/
structure MissingMarker where
  deriving DecidableEq, Repr, Inhabited

/-- The wording of the failure. -/
def MissingMarker.message (_ : MissingMarker) : String :=
  "template has no '" ++ marker ++ "' line"

/-- Whether a line is a marker line. -/
def isMarker (line : String) : Bool :=
  (Text.trimChars line.toList).map Char.toLower == marker.toList

/-- The template with `inserted` above its first marker line. -/
def splice (template inserted : List String) : Except MissingMarker (List String) :=
  match template.dropWhile (!isMarker ·) with
  | [] => .error {}
  | rest => .ok (template.takeWhile (!isMarker ·) ++ inserted ++ rest)

end FormulaSheet.Template
