/-
  Tokens: the lexical parts of a logical line.

  * A word starts with a letter or a number and runs on through letters,
    numbers, points and underscores.
  * `%` ends the line; blanks only separate; any other character is a token of
    its own if it is a keyword and is dropped otherwise.
  * `tokenize` gives the tokens of a text in order.
-/
import FormulaSheet.Text.Blank
import FormulaSheet.Text.Letter
import FormulaSheet.Vocabulary

namespace FormulaSheet.Token

open Text (isBlank isLetterOrNumber)

/-- A character that continues a word. -/
def isWordChar (c : Char) : Bool :=
  isLetterOrNumber c || c == '.' || c == '_'

/-- The tokens of `cs` as lists of characters. -/
def scan (v : Vocabulary) (cs : List Char) : List (List Char) :=
  match cs with
  | [] => []
  | c :: rest =>
    if isBlank c then scan v rest
    else if isLetterOrNumber c then
      (c :: rest.takeWhile isWordChar) :: scan v (rest.dropWhile isWordChar)
    else if c = '%' then []
    else if v.isKeyword c then [c] :: scan v rest
    else scan v rest
termination_by cs.length
decreasing_by
  · simp
  · have := (List.dropWhile_sublist isWordChar (l := rest)).length_le
    simp only [List.length_cons]; omega
  · simp
  · simp

/-- The tokens of a text. -/
def tokenize (v : Vocabulary) (text : String) : List String :=
  (scan v text.toList).map String.ofList

end FormulaSheet.Token
