/-
  Text as a sequence of lines.

  * `lines`: the lines of a text.  A line ends at a line feed, and a carriage
    return right before it belongs to the line end; text after the last line
    feed is one more line, and no text is no line.
  * `document`: lines as a text in which every line is ended by a line feed.
-/

namespace FormulaSheet.Text

/-- A line without the carriage return of its line end. -/
def dropReturn (line : List Char) : List Char :=
  if line.getLast? = some '\r' then line.dropLast else line

/-- The lines of `cs`; `line` holds the characters read since the last line
    end, the latest first. -/
def linesFrom (line : List Char) : List Char → List (List Char)
  | [] => if line.isEmpty then [] else [line.reverse]
  | '\n' :: cs => dropReturn line.reverse :: linesFrom [] cs
  | c :: cs => linesFrom (c :: line) cs

/-- The lines of a text. -/
def lines (text : String) : List String :=
  (linesFrom [] text.toList).map String.ofList

/-- Lines as a text, a line feed after each of them; no lines at all are one
    blank line. -/
def document (lines : List String) : String :=
  "\n".intercalate lines ++ "\n"

end FormulaSheet.Text
