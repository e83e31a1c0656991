/-
  Blanks, and text without the blanks around it.

  * `isBlank`: the 25 characters with the white space property.
  * `trim`: a text without its leading and trailing blanks.
-/
import FormulaSheet.Text.CharRange

namespace FormulaSheet.Text

/-- The blanks: tab to carriage return, the space, and the spaces and line
    separators of other scripts. -/
def blankRanges : List (Nat × Nat) :=
  [(0x9, 0xD), (0x20, 0x20), (0x85, 0x85), (0xA0, 0xA0), (0x1680, 0x1680), (0x2000, 0x200A),
   (0x2028, 0x2029), (0x202F, 0x202F), (0x205F, 0x205F), (0x3000, 0x3000)]

/-- A character that only separates. -/
def isBlank (c : Char) : Bool :=
  inRanges blankRanges c

/-- The characters between the leading and the trailing blanks. -/
def trimChars (cs : List Char) : List Char :=
  ((cs.dropWhile isBlank).reverse.dropWhile isBlank).reverse

/-- A text without leading and trailing blanks. -/
def trim (text : String) : String :=
  String.ofList (trimChars text.toList)

/-- Core's blanks are blanks. -/
theorem isBlank_of_isWhitespace {c : Char} (h : c.isWhitespace = true) : isBlank c = true := by
  simp only [Char.isWhitespace, Bool.or_eq_true, decide_eq_true_eq] at h
  rcases h with ((rfl | rfl) | rfl) | rfl <;> decide

end FormulaSheet.Text
