/-
  The declarations block: lines of a script that are kept out of the sheet.

  A block starts at a line `% begin - tag` and ends at a line `% end`, blanks
  around them aside.  `extract` cuts out what lies from the last begin line to
  the last end line; without such a pair nothing is cut.
-/
import FormulaSheet.Event
import FormulaSheet.Text.Blank

namespace FormulaSheet

/-- A script without its declarations block, and the block. -/
structure DeclarationsBlock where
  /-- The lines of the block with both markers. -/
  declarations : List String
  /-- The other lines. -/
  remaining : List String
  /-- The numbers of the first and the last line of the block, from 1. -/
  span : Option (Nat × Nat)
  deriving DecidableEq, Repr, Inhabited

namespace DeclarationsBlock

/-- The tag a block has if nothing else is asked for. -/
def defaultTag : String :=
  "labtotex"

/-- The line that starts the block of a tag. -/
def beginMarker (tag : String) : String :=
  "% begin - " ++ tag

/-- The line that ends a block. -/
def endMarker : String :=
  "% end"

/-- The position of the last line that is `marker` between blanks. -/
def lastLine? (marker : String) (lines : List String) : Option Nat :=
  (lines.reverse.findIdx? fun line => Text.trim line == marker).map fun i => lines.length - 1 - i

/-- Cut the declarations block of a tag out of a script. -/
def extract (tag : String) (lines : List String) : DeclarationsBlock :=
  match lastLine? (beginMarker tag) lines, lastLine? endMarker lines with
  | some first, some last =>
    if first ≤ last then
      { declarations := (lines.drop first).take (last + 1 - first)
        remaining := lines.take first ++ lines.drop (last + 1)
        span := some (first + 1, last + 1) }
    else ⟨[], lines, none⟩
  | _, _ => ⟨[], lines, none⟩

/-- The event of a block that was found. -/
def events (block : DeclarationsBlock) : Log :=
  match block.span with
  | some (first, last) => #[.foundBlock first last]
  | none => #[]

end DeclarationsBlock

end FormulaSheet
