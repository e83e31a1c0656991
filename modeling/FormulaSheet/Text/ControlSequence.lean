/-
  Text without the control sequences of a terminal.

  A terminal takes the characters after an escape character for an order, not
  for text.  `ControlSequence` says how far into such a sequence a reader is,
  and `next` how one more character takes it on.

  * `withoutControls` leaves out control sequences and control characters.
    White space stays: it is shown even where it stands inside a sequence.
  * `withoutControls_eq_self`: text that is shown as it is stays as it is.
  * `isShown_of_mem_withoutControls`: nothing but shown characters is left.
-/
import FormulaSheet.Text.CharRange

namespace FormulaSheet.Text

/-- How far a terminal has read into a sequence that it does not show. -/
inductive ControlSequence where
  /-- Plain text. -/
  | outside
  /-- Right after an escape character. -/
  | escape
  /-- An escape sequence that waits for its last character. -/
  | intermediate
  /-- The parameters of a control sequence, up to a letter. -/
  | control
  /-- An operating system command, up to a bell. -/
  | command
  /-- The start of a device control string. -/
  | device
  /-- The parameters of a device control string. -/
  | deviceParameter
  /-- A device control string after its parameters. -/
  | deviceIntermediate
  /-- The content of a string, up to a string terminator. -/
  | content
  deriving DecidableEq, Repr, Inhabited

/-- The controls that lay text out: tab, line feed, form feed and carriage
    return. -/
def isLayout (c : Char) : Bool :=
  inRanges [(0x9, 0xA), (0xC, 0xD)] c

/-- The characters of plain text that are shown: all but the controls of ASCII,
    of which those for layout are shown. -/
def isShown (c : Char) : Bool :=
  isLayout c || (32 ≤ c.toNat && c.toNat != 127)

/-- Whether the string terminator, the byte `9C`, is among the bytes that
    encode a character. -/
def holdsTerminator (c : Char) : Bool :=
  (String.utf8EncodeChar c).contains 0x9C

namespace ControlSequence

/-- Where a sequence stands after one more character.  Cancel and substitute
    break off any sequence, and an escape character starts a new one. -/
def next (sequence : ControlSequence) (c : Char) : ControlSequence :=
  if c = '\x18' || c = '\x1a' then outside
  else if c = '\x1b' then escape
  else
    match sequence with
    | outside => outside
    | escape =>
      if c = '[' then control
      else if c = ']' then command
      else if c = 'P' then device
      else if c = 'X' || c = '^' || c = '_' then content
      else if inRanges [(0x20, 0x2F)] c then intermediate
      else if inRanges [(0x30, 0x7E)] c then outside
      else escape
    | intermediate => if inRanges [(0x30, 0x7E)] c then outside else intermediate
    | control => if inRanges [(0x40, 0x7E)] c then outside else control
    | command => if c = '\x07' then outside else command
    | device =>
      if inRanges [(0x20, 0x2F)] c then deviceIntermediate
      else if inRanges [(0x30, 0x3F)] c then deviceParameter
      else if inRanges [(0x40, 0x7E)] c then content
      else device
    | deviceParameter =>
      if inRanges [(0x20, 0x2F)] c then deviceIntermediate
      else if inRanges [(0x3C, 0x7E)] c then content
      else deviceParameter
    | deviceIntermediate => if inRanges [(0x30, 0x7E)] c then content else deviceIntermediate
    | content => if holdsTerminator c then outside else content

/-- Whether a character that comes next is shown.  Inside an escape or control
    sequence layout still is, inside a string nothing is. -/
def shows (sequence : ControlSequence) (c : Char) : Bool :=
  match sequence with
  | outside => isShown c
  | escape | intermediate | control => isLayout c
  | command | device | deviceParameter | deviceIntermediate | content => false

/-- The shown characters of `cs`.  A shown character suspends the sequence it
    stands in: while `suspended`, what is plain text is shown as such.  The
    first character that is not shown takes the sequence up again, and a
    character beyond ASCII ends it. -/
def shown (sequence : ControlSequence) (suspended : Bool) : List Char → List Char
  | [] => []
  | c :: cs =>
    if suspended && isShown c then
      c :: shown (if c.toNat < 128 then sequence else outside) true cs
    else if sequence.shows c then
      c :: shown (sequence.next c) true cs
    else
      shown (sequence.next c) false cs

theorem isShown_of_shows {sequence : ControlSequence} {c : Char} (h : sequence.shows c = true) :
    isShown c = true := by
  cases sequence <;> simp_all [shows, isShown]

theorem isShown_of_mem_shown {sequence : ControlSequence} {suspended : Bool} {cs : List Char}
    {c : Char} (h : c ∈ sequence.shown suspended cs) : isShown c = true := by
  induction cs generalizing sequence suspended with
  | nil => simp [shown] at h
  | cons d cs ih =>
    simp only [shown] at h
    split at h
    · rename_i hd
      rcases List.mem_cons.1 h with rfl | h
      · exact (Bool.and_eq_true_iff.1 hd).2
      · exact ih h
    · split at h
      · rename_i hd
        rcases List.mem_cons.1 h with rfl | h
        · exact isShown_of_shows hd
        · exact ih h
      · exact ih h

theorem shown_outside_eq_self {suspended : Bool} {cs : List Char}
    (h : ∀ c ∈ cs, isShown c = true) : outside.shown suspended cs = cs := by
  induction cs generalizing suspended with
  | nil => rfl
  | cons c cs ih =>
    have hc : isShown c = true := h c (by simp)
    have hn : outside.next c = outside := by
      unfold next
      split
      · rfl
      · split
        · rename_i he
          subst he
          exact absurd hc (by decide)
        · rfl
    have hcs := fun s => @ih s fun d hd => h d (List.mem_cons_of_mem c hd)
    simp [shown, shows, hc, hn, hcs]

end ControlSequence

/-- A text without control sequences and control characters. -/
def withoutControls (text : String) : String :=
  String.ofList (ControlSequence.outside.shown false text.toList)

/-- Text of shown characters holds nothing to leave out. -/
theorem withoutControls_eq_self {text : String} (h : ∀ c ∈ text.toList, isShown c = true) :
    withoutControls text = text := by
  simp [withoutControls, ControlSequence.shown_outside_eq_self h]

/-- Only shown characters are left. -/
theorem isShown_of_mem_withoutControls {text : String} {c : Char}
    (h : c ∈ (withoutControls text).toList) : isShown c = true := by
  simp only [withoutControls, String.toList_ofList] at h
  exact ControlSequence.isShown_of_mem_shown h

end FormulaSheet.Text
