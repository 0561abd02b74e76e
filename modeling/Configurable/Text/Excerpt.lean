import Configurable.Text.Position
import Configurable.Text.Width

/-!
# Lines around a span

The part of a text that is shown with a span: the lines that the span touches, one line
before and one after them. The part is chosen by line ends of all kinds; a carriage return
that stands alone does not divide the lines that are then shown.
-/

namespace Configurable.Text

/-! ## Choosing the part -/

/-- A line that has an end: the offsets of its start, of its end mark and of the next
line. -/
structure EndedLine where
  start : Nat
  mark : Nat
  next : Nat
deriving DecidableEq, Repr

/-- The lines that have an end, the first of which starts at `start`. The text given starts
at `offset`. -/
def endedLines (start offset : Nat) : List Char → List EndedLine
  | [] => []
  | '\r' :: '\n' :: cs => ⟨start, offset, offset + 2⟩ :: endedLines (offset + 2) (offset + 2) cs
  | c :: cs =>
    if c = '\n' ∨ c = '\r' then
      ⟨start, offset, offset + 1⟩ :: endedLines (offset + 1) (offset + 1) cs
    else endedLines start (offset + c.utf8Size) cs

/-- The lines that end before a span starts. -/
def linesBefore (lines : List EndedLine) (span : Span) : List EndedLine :=
  lines.filter fun l => l.next ≤ span.start

/-- The last byte of a span, or the byte before an empty one. -/
def lastByte (span : Span) : Nat := span.start + span.length - 1

/-- From the line before the span to the end of the line after it; nothing if the span ends
beyond the text. -/
def partAround? (text : String) (span : Span) : Option Span :=
  let lines := endedLines 0 0 text.toList
  let start := ((linesBefore lines span).getLast?.map (·.start)).getD 0
  let ends := lines.filter fun l => lastByte span < l.mark
  if lastByte span ≤ text.utf8ByteSize then
    some ⟨start, ((ends[1]?).map (·.next)).getD text.utf8ByteSize⟩
  else none

/-- The line that a span starts on, and its column there, counted in bytes. -/
def startPosition (text : String) (span : Span) : Position :=
  let lines := endedLines 0 0 text.toList
  let before := linesBefore lines span
  let start := (before.getLast?.map (·.next)).getD 0
  let stop := ((lines[before.length]?).map (·.mark)).getD text.utf8ByteSize
  ⟨before.length + 1, min span.start stop - start + 1⟩

/-! ## Lines to show -/

/-- A line with its number, its bytes with the end mark, and its text without. -/
structure NumberedLine where
  number : Nat
  span : Span
  text : List Char
deriving DecidableEq, Repr

/-- Divides text into lines. `line` is what the current line has so far, the last character
first. A last line whose text ends in a carriage return has the number of the line before
it. -/
def numberedLines (number start offset : Nat) (line : List Char) :
    List Char → List NumberedLine
  | [] =>
    if line.isEmpty then []
    else
      let number := if line.head? = some '\r' then number - 1 else number
      [⟨number, ⟨start, offset⟩, line.reverse⟩]
  | '\r' :: '\n' :: cs =>
    ⟨number, ⟨start, offset + 2⟩, line.reverse⟩ ::
      numberedLines (number + 1) (offset + 2) (offset + 2) [] cs
  | c :: cs =>
    if c = '\n' then
      ⟨number, ⟨start, offset + 1⟩, line.reverse⟩ ::
        numberedLines (number + 1) (offset + 1) (offset + 1) [] cs
    else numberedLines number start (offset + c.utf8Size) (c :: line) cs

/-- The lines to show with a span, if it lies in the text. -/
def excerpt? (text : String) (span : Span) : Option (List NumberedLine) := do
  let part ← partAround? text span
  let chosen ← slice? text part
  let before := (linesBefore (endedLines 0 0 text.toList) span).length
  pure (numberedLines (max before 1) part.start part.start [] chosen.toList)

/-! ## Columns on a terminal -/

def tabWidth : Nat := 4

/-- The columns that each character takes. Tabs reach to the next multiple of their width;
a sequence that steers the terminal takes none, and ends with the letter `m`. -/
def cellWidths (escaped : Bool) (column : Nat) : List Char → List (Char × Nat)
  | [] => []
  | c :: cs =>
    let width :=
      if escaped || c == '\x1B' then 0
      else if c == '\t' then tabWidth - column % tabWidth
      else columns c
    let escaped := if escaped then c != 'm' else c == '\x1B'
    (c, width) :: cellWidths escaped (column + width) cs

/-- A line as it is shown, with spaces for its tabs. -/
def withoutTabs (cs : List Char) : List Char :=
  (cellWidths false 0 cs).flatMap fun (c, width) =>
    if c = '\t' then List.replicate width ' ' else [c]

def cellsOf (cs : List Char) : Nat :=
  (cellWidths false 0 cs).foldl (fun cells (_, width) => cells + width) 0

/-- The characters that lie in the first `bytes` bytes. -/
def endingBefore : List Char → (bytes : Nat) → List Char
  | [], _ => []
  | c :: cs, bytes =>
    if c.utf8Size ≤ bytes then c :: endingBefore cs (bytes - c.utf8Size) else []

/-- The column of the byte at a distance from the start of a line. A byte inside a character
counts as the start of it, or as its end; what lies behind the text is one column away. -/
def cellAt (line : List Char) (bytes : Nat) (atStart : Bool) : Nat :=
  let before := if atStart then endingBefore line bytes else startingBefore line bytes
  cellsOf before + (if byteLength line < bytes then 1 else 0)

end Configurable.Text
