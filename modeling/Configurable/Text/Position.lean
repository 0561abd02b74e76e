/-!
# Positions in a text

A place in a text is counted in three ways: the bytes of its UTF-8 form (offsets
and spans), its characters (columns) and its newlines (lines). Offsets are what
readers produce; lines and columns are what people are shown. `positionAt` goes
from the first to the second by scanning the characters that start before the
offset, so an offset inside a character counts that character, and one past the
end of the text means the end.
-/

namespace Configurable.Text

/-- A byte range. `stop` is the offset just past the last byte. -/
structure Span where
  start : Nat
  stop : Nat
deriving DecidableEq, Repr

namespace Span

def length (s : Span) : Nat := s.stop - s.start

/-- From the start of `a` to the end of `b`. -/
def through (a b : Span) : Span := ⟨a.start, b.stop⟩

end Span

/-- A line and a column, both counted from one. -/
structure Position where
  line : Nat
  column : Nat
deriving DecidableEq, Repr

namespace Position

def first : Position := ⟨1, 1⟩

/-- The position after a character. -/
def advance (p : Position) (c : Char) : Position :=
  if c = '\n' then ⟨p.line + 1, 1⟩ else ⟨p.line, p.column + 1⟩

end Position

/-- The leading characters that start before byte `offset`. -/
def startingBefore : List Char → Nat → List Char
  | [], _ => []
  | _ :: _, 0 => []
  | c :: cs, offset => c :: startingBefore cs (offset - c.utf8Size)

def positionAt (text : String) (offset : Nat) : Position :=
  (startingBefore text.toList offset).foldl Position.advance Position.first

/-- Where a span starts and where it ends, for display. The end column points one
past the last character. -/
structure LineRange where
  start : Position
  stop : Position
deriving DecidableEq, Repr

namespace LineRange

def ofOffsets (text : String) (start stop : Nat) : LineRange :=
  ⟨positionAt text start, positionAt text stop⟩

/-- The form `(startLine:startColumn,endLine:endColumn)`. -/
def render (r : LineRange) : String :=
  s!"({r.start.line}:{r.start.column},{r.stop.line}:{r.stop.column})"

end LineRange

/-! ## Cutting a text at byte offsets -/

/-- What is left after the first `n` bytes, if they end at a character boundary. -/
def skipBytes : List Char → Nat → Option (List Char)
  | cs, 0 => some cs
  | [], _ + 1 => none
  | c :: cs, n + 1 => if c.utf8Size ≤ n + 1 then skipBytes cs (n + 1 - c.utf8Size) else none

/-- The first `n` bytes, if they end at a character boundary. -/
def takeBytes : List Char → Nat → Option (List Char)
  | _, 0 => some []
  | [], _ + 1 => none
  | c :: cs, n + 1 =>
    if c.utf8Size ≤ n + 1 then (takeBytes cs (n + 1 - c.utf8Size)).map (c :: ·) else none

/-- The part of `text` that a span covers. -/
def slice? (text : String) (span : Span) : Option String :=
  if span.start ≤ span.stop then
    (skipBytes text.toList span.start).bind fun rest =>
      (takeBytes rest span.length).map String.ofList
  else none

/-- The number of bytes of the UTF-8 form. -/
def byteLength : List Char → Nat
  | [] => 0
  | c :: cs => c.utf8Size + byteLength cs

/-- A text with the name it is shown under, if it has one. -/
structure Named where
  name : Option String
  text : String
deriving DecidableEq, Repr

end Configurable.Text
